/-
Passes that do not depend on the sink.  Where no script calls the sink, two
passes that differ in their sinks only make the same page, with the same table
and the same outcome.
-/
import Stencil.Proofs.Lockstep
import Stencil.Proofs.PassFold
import Stencil.Proofs.SinkRuns

namespace Stencil

variable {μ σ τ : Type}

/-- Hosts that differ in their sinks only. -/
structure Host.Agrees (left : Host μ σ) (right : Host μ τ) : Prop where
  page : left.page = right.page
  input : left.input = right.input
  memory : left.memory = right.memory

/-- Passes that differ in their sinks, and in what was noted of them. -/
structure Pass.Agrees (left : Pass μ σ) (right : Pass μ τ) : Prop where
  host : left.host.Agrees right.host
  template : left.template = right.template
  afterComment : left.afterComment = right.afterComment

theorem Host.Agrees.read {left : Host μ σ} {right : Host μ τ}
    (hagrees : left.Agrees right) (most : Option Nat) :
    (left.read most).1 = (right.read most).1 ∧
      (left.read most).2.Agrees (right.read most).2 := by
  simp only [Host.read, ← hagrees.input]
  split
  · exact ⟨rfl, hagrees⟩
  · exact ⟨rfl, { hagrees with input := rfl }⟩

theorem Handler.run_agrees (handler : Handler μ) {left : Host μ σ}
    {right : Host μ τ} (hagrees : left.Agrees right) :
    (handler.run left).1 = (handler.run right).1 ∧
      (handler.run left).2.Agrees (handler.run right).2 := by
  induction handler generalizing left right with
  | done | fail => exact ⟨rfl, hagrees⟩
  | act op next ih =>
      simp only [run, hagrees.page]
      exact ih _ { hagrees with page := rfl }
  | look next ih =>
      simp only [run, hagrees.page]
      exact ih _ hagrees
  | «recall» next ih =>
      simp only [run, hagrees.memory]
      exact ih _ hagrees
  | remember memory next ih => exact ih { hagrees with memory := rfl }

variable [Sink σ] [Sink τ]

/-- A script that makes no call runs alike on all sinks. -/
theorem Script.run_agrees (limit : Option Nat) (script : Script μ)
    (waited : Nat) {left : Host μ σ} {right : Host μ τ}
    (hagrees : left.Agrees right)
    (hsilent : script.sinkCalls limit waited left = []) :
    (script.run limit waited left).1 = (script.run limit waited right).1 ∧
      (script.run limit waited left).2.Agrees
        (script.run limit waited right).2 := by
  induction script generalizing waited left right with
  | done | fail => exact ⟨rfl, hagrees⟩
  | append text next ih | appendLine text next ih | requestExit next ih =>
      simp only [run, hagrees.page]
      refine ih waited { hagrees with page := rfl } ?_
      rw [← hagrees.page]
      exact hsilent
  | read most next ih =>
      obtain ⟨hreply, hread⟩ := hagrees.read most
      simp only [run, ← hreply]
      exact ih _ waited hread hsilent
  | send call next ih => cases hsilent
  | wait ms next ih =>
      cases limit with
      | none => exact ih _ hagrees hsilent
      | some most =>
          simp only [run, sinkCalls] at hsilent ⊢
          split
          · exact ⟨rfl, hagrees⟩
          · rename_i hintime
            rw [if_neg hintime] at hsilent
            exact ih _ hagrees hsilent
  | hang =>
      cases limit with
      | none => exact ⟨rfl, hagrees⟩
      | some most => exact ⟨rfl, hagrees⟩
  | «recall» next ih =>
      simp only [run, ← hagrees.memory]
      exact ih _ waited hagrees hsilent
  | remember memory next ih =>
      exact ih waited { hagrees with memory := rfl } hsilent

/-- A compiler whose scripts never call the sink. -/
def Compiler.Silent (compiler : Compiler μ) (σ : Type) [Sink σ] : Prop :=
  ∀ code view (host : Host μ σ),
    (compiler.evaluator code view).sinkCalls compiler.config.scriptTimeoutMs 0
      host = []

theorem Compiler.lockstep_agrees (compiler : Compiler μ)
    (hsilent : compiler.Silent σ) :
    Compiler.Lockstep compiler compiler
      (Pass.Agrees : Pass μ σ → Pass μ τ → Prop) where
  stops hagrees := by rw [stopsAt, stopsAt, hagrees.host.page]
  comment hagrees := { hagrees with afterComment := rfl }
  literal text := by
    intro left right hagrees
    simp only [literal, Pass.note, hagrees.afterComment, hagrees.host.page]
    exact ⟨{ hagrees.host with page := rfl }, hagrees.template, rfl⟩
  ask occasion := by
    intro left right hagrees
    obtain ⟨hends, hhosts⟩ :=
      (compiler.dialect.handler occasion).run_agrees hagrees.host
    rw [ask_eq, ask_eq, hends]
    exact ⟨rfl, hhosts, hagrees.template, hagrees.afterComment⟩
  script lexeme := by
    intro left right hagrees
    obtain ⟨hends, hhosts⟩ := Script.run_agrees _ _ 0 hagrees.host
      (hsilent (scriptBody compiler.config.stripScriptTags lexeme.text)
        ⟨left.template, lexeme.line, left.host.page.scope⟩ left.host)
    rw [script_eq_perform, script_eq_perform,
      perform_evaluate _ _ _ _ left (Prod.eta _).symm,
      perform_evaluate _ _ _ _ right (Prod.eta _).symm, ← hagrees.template,
      ← hagrees.host.page]
    refine ⟨?_, hhosts, rfl, hagrees.afterComment⟩
    simp only [hends]

/-- Where no script calls the sink, the page of a pass, its table and its
outcome are the same whatever the sink, and without one. -/
theorem Compiler.render_sinkFree (compiler : Compiler μ)
    (template : Template) (memory : μ) (hsilent : compiler.Silent σ)
    {request : Request σ} {other : Request τ}
    (hinput : request.input = other.input) :
    (compiler.render template request memory).outcome =
        (compiler.render template other memory).outcome ∧
      (compiler.render template request memory).template =
        (compiler.render template other memory).template := by
  have hstart : Pass.Agrees (compiler.start template request memory)
      (compiler.start template other memory) :=
    ⟨⟨rfl, hinput, rfl⟩, rfl, rfl⟩
  have hrun := (compiler.lockstep_agrees hsilent).run
    (.ofSource template.source) hstart
  simp only [render]
  generalize compiler.run (.ofSource template.source)
    (compiler.start template request memory) = first at hrun
  generalize compiler.run (.ofSource template.source)
    (compiler.start template other memory) = second at hrun
  obtain ⟨ending, left⟩ := first
  obtain ⟨ending', right⟩ := second
  obtain ⟨hending, hpasses⟩ := hrun
  have hpage : left.host.page = right.host.page := hpasses.host.page
  cases hending
  cases ending with
  | done =>
      simp only [Report.ofPart, Pass.page_deliver, hpage, and_self]
  | failed fault => exact ⟨rfl, congrArg template.withPage hpage⟩
  | stuck => exact ⟨rfl, rfl⟩

end Stencil
