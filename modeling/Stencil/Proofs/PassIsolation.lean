/-
Passes in a session do not leak into each other.  A pass finds of the passes
before it nothing but the source that the steps between them left, and what the
evaluator and the dialect remember; the record of the template keeps its name,
and the page and the table of the last pass up to the next.
-/
import Stencil.Session
import Stencil.Proofs.PassFold

namespace Stencil

variable {μ σ : Type}

/-- The source after a step. -/
def SessionStep.source : SessionStep σ → String → String
  | .render _, source => source
  | .setSource source, _ => source
  | .finalize, _ => ""

def SessionStep.isRender : SessionStep σ → Bool
  | .render _ => true
  | .setSource _ | .finalize => false

/-- The source after steps, from one at the start. -/
def sourceAfter (steps : List (SessionStep σ)) (source : String) : String :=
  steps.foldl (fun source step => step.source source) source

/-- The same record, perhaps with another source, page or table. -/
structure Template.SameRecord (first second : Template) : Prop where
  path : first.path = second.path
  name : first.name = second.name
  createdAt : first.createdAt = second.createdAt

/-- The same page with the same table. -/
structure Template.SamePage (first second : Template) : Prop where
  output : first.output = second.output
  lineMap : first.lineMap = second.lineMap

/-- Reports of two passes that went alike; a pass that never ends leaves no
page. -/
structure Report.Same (first second : Report μ σ) : Prop where
  outcome : first.outcome = second.outcome
  faults : first.faults = second.faults
  events : first.events = second.events
  sink : first.sink = second.sink
  memory : first.memory = second.memory
  page : first.outcome ≠ .stuck → first.template.SamePage second.template

theorem Template.SameRecord.trans {first second third : Template}
    (hfirst : first.SameRecord second) (hsecond : second.SameRecord third) :
    first.SameRecord third :=
  ⟨hfirst.path.trans hsecond.path, hfirst.name.trans hsecond.name,
    hfirst.createdAt.trans hsecond.createdAt⟩

theorem Template.SamePage.trans {first second third : Template}
    (hfirst : first.SamePage second) (hsecond : second.SamePage third) :
    first.SamePage third :=
  ⟨hfirst.output.trans hsecond.output, hfirst.lineMap.trans hsecond.lineMap⟩

variable [Sink σ]

/-- What is reported of a part of a pass does not depend on the record, but
for the record itself. -/
theorem Report.same_ofPart (first second : Template)
    (part : Ending × Pass μ σ) :
    (Report.ofPart first part).Same (Report.ofPart second part) := by
  rcases part with ⟨_ | fault | _, pass⟩
  · exact ⟨rfl, rfl, rfl, rfl, rfl, fun _ => ⟨rfl, rfl⟩⟩
  · exact ⟨rfl, rfl, rfl, rfl, rfl, fun _ => ⟨rfl, rfl⟩⟩
  · exact ⟨rfl, rfl, rfl, rfl, rfl, fun hends => absurd rfl hends⟩

/-- All that a pass reads of a record is the name and the source. -/
theorem Compiler.render_same (compiler : Compiler μ)
    {first second : Template} (request : Request σ) (memory : μ)
    (hname : first.name = second.name)
    (hsource : first.source = second.source) :
    (compiler.render first request memory).Same
      (compiler.render second request memory) := by
  have hstart : compiler.start first request memory =
      compiler.start second request memory := by
    rw [start, start, hname]
  rw [render, render, hstart, hsource]
  exact Report.same_ofPart first second _

/-- A pass writes the page and the table of a record only. -/
theorem Compiler.sameRecord_render (compiler : Compiler μ)
    (template : Template) (request : Request σ) (memory : μ) :
    (compiler.render template request memory).template.SameRecord template ∧
      (compiler.render template request memory).template.source =
        template.source := by
  rw [render]
  rcases compiler.run (.ofSource template.source)
    (compiler.start template request memory) with ⟨_ | fault | _, pass⟩
  · exact ⟨⟨rfl, rfl, rfl⟩, rfl⟩
  · exact ⟨⟨rfl, rfl, rfl⟩, rfl⟩
  · exact ⟨⟨rfl, rfl, rfl⟩, rfl⟩

/-- What a step leaves of a session: the compiler, the record, and the source
that the step says. -/
theorem Session.step_keeps (session : Session μ) (step : SessionStep σ) :
    (session.step step).2.compiler = session.compiler ∧
      (session.step step).2.template.SameRecord session.template ∧
      (session.step step).2.template.source =
        step.source session.template.source := by
  cases step with
  | render request =>
      exact ⟨rfl, session.compiler.sameRecord_render session.template request
        session.memory⟩
  | setSource source => exact ⟨rfl, ⟨rfl, rfl, rfl⟩, rfl⟩
  | finalize => exact ⟨rfl, ⟨rfl, rfl, rfl⟩, rfl⟩

theorem Session.run_keeps (session : Session μ)
    (steps : List (SessionStep σ)) :
    (session.run steps).2.compiler = session.compiler ∧
      (session.run steps).2.template.SameRecord session.template ∧
      (session.run steps).2.template.source =
        sourceAfter steps session.template.source := by
  induction steps generalizing session with
  | nil => exact ⟨rfl, ⟨rfl, rfl, rfl⟩, rfl⟩
  | cons step rest ih =>
      obtain ⟨hcompiler, hrecord, hsource⟩ := session.step_keeps step
      obtain ⟨hlater, hkept, hafter⟩ := ih (session.step step).2
      refine ⟨hlater.trans hcompiler, hkept.trans hrecord, ?_⟩
      rw [hsource] at hafter
      exact hafter

/-- Steps without a pass leave the page and the table of the last one. -/
theorem Session.samePage_run (session : Session μ)
    (steps : List (SessionStep σ))
    (hquiet : ∀ step ∈ steps, step.isRender = false) :
    (session.run steps).2.template.SamePage session.template := by
  induction steps generalizing session with
  | nil => exact ⟨rfl, rfl⟩
  | cons step rest ih =>
      have hlater := ih (session.step step).2 fun step hstep =>
        hquiet step (List.mem_cons_of_mem _ hstep)
      refine hlater.trans ?_
      cases step with
      | render request => cases hquiet _ List.mem_cons_self
      | setSource source => exact ⟨rfl, rfl⟩
      | finalize => exact ⟨rfl, rfl⟩

theorem Session.run_append (session : Session μ)
    (first second : List (SessionStep σ)) :
    session.run (first ++ second) =
      ((session.run first).1 ++ ((session.run first).2.run second).1,
        ((session.run first).2.run second).2) := by
  induction first generalizing session with
  | nil => rfl
  | cons step rest ih => simp only [List.cons_append, run, ih]

theorem Session.length_run (session : Session μ)
    (steps : List (SessionStep σ)) :
    (session.run steps).1.length = steps.length := by
  induction steps generalizing session with
  | nil => rfl
  | cons step rest ih => simp only [run, List.length_cons, ih]

/-- In a session each pass goes as it would on a fresh record of the same name
with the source of the moment; between passes nothing of the record changes
but the source, and that only where a step says so. -/
theorem Session.passes_apart (session : Session μ)
    (earlier : List (SessionStep σ)) :
    (session.run earlier).2.compiler = session.compiler ∧
    (session.run earlier).2.template.SameRecord session.template ∧
    (session.run earlier).2.template.source =
      sourceAfter earlier session.template.source ∧
    ((∀ step ∈ earlier, step.isRender = false) →
      (session.run earlier).2.template.SamePage session.template) ∧
    ∀ (request : Request σ) (later : List (SessionStep σ)),
      ∃ report,
        (session.run (earlier ++ .render request :: later)).1[
          earlier.length]? = some (some report) ∧
        (∀ fresh : Template, fresh.name = session.template.name →
          fresh.source = sourceAfter earlier session.template.source →
          report.Same (session.compiler.render fresh request
            (session.run earlier).2.memory)) ∧
        ((∀ step ∈ later, step.isRender = false) →
          (session.run (earlier ++ .render request :: later)
            ).2.template.SamePage report.template) := by
  obtain ⟨hcompiler, hrecord, hsource⟩ := session.run_keeps earlier
  refine ⟨hcompiler, hrecord, hsource, session.samePage_run earlier, ?_⟩
  intro request later
  refine ⟨session.compiler.render (session.run earlier).2.template request
    (session.run earlier).2.memory, ?_, ?_, ?_⟩
  · rw [session.run_append, ← session.length_run earlier,
      List.getElem?_append_right (Nat.le_refl _), Nat.sub_self, ← hcompiler]
    rfl
  · intro fresh hname hfresh
    exact session.compiler.render_same request _
      (hrecord.name.trans hname.symm) (hsource.trans hfresh.symm)
  · intro hquiet
    rw [session.run_append, ← hcompiler]
    exact Session.samePage_run _ later hquiet

namespace PassIsolationWitness

/-- Scripts request an exit; expressions are marked and printed, and start
tags are opened and never closed. -/
def compiler : Compiler Unit where
  evaluator _ _ := .requestExit .done
  dialect :=
    { expr := fun directive =>
        .act (.markLine directive.line) fun _ =>
          .act (.println directive.text) fun _ => .done
      startTag := fun _ => .act .openTag fun _ => .done }

def session : Session Unit where
  compiler := compiler
  template := .named ⟨"", 0⟩ "page" "$\x7ba\x7d#\x7bt\x7db&\x7bm\x7d"
  memory := ()

/-- A pass that a fault ends within a tag, and one that an exit ends, with a
comment that is never closed. -/
def earlier : List (SessionStep Outlet) :=
  [.render {}, .setSource "c%\x7bq\x7d%d*\x7be", .render {},
    .setSource "f$\x7bg\x7d\nh"]

theorem last_pass_apart :
    (session.run earlier).1.map (Option.map Report.outcome) =
      [some (.failed (.unimplementedDirective .message 1)), none,
        some (.page "c"), none] ∧
    (∃ report,
      (session.run (earlier ++ [.render {}, .finalize])).1[4]? =
        some (some report) ∧
      report.outcome = .page "f// line 1g\n\nh") ∧
    (session.run (earlier ++ [.render {}, .finalize])).2.template.output =
      "f// line 1g\n\nh" := by
  obtain ⟨_, _, _, _, hpasses⟩ := session.passes_apart earlier
  obtain ⟨report, hreport, hfresh, hlater⟩ := hpasses {} [.finalize]
  have hsame := hfresh (.named ⟨"", 0⟩ "page" "f$\x7bg\x7d\nh") rfl rfl
  have houtcome : report.outcome = .page "f// line 1g\n\nh" := by
    rw [hsame.outcome]
    decide +kernel
  refine ⟨by decide +kernel, ⟨report, hreport, houtcome⟩, ?_⟩
  have hkept := hlater (by simp [SessionStep.isRender])
  have hpage := hsame.page (by rw [houtcome]; simp)
  rw [hkept.output, hpage.output]
  decide +kernel

end PassIsolationWitness

end Stencil
