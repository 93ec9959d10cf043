/-
What runs on a page.  A script and a handler reach the page through its
operations only; the operations that they do, in order, are all that they do
to it.
-/
import Stencil.Compiler

namespace Stencil

theorem Page.applyAll_cons (page : Page) (op : PageOp)
    (rest : List PageOp) :
    page.applyAll (op :: rest) = (page.apply op).2.applyAll rest := rfl

theorem Page.applyAll_append (page : Page) (first second : List PageOp) :
    page.applyAll (first ++ second) =
      (page.applyAll first).applyAll second :=
  List.foldl_append

/-- A page that operations make of a blank one. -/
def Page.Reachable (page : Page) : Prop :=
  ∃ (scope : Scope) (lineMarker : String) (ops : List PageOp),
    page = (Page.blank scope lineMarker).applyAll ops

theorem Page.Reachable.applyAll {page : Page} (hpage : page.Reachable)
    (ops : List PageOp) : (page.applyAll ops).Reachable := by
  obtain ⟨scope, lineMarker, earlier, rfl⟩ := hpage
  exact ⟨scope, lineMarker, earlier ++ ops,
    ((Page.blank scope lineMarker).applyAll_append earlier ops).symm⟩

variable {μ σ : Type}

/-- The page operations that a run of a handler does, in order. -/
def Handler.pageOps : Handler μ → Host μ σ → List PageOp
  | .done, _ => []
  | .fail _, _ => []
  | .act op next, host =>
      let (reply, page) := host.page.apply op
      op :: (next reply).pageOps { host with page := page }
  | .look next, host => (next host.page.view).pageOps host
  | .recall next, host => (next host.memory).pageOps host
  | .remember memory next, host =>
      next.pageOps { host with memory := memory }

theorem Handler.page_run (handler : Handler μ) (host : Host μ σ) :
    (handler.run host).2.page =
      host.page.applyAll (handler.pageOps host) := by
  induction handler generalizing host with
  | done => rfl
  | fail fault => rfl
  | act op next ih => exact ih _ _
  | look next ih => exact ih _ host
  | «recall» next ih => exact ih _ host
  | remember memory next ih => exact ih _

theorem Compiler.host_ask (compiler : Compiler μ) (occasion : Occasion)
    (pass : Pass μ σ) :
    (compiler.ask occasion pass).2.host =
      ((compiler.dialect.handler occasion).run pass.host).2 := by
  rw [ask_eq]

theorem Host.page_read (host : Host μ σ) (most : Option Nat) :
    (host.read most).2.page = host.page := by
  rw [read]
  split <;> rfl

variable [Sink σ]

theorem Host.page_send (host : Host μ σ) (call : SinkCall) :
    (host.send call).2.page = host.page := by
  rw [send]
  split <;> rfl

/-- The page operations that a run of a script does before it ends, in
order. -/
def Script.pageOps (limit : Option Nat) :
    Script μ → Nat → Host μ σ → List PageOp
  | .done, _, _ => []
  | .fail _, _, _ => []
  | .append text next, waited, host =>
      .plain text ::
        next.pageOps limit waited { host with page := host.page.plain text }
  | .appendLine text next, waited, host =>
      .plainLine text ::
        next.pageOps limit waited
          { host with page := host.page.plainLine text }
  | .requestExit next, waited, host =>
      .requestExit ::
        next.pageOps limit waited { host with page := host.page.requestExit }
  | .read most next, waited, host =>
      let (reply, host) := host.read most
      (next reply).pageOps limit waited host
  | .send call next, waited, host =>
      let (reply, host) := host.send call
      (next reply).pageOps limit waited host
  | .wait ms next, waited, host =>
      match limit with
      | none => next.pageOps none (waited + ms) host
      | some most =>
          if most < waited + ms then []
          else next.pageOps (some most) (waited + ms) host
  | .hang, _, _ => []
  | .recall next, waited, host =>
      (next host.memory).pageOps limit waited host
  | .remember memory next, waited, host =>
      next.pageOps limit waited { host with memory := memory }

theorem Script.page_run (limit : Option Nat) (script : Script μ)
    (waited : Nat) (host : Host μ σ) :
    (script.run limit waited host).2.page =
      host.page.applyAll (script.pageOps limit waited host) := by
  induction script generalizing waited host with
  | done => rfl
  | fail error => rfl
  | append text next ih => exact ih waited _
  | appendLine text next ih => exact ih waited _
  | requestExit next ih => exact ih waited _
  | read most next ih =>
      have hread := ih (host.read most).1 waited (host.read most).2
      rwa [host.page_read most] at hread
  | send call next ih =>
      have hsend := ih (host.send call).1 waited (host.send call).2
      rwa [host.page_send call] at hsend
  | wait ms next ih =>
      cases limit with
      | none => exact ih _ host
      | some most =>
          simp only [Script.run, Script.pageOps]
          split
          · rfl
          · exact ih _ host
  | hang =>
      cases limit with
      | none => rfl
      | some most => rfl
  | «recall» next ih => exact ih _ waited host
  | remember memory next ih => exact ih waited _

/-- What a script can do to a page: write as literal text is written, and
request an exit. -/
def PageOp.isScripted : PageOp → Bool
  | .plain _ | .plainLine _ | .requestExit => true
  | .print _ | .println _ | .printForced _ | .markLine _ | .openTag
  | .closeTag | .clear => false

theorem Script.isScripted_of_mem_pageOps (limit : Option Nat)
    (script : Script μ) (waited : Nat) (host : Host μ σ) :
    ∀ op ∈ script.pageOps limit waited host, op.isScripted = true := by
  induction script generalizing waited host with
  | done | fail | hang => exact fun _ hop => absurd hop List.not_mem_nil
  | append _ next ih | appendLine _ next ih | requestExit next ih =>
      intro op hop
      rcases List.mem_cons.mp hop with rfl | hop
      · rfl
      · exact ih _ _ op hop
  | read most next ih => exact ih _ waited _
  | send call next ih => exact ih _ waited _
  | wait ms next ih =>
      cases limit with
      | none => exact ih _ host
      | some most =>
          simp only [Script.pageOps]
          split
          · exact fun _ hop => absurd hop List.not_mem_nil
          · exact ih _ host
  | «recall» next ih => exact ih _ waited host
  | remember memory next ih => exact ih waited _

/-- A script cannot print by force. -/
theorem Script.printForced_not_mem_pageOps (limit : Option Nat)
    (script : Script μ) (waited : Nat) (host : Host μ σ) (text : String) :
    .printForced text ∉ script.pageOps limit waited host := by
  intro hmem
  have hscripted := script.isScripted_of_mem_pageOps limit waited host _ hmem
  cases hscripted

end Stencil
