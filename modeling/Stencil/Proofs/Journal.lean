/-
The journal of a pass tells its faults.  Every effect leaves one event, and a
fault with it exactly where the event is of a script that did not settle.
-/
import Stencil.Proofs.Effects

namespace Stencil

/-- The fault that an event gives rise to: that of a script that failed, or
that a limit cut off. -/
def Event.fault? : Event → Option Fault
  | .script _ line template (.failed error) =>
      some (.evaluation template line error)
  | .script _ line _ (.overdue limit) => some (.timeout line limit)
  | .script _ _ _ .settled | .script _ _ _ .stuck | .literal _
  | .asked _ => none

def Effect.isScript : Effect → Bool
  | .evaluate .. => true
  | .literal _ | .ask _ => false

/-- The calls of the evaluator that a journal tells of, and how they ended. -/
def calls (events : List Event) : List Event :=
  events.filter (fun event => event.effect.isScript)

theorem calls_append (first second : List Event) :
    calls (first ++ second) = calls first ++ calls second :=
  List.filter_append first second

/-- Without scripts there are no calls, and no faults. -/
theorem calls_eq_nil {events : List Event}
    (hevents : ∀ event ∈ events, event.effect.isScript = false) :
    calls events = [] ∧ events.filterMap Event.fault? = [] := by
  constructor
  · rw [calls, List.filter_eq_nil_iff]
    intro event hevent
    rw [hevents event hevent]
    exact Bool.false_ne_true
  · rw [List.filterMap_eq_nil_iff]
    intro event hevent
    have hother := hevents event hevent
    cases event with
    | literal text => rfl
    | asked occasion => rfl
    | script code line template ending => cases hother

variable {μ σ : Type} [Sink σ]

/-- A script is cut off by the limit that it runs under, and by no other. -/
theorem Script.limit_of_overdue {limit : Option Nat} {script : Script μ}
    {waited most : Nat} {host : Host μ σ}
    (hoverdue : (script.run limit waited host).1 = .overdue most) :
    limit = some most := by
  induction script generalizing waited host with
  | done | fail => cases hoverdue
  | append _ next ih | appendLine _ next ih | requestExit next ih =>
      exact ih hoverdue
  | read _ next ih | send _ next ih => exact ih _ hoverdue
  | wait ms next ih =>
      cases limit with
      | none => exact ih hoverdue
      | some bound =>
          simp only [run] at hoverdue
          split at hoverdue
          · cases hoverdue
            rfl
          · exact ih hoverdue
  | hang =>
      cases limit with
      | none => cases hoverdue
      | some bound =>
          cases hoverdue
          rfl
  | «recall» next ih => exact ih _ hoverdue
  | remember memory next ih => exact ih hoverdue

theorem Compiler.script_eq_perform (compiler : Compiler μ) (lexeme : Lexeme)
    (pass : Pass μ σ) :
    compiler.script lexeme pass =
      compiler.perform
        (.evaluate (scriptBody compiler.config.stripScriptTags lexeme.text)
          lexeme.line pass.template) pass := rfl

/-- All that evaluating a script does to a pass. -/
theorem Compiler.perform_evaluate (compiler : Compiler μ) (code : String)
    (line : Nat) (template : String) (pass : Pass μ σ) {ending : ScriptEnd}
    {host : Host μ σ}
    (hrun : (compiler.evaluator code
      ⟨template, line, pass.host.page.scope⟩).run
        compiler.config.scriptTimeoutMs 0 pass.host = (ending, host)) :
    compiler.perform (.evaluate code line template) pass =
      (if ending = .stuck then .stuck else .done,
        { pass with
          host := host
          events := pass.events ++ [.script code line template ending]
          faults := pass.faults ++
            if pass.listening then
              [.script code line template ending].filterMap Event.fault?
            else [] }) := by
  simp only [perform, hrun, Pass.note]
  cases ending with
  | settled => simp [Event.fault?]
  | stuck => simp [Event.fault?]
  | failed error | overdue limit =>
      simp only [Pass.report]
      split
      · simp [Event.fault?]
      · simp

/-- An effect leaves one event, and the fault of that event with whoever
listens. -/
theorem Compiler.perform_noted (compiler : Compiler μ) (effect : Effect)
    (pass : Pass μ σ) :
    ∃ event : Event, event.effect = effect ∧
      (compiler.perform effect pass).2.listening = pass.listening ∧
      (compiler.perform effect pass).2.events = pass.events ++ [event] ∧
      (compiler.perform effect pass).2.faults = pass.faults ++
        if pass.listening then [event].filterMap Event.fault?
        else [] := by
  cases effect with
  | literal text =>
      refine ⟨.literal text, rfl, rfl, rfl, ?_⟩
      simp [perform, Pass.note, Event.fault?]
  | evaluate code line template =>
      rw [compiler.perform_evaluate code line template pass (Prod.eta _).symm]
      exact ⟨_, rfl, rfl, rfl, rfl⟩
  | ask occasion =>
      rw [perform_ask, ask_eq]
      refine ⟨.asked occasion, rfl, rfl, rfl, ?_⟩
      simp [Event.fault?]

/-- What every effect keeps, effects one after the other keep. -/
theorem Compiler.follow_keeps {compiler : Compiler μ}
    {property : Pass μ σ → Prop}
    (hkeeps : ∀ effect pass, property pass →
      property (compiler.perform effect pass).2)
    (effects : List Effect) {pass : Pass μ σ} (hpass : property pass) :
    property (compiler.follow effects pass).2 := by
  induction effects generalizing pass with
  | nil => exact hpass
  | cons effect rest ih =>
      have hnext := hkeeps effect pass hpass
      rw [follow_cons]
      generalize compiler.perform effect pass = part at hnext
      rcases part with ⟨_ | fault | _, later⟩
      · exact ih hnext
      · exact hnext
      · exact hnext

/-- Effects leave the events of the first of them, and the faults of those
events with whoever listens. -/
theorem Compiler.follow_noted (compiler : Compiler μ)
    (effects : List Effect) (pass : Pass μ σ) :
    ∃ events : List Event, journal events <+: effects ∧
      (compiler.follow effects pass).2.listening = pass.listening ∧
      (compiler.follow effects pass).2.events = pass.events ++ events ∧
      (compiler.follow effects pass).2.faults = pass.faults ++
        if pass.listening then events.filterMap Event.fault?
        else [] := by
  induction effects generalizing pass with
  | nil => exact ⟨[], List.prefix_rfl, rfl, by simp, by simp⟩
  | cons effect rest ih =>
      obtain ⟨event, rfl, hlistening, hevents, hfaults⟩ :=
        compiler.perform_noted effect pass
      rw [follow_cons]
      by_cases hdone : (compiler.perform event.effect pass).1 = .done
      · obtain ⟨later, hlater⟩ := exists_of_done hdone
        rw [hlater] at hlistening hevents hfaults ⊢
        rw [andThen_done]
        obtain ⟨events, hjournal, hheard, hmore, hmoreFaults⟩ := ih later
        refine ⟨event :: events, ?_, hheard.trans hlistening, ?_, ?_⟩
        · exact List.cons_prefix_cons.mpr ⟨rfl, hjournal⟩
        · rw [hmore, hevents, List.append_assoc]
          rfl
        · rw [hmoreFaults, hfaults, hlistening, List.append_assoc]
          split
          · rw [← List.filterMap_append, List.singleton_append]
          · rfl
      · rw [andThen_of_ne_done hdone]
        exact ⟨[event], List.cons_prefix_cons.mpr ⟨rfl, List.nil_prefix⟩,
          hlistening, hevents, hfaults⟩

/-- Each event was left by its effect, in the pass that the effects of the
events before it lead to. -/
theorem Compiler.follow_event (compiler : Compiler μ) {effects : List Effect}
    {pass : Pass μ σ} {earlier later : List Event} {event : Event}
    (hevents : (compiler.follow effects pass).2.events =
      pass.events ++ (earlier ++ event :: later)) :
    ∃ before, compiler.follow (journal earlier) pass = (.done, before) ∧
      (compiler.perform event.effect before).2.events =
        before.events ++ [event] := by
  induction effects generalizing pass earlier with
  | nil =>
      have hlength := congrArg List.length hevents
      simp only [follow_nil, List.length_append, List.length_cons] at hlength
      omega
  | cons effect rest ih =>
      obtain ⟨first, rfl, _, hfirst, _⟩ := compiler.perform_noted effect pass
      rw [follow_cons] at hevents
      by_cases hdone : (compiler.perform first.effect pass).1 = .done
      · obtain ⟨next, hnext⟩ := exists_of_done hdone
        obtain ⟨events, _, _, hrest, _⟩ := compiler.follow_noted rest next
        have hall : first :: events = earlier ++ event :: later := by
          rw [hnext, andThen_done, hrest] at hevents
          rw [hnext] at hfirst
          rw [hfirst, List.append_assoc] at hevents
          exact List.append_cancel_left hevents
        cases earlier with
        | nil =>
            cases hall
            exact ⟨pass, rfl, hfirst⟩
        | cons _ earlier =>
            cases hall
            obtain ⟨before, hbefore, hevent⟩ := ih hrest
            refine ⟨before, ?_, hevent⟩
            rw [← hbefore]
            exact (compiler.follow_cons _ _ pass).trans (by rw [hnext]; rfl)
      · rw [andThen_of_ne_done hdone, hfirst] at hevents
        have hall := List.append_cancel_left hevents
        cases earlier with
        | nil =>
            cases hall
            exact ⟨pass, rfl, hfirst⟩
        | cons _ earlier =>
            have hnil := (List.cons.inj hall).2
            simp at hnil

end Stencil
