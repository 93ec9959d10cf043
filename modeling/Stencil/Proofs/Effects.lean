/-
What a pass does, told by the spans of its source.  Every span calls for at
most one effect; effects are had one after the other, up to one that does not
end well.
-/
import Stencil.Compiler

namespace Stencil

/-- What a pass does at one place. -/
inductive Effect where
  | literal (text : String)
  | evaluate (code : String) (line : Nat) (template : String)
  | ask (occasion : Occasion)
  deriving DecidableEq, Repr

/-- The effect that a span calls for; after a comment the text may lose the
line break at its beginning. -/
def Config.effect? (config : Config) (template : String)
    (afterComment : Bool) (lexeme : Lexeme) : Option Effect :=
  match lexeme.token with
  | .plain =>
      if afterComment ∧ config.swallowCommentLineBreak then
        some (.literal (dropLineBreak lexeme.text))
      else some (.literal lexeme.text)
  | .script =>
      some (.evaluate (scriptBody config.stripScriptTags lexeme.text)
        lexeme.line template)
  | .expr => some (.ask (.expr lexeme.directive))
  | .message => some (.ask (.message lexeme.directive))
  | .action => some (.ask (.action lexeme.directive false))
  | .absAction => some (.ask (.action lexeme.directive true))
  | .startTag => some (.ask (.startTag lexeme.directive))
  | .endTag => some (.ask (.endTag lexeme.directive))
  | .comment | .eof => none

/-- The effects that spans call for, in order. -/
def Config.effects (config : Config) (template : String)
    (afterComment : Bool) : List Lexeme → List Effect
  | [] => []
  | lexeme :: rest =>
      (config.effect? template afterComment lexeme).toList ++
        config.effects template (lexeme.token == .comment) rest

/-- An event without what came of it. -/
def Event.effect : Event → Effect
  | .literal text => .literal text
  | .script code line template _ => .evaluate code line template
  | .asked occasion => .ask occasion

variable {μ σ : Type}

/-- Have one effect. -/
def Compiler.perform [Sink σ] (compiler : Compiler μ) (effect : Effect)
    (pass : Pass μ σ) : Ending × Pass μ σ :=
  match effect with
  | .literal text =>
      (.done,
        { pass with
          host := { pass.host with page := pass.host.page.plain text } }.note
            (.literal text))
  | .evaluate code line template =>
      let script := compiler.evaluator code
        ⟨template, line, pass.host.page.scope⟩
      let (ending, host) :=
        script.run compiler.config.scriptTimeoutMs 0 pass.host
      let pass := { pass with host := host }.note
        (.script code line template ending)
      match ending with
      | .settled => (.done, pass)
      | .failed error =>
          (.done, pass.report (.evaluation template line error))
      | .overdue limit => (.done, pass.report (.timeout line limit))
      | .stuck => (.stuck, pass)
  | .ask occasion =>
      let (result, host) := (compiler.dialect.handler occasion).run pass.host
      let pass := { pass with host := host }.note (.asked occasion)
      match result with
      | .ok () => (.done, pass)
      | .error fault => (.failed fault, pass)

/-- Have effects one after the other, up to one that does not end well. -/
def Compiler.follow [Sink σ] (compiler : Compiler μ) :
    List Effect → Pass μ σ → Ending × Pass μ σ
  | [], pass => (.done, pass)
  | effect :: rest, pass =>
      match compiler.perform effect pass with
      | (.done, pass) => compiler.follow rest pass
      | (.failed fault, pass) => (.failed fault, pass)
      | (.stuck, pass) => (.stuck, pass)

@[simp] theorem andThen_done (pass : Pass μ σ)
    (next : Pass μ σ → Ending × Pass μ σ) :
    andThen (.done, pass) next = next pass := rfl

theorem exists_of_done {part : Ending × Pass μ σ} (hdone : part.1 = .done) :
    ∃ pass, part = (.done, pass) :=
  ⟨part.2, Prod.ext hdone rfl⟩

theorem andThen_of_ne_done {part : Ending × Pass μ σ}
    (hpart : part.1 ≠ .done) (next : Pass μ σ → Ending × Pass μ σ) :
    andThen part next = part := by
  rcases part with ⟨_ | fault | _, pass⟩
  · exact absurd rfl hpart
  · rfl
  · rfl

theorem andThen_andThen (part : Ending × Pass μ σ)
    (first second : Pass μ σ → Ending × Pass μ σ) :
    andThen (andThen part first) second =
      andThen part fun pass => andThen (first pass) second := by
  rcases part with ⟨_ | fault | _, pass⟩
  · rfl
  · rfl
  · rfl

variable [Sink σ]

/-- The engine asks as the effect says. -/
theorem Compiler.perform_ask (compiler : Compiler μ) (occasion : Occasion)
    (pass : Pass μ σ) :
    compiler.perform (.ask occasion) pass = compiler.ask occasion pass := by
  simp only [perform, ask_eq, Pass.note]
  generalize (compiler.dialect.handler occasion).run pass.host = run
  rcases run with ⟨_ | fault, host⟩
  · rfl
  · rfl

@[simp] theorem Compiler.follow_nil (compiler : Compiler μ)
    (pass : Pass μ σ) : compiler.follow [] pass = (.done, pass) := rfl

theorem Compiler.follow_cons (compiler : Compiler μ) (effect : Effect)
    (rest : List Effect) (pass : Pass μ σ) :
    compiler.follow (effect :: rest) pass =
      andThen (compiler.perform effect pass) (compiler.follow rest) := by
  rw [follow]
  rcases compiler.perform effect pass with ⟨_ | fault | _, later⟩
  · rfl
  · rfl
  · rfl

theorem Compiler.follow_append (compiler : Compiler μ)
    (first second : List Effect) (pass : Pass μ σ) :
    compiler.follow (first ++ second) pass =
      andThen (compiler.follow first pass) (compiler.follow second) := by
  induction first generalizing pass with
  | nil => rfl
  | cons effect rest ih =>
      rw [List.cons_append, follow_cons, follow_cons, andThen_andThen]
      exact congrArg _ (funext ih)

theorem Compiler.follow_singleton (compiler : Compiler μ) (effect : Effect)
    (pass : Pass μ σ) :
    compiler.follow [effect] pass = compiler.perform effect pass := by
  rw [follow_cons]
  rcases compiler.perform effect pass with ⟨_ | fault | _, later⟩
  · rfl
  · rfl
  · rfl

theorem Compiler.perform_template (compiler : Compiler μ) (effect : Effect)
    (pass : Pass μ σ) :
    (compiler.perform effect pass).2.template = pass.template := by
  cases effect with
  | literal text => rfl
  | ask occasion => rw [perform_ask, ask_eq]
  | evaluate code line template =>
      simp only [perform]
      split
      · rfl
      · exact Pass.template_report _ _
      · exact Pass.template_report _ _
      · rfl

/-- The effects that a journal tells of. -/
def journal (events : List Event) : List Effect := events.map Event.effect

theorem Compiler.journal_perform (compiler : Compiler μ) (effect : Effect)
    (pass : Pass μ σ) :
    journal (compiler.perform effect pass).2.events =
      journal pass.events ++ [effect] := by
  have hnote : ∀ event : Event, journal (pass.events ++ [event]) =
      journal pass.events ++ [event.effect] := fun event => List.map_append
  cases effect with
  | literal text => exact hnote _
  | ask occasion =>
      rw [perform_ask, ask_eq]
      exact hnote _
  | evaluate code line template =>
      simp only [perform]
      split
      · exact hnote _
      · rw [Pass.events_report]
        exact hnote _
      · rw [Pass.events_report]
        exact hnote _
      · exact hnote _

theorem Compiler.journal_follow (compiler : Compiler μ)
    (effects : List Effect) (pass : Pass μ σ)
    (hdone : (compiler.follow effects pass).1 = .done) :
    journal (compiler.follow effects pass).2.events =
      journal pass.events ++ effects := by
  induction effects generalizing pass with
  | nil => exact (List.append_nil _).symm
  | cons effect rest ih =>
      have hjournal := compiler.journal_perform effect pass
      rw [follow_cons] at hdone ⊢
      generalize compiler.perform effect pass = part at hdone hjournal ⊢
      rcases part with ⟨_ | fault | _, later⟩
      · rw [andThen_done] at hdone ⊢
        rw [ih later hdone, hjournal, List.append_assoc,
          List.singleton_append]
      · cases hdone
      · cases hdone

/-- Where effects do not all end well, one of them is the last, and those
before it ended well. -/
theorem Compiler.follow_ends (compiler : Compiler μ)
    (effects : List Effect) (pass : Pass μ σ)
    (hends : (compiler.follow effects pass).1 ≠ .done) :
    ∃ earlier effect rest reached, effects = earlier ++ effect :: rest ∧
      compiler.follow earlier pass = (.done, reached) ∧
      compiler.follow effects pass = compiler.perform effect reached ∧
      journal (compiler.follow effects pass).2.events =
        journal pass.events ++ (earlier ++ [effect]) := by
  induction effects generalizing pass with
  | nil => exact absurd rfl hends
  | cons effect rest ih =>
      have hjournal := compiler.journal_perform effect pass
      rw [follow_cons] at hends ⊢
      by_cases hdone : (compiler.perform effect pass).1 = .done
      · obtain ⟨later, hlater⟩ := exists_of_done hdone
        rw [hlater] at hends hjournal ⊢
        rw [andThen_done] at hends ⊢
        obtain ⟨earlier, last, others, reached, rfl, hreached, hfollow,
          hevents⟩ := ih later hends
        refine ⟨effect :: earlier, last, others, reached, rfl, ?_, hfollow,
          ?_⟩
        · rw [follow_cons, hlater]
          exact hreached
        · rw [hevents, hjournal, List.append_assoc]
          rfl
      · rw [andThen_of_ne_done hdone]
        exact ⟨[], effect, rest, pass, rfl, rfl, rfl, hjournal⟩

variable {compiler : Compiler μ} {start : Pass μ σ} {effect : Effect}

theorem Compiler.perform_failed {fault : Fault}
    (hfailed : (compiler.perform effect start).1 = .failed fault) :
    ∃ occasion, effect = .ask occasion ∧
      ((compiler.dialect.handler occasion).run start.host).1 =
        .error fault := by
  cases effect with
  | literal text => cases hfailed
  | evaluate code line template =>
      simp only [perform] at hfailed
      split at hfailed <;> cases hfailed
  | ask occasion =>
      rw [perform_ask, ask_eq] at hfailed
      exact ⟨occasion, rfl, (Ending.ofResult_eq_failed_iff _ fault).mp hfailed⟩

theorem Compiler.perform_of_error {occasion : Occasion} {fault : Fault}
    (hhandler : ((compiler.dialect.handler occasion).run start.host).1 =
      .error fault) :
    (compiler.perform (.ask occasion) start).1 = .failed fault := by
  rw [perform_ask, ask_eq]
  exact (Ending.ofResult_eq_failed_iff _ fault).mpr hhandler

/-- An effect that fails is the last one, whatever would come after it. -/
theorem Compiler.follow_of_failed {earlier : List Effect}
    {reached : Pass μ σ} {fault : Fault}
    (hreached : compiler.follow earlier start = (.done, reached))
    (hfailed : (compiler.perform effect reached).1 = .failed fault)
    (rest : List Effect) :
    (compiler.follow (earlier ++ effect :: rest) start).1 = .failed fault ∧
      journal (compiler.follow (earlier ++ effect :: rest) start).2.events =
        journal start.events ++ earlier ++ [effect] := by
  have hends : (compiler.perform effect reached).1 ≠ .done := by
    simp [hfailed]
  have hdone := compiler.journal_follow earlier start
    (congrArg Prod.fst hreached)
  rw [hreached] at hdone
  rw [follow_append, hreached, andThen_done, follow_cons,
    andThen_of_ne_done hends, compiler.journal_perform, hdone]
  exact ⟨hfailed, rfl⟩

theorem Compiler.perform_stuck
    (hstuck : (compiler.perform effect start).1 = .stuck) :
    ∃ code line template, effect = .evaluate code line template ∧
      ((compiler.evaluator code ⟨template, line, start.host.page.scope⟩).run
        compiler.config.scriptTimeoutMs 0 start.host).1 = .stuck := by
  cases effect with
  | literal text => cases hstuck
  | evaluate code line template =>
      refine ⟨code, line, template, rfl, ?_⟩
      simp only [perform] at hstuck
      split at hstuck
      · cases hstuck
      · cases hstuck
      · cases hstuck
      · assumption
  | ask occasion =>
      rw [perform_ask, ask_eq] at hstuck
      exact absurd hstuck (Ending.ofResult_ne_stuck _)

end Stencil
