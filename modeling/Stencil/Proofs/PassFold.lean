/-
A pass is a fold over the spans of its source.  It has the effects that they
call for in order, between the two hooks of the dialect.  It is cut short only
where one of them does not end well, and where an exit was requested under the
policy that stops the scan.
-/
import Stencil.Proofs.Effects
import Stencil.Proofs.Tiling
import Stencil.Response

namespace Stencil

variable {μ σ : Type}

/-- A pass that does not remember a comment. -/
def Pass.forget (pass : Pass μ σ) : Pass μ σ :=
  { pass with afterComment := false }

theorem Pass.forget_report (pass : Pass μ σ) (fault : Fault) :
    (pass.report fault).forget = pass.forget.report fault := by
  by_cases hlistening : pass.listening = true
  · simp [report, forget, hlistening]
  · simp [report, forget, hlistening]

theorem Pass.forget_eq {pass : Pass μ σ} (hflag : pass.afterComment = false) :
    pass.forget = pass := by
  rw [forget, ← hflag]

def forget (part : Ending × Pass μ σ) : Ending × Pass μ σ :=
  (part.1, part.2.forget)

theorem Compiler.forget_ask (compiler : Compiler μ) (occasion : Occasion)
    (pass : Pass μ σ) :
    forget (compiler.ask occasion pass) =
      compiler.ask occasion pass.forget := by
  rw [ask_eq, ask_eq]
  rfl

theorem Compiler.forget_andThen_ask (compiler : Compiler μ)
    (part : Ending × Pass μ σ) (occasion : Occasion) :
    forget (andThen part (compiler.ask occasion)) =
      andThen (forget part) (compiler.ask occasion) := by
  rcases part with ⟨_ | fault | _, pass⟩
  · exact compiler.forget_ask occasion pass
  · rfl
  · rfl

theorem Compiler.ask_afterComment (compiler : Compiler μ)
    (occasion : Occasion) (pass : Pass μ σ) :
    (compiler.ask occasion pass).2.afterComment = pass.afterComment := by
  rw [ask_eq]

/-- The engine stops where an exit was requested and the policy is to end the
scan. -/
theorem Compiler.stopsAt_iff (compiler : Compiler μ) (pass : Pass μ σ) :
    compiler.stopsAt pass = true ↔
      compiler.config.exitPolicy = .abortScan ∧
        pass.host.page.exiting = true := by
  simp [stopsAt]

variable [Sink σ]

theorem Compiler.forget_script (compiler : Compiler μ) (lexeme : Lexeme)
    (pass : Pass μ σ) :
    forget (compiler.script lexeme pass) =
      compiler.perform
        (.evaluate (scriptBody compiler.config.stripScriptTags lexeme.text)
          lexeme.line pass.template)
        pass.forget := by
  simp only [script, perform, Pass.note, Pass.forget]
  generalize (compiler.evaluator
    (scriptBody compiler.config.stripScriptTags lexeme.text)
    ⟨pass.template, lexeme.line, pass.host.page.scope⟩).run
      compiler.config.scriptTimeoutMs 0 pass.host = run
  obtain ⟨ending, host⟩ := run
  cases ending with
  | settled => rfl
  | stuck => rfl
  | failed error => exact congrArg _ (Pass.forget_report _ _)
  | overdue limit => exact congrArg _ (Pass.forget_report _ _)

/-- A span is dispatched to the effect that it calls for. -/
theorem Compiler.forget_dispatch (compiler : Compiler μ) (lexeme : Lexeme)
    (pass : Pass μ σ) :
    forget (compiler.dispatch lexeme pass) =
      match compiler.config.effect? pass.template pass.afterComment lexeme with
      | some effect =>
          compiler.perform effect pass.forget
      | none => (.done, pass.forget) := by
  unfold dispatch Config.effect?
  cases htoken : lexeme.token with
  | plain =>
      simp only [literal]
      split <;> rfl
  | script => exact compiler.forget_script lexeme pass
  | comment => rfl
  | eof => simp [Lexeme.directive, Directive.occasion?, htoken, forget]
  | expr | message | action | absAction | startTag | endTag =>
      simp only [Lexeme.directive, Directive.occasion?, htoken]
      exact (compiler.forget_ask _ pass).trans
        (compiler.perform_ask _ pass.forget).symm

theorem Compiler.dispatch_template (compiler : Compiler μ) (lexeme : Lexeme)
    (pass : Pass μ σ) :
    (compiler.dispatch lexeme pass).2.template = pass.template := by
  have hforget := compiler.forget_dispatch lexeme pass
  have htemplate : (forget (compiler.dispatch lexeme pass)).2.template =
      pass.template := by
    rw [hforget]
    split
    · exact compiler.perform_template _ _
    · rfl
  exact htemplate

theorem Compiler.script_afterComment (compiler : Compiler μ)
    (lexeme : Lexeme) (pass : Pass μ σ) :
    (compiler.script lexeme pass).2.afterComment = pass.afterComment := by
  simp only [script]
  split
  · rfl
  · exact Pass.afterComment_report _ _
  · exact Pass.afterComment_report _ _
  · rfl

/-- A comment is remembered exactly up to the next span, as that is literal
text. -/
theorem Compiler.dispatch_afterComment (compiler : Compiler μ)
    {lexeme : Lexeme} {pass : Pass μ σ}
    (hcomment : pass.afterComment = true → lexeme.token = .plain) :
    (compiler.dispatch lexeme pass).2.afterComment =
      (lexeme.token == .comment) := by
  have hclear : lexeme.token ≠ .plain → pass.afterComment = false := by
    intro hother
    cases hflag : pass.afterComment with
    | false => rfl
    | true => exact absurd (hcomment hflag) hother
  unfold dispatch
  cases htoken : lexeme.token with
  | plain => rfl
  | comment => rfl
  | script =>
      simp only [script_afterComment]
      exact hclear (by simp [htoken])
  | eof =>
      simp only [Lexeme.directive, Directive.occasion?, htoken]
      exact hclear (by simp [htoken])
  | expr | message | action | absAction | startTag | endTag =>
      simp only [Lexeme.directive, Directive.occasion?, htoken,
        ask_afterComment]
      exact hclear (by simp [htoken])

/-- Having these effects from the start ends well, with an exit requested
under the policy that stops the scan. -/
def Compiler.ExitsAfter (compiler : Compiler μ) (start : Pass μ σ)
    (effects : List Effect) : Prop :=
  ∃ pass, compiler.follow effects start = (.done, pass) ∧
    compiler.config.exitPolicy = .abortScan ∧ pass.host.page.exiting = true

/-- What a scan takes of the effects that its source calls for: all of them,
or those up to the first place where an exit stops it. -/
structure Compiler.Takes (compiler : Compiler μ) (start : Pass μ σ)
    (effects taken : List Effect) : Prop where
  split : ∃ rest, effects = taken ++ rest ∧
    (rest ≠ [] → compiler.ExitsAfter start taken)
  first : ∀ earlier later, taken = earlier ++ later → later ≠ [] →
    ¬ compiler.ExitsAfter start earlier

variable {compiler : Compiler μ} {start next : Pass μ σ} {effect : Effect}
  {effects taken : List Effect}

theorem Compiler.exitsAfter_nil :
    compiler.ExitsAfter start [] ↔ compiler.stopsAt start = true := by
  rw [stopsAt_iff]
  constructor
  · rintro ⟨pass, hfollow, hstops⟩
    cases hfollow
    exact hstops
  · intro hstops
    exact ⟨start, rfl, hstops⟩

theorem Compiler.exitsAfter_cons_of_done
    (hdone : compiler.perform effect start = (.done, next)) :
    compiler.ExitsAfter start (effect :: effects) ↔
      compiler.ExitsAfter next effects := by
  simp only [ExitsAfter, follow_cons, hdone, andThen]

theorem Compiler.not_exitsAfter_cons
    (hends : (compiler.perform effect start).1 ≠ .done) :
    ¬ compiler.ExitsAfter start (effect :: effects) := by
  rintro ⟨pass, hfollow, _⟩
  rw [follow_cons, andThen_of_ne_done hends] at hfollow
  rw [hfollow] at hends
  exact hends rfl

theorem Compiler.takes_nil : compiler.Takes start [] [] where
  split := ⟨[], rfl, fun hne => absurd rfl hne⟩
  first := by
    intro earlier later hsplit hne
    exact absurd (List.append_eq_nil_iff.mp hsplit.symm).2 hne

theorem Compiler.takes_of_stopsAt (hstops : compiler.stopsAt start = true) :
    compiler.Takes start effects [] where
  split := ⟨effects, rfl, fun _ => exitsAfter_nil.mpr hstops⟩
  first := takes_nil.first

theorem Compiler.Takes.cons (hgoes : compiler.stopsAt start = false)
    (hdone : compiler.perform effect start = (.done, next))
    (htakes : compiler.Takes next effects taken) :
    compiler.Takes start (effect :: effects) (effect :: taken) where
  split := by
    obtain ⟨rest, hsplit, hexits⟩ := htakes.split
    refine ⟨rest, congrArg _ hsplit, ?_⟩
    intro hne
    exact (exitsAfter_cons_of_done hdone).mpr (hexits hne)
  first := by
    intro earlier later hsplit hne
    cases earlier with
    | nil =>
        rw [exitsAfter_nil, hgoes]
        exact Bool.false_ne_true
    | cons first earlier =>
        rw [List.cons_append, List.cons.injEq] at hsplit
        obtain ⟨rfl, hlater⟩ := hsplit
        rw [exitsAfter_cons_of_done hdone]
        exact htakes.first earlier later hlater hne

theorem Compiler.Takes.isPrefix_of_cons
    (htakes : compiler.Takes start (effect :: effects) (effect :: taken)) :
    taken <+: effects := by
  obtain ⟨rest, hsplit, _⟩ := htakes.split
  exact ⟨rest, (List.cons.inj hsplit).2.symm⟩

theorem Compiler.takes_of_ends (hgoes : compiler.stopsAt start = false)
    (hends : (compiler.perform effect start).1 ≠ .done) :
    compiler.Takes start (effect :: effects) (effect :: effects) where
  split := ⟨[], by simp, fun hne => absurd rfl hne⟩
  first := by
    intro earlier later hsplit hne
    cases earlier with
    | nil =>
        rw [exitsAfter_nil, hgoes]
        exact Bool.false_ne_true
    | cons first earlier =>
        rw [List.cons_append, List.cons.injEq] at hsplit
        obtain ⟨rfl, _⟩ := hsplit
        exact not_exitsAfter_cons hends

/-- A scan that goes on after a span takes the effect of the span, if there
is one, and then what it takes of the rest. -/
theorem Compiler.takes_step {found : Option Effect}
    {part : Ending × Pass μ σ} {further : Pass μ σ → Ending × Pass μ σ}
    (hgoes : compiler.stopsAt start = false)
    (hpart : forget part = match found with
      | some effect => compiler.perform effect start
      | none => (.done, start))
    (hrest : ∀ later, part = (.done, later) →
      ∃ taken, compiler.Takes later.forget effects taken ∧
        forget (further later) = compiler.follow taken later.forget) :
    ∃ taken, compiler.Takes start (found.toList ++ effects) taken ∧
      forget (andThen part further) = compiler.follow taken start := by
  by_cases hdone : part.1 = .done
  · obtain ⟨ending, later⟩ := part
    subst hdone
    obtain ⟨taken, htakes, hfurther⟩ := hrest later rfl
    cases found with
    | none =>
        have hsame : later.forget = start := congrArg Prod.snd hpart
        rw [hsame] at htakes hfurther
        exact ⟨taken, htakes, hfurther⟩
    | some effect =>
        have hperform : compiler.perform effect start =
          (.done, later.forget) := hpart.symm
        refine ⟨effect :: taken, htakes.cons hgoes hperform, ?_⟩
        rw [follow_cons, hperform]
        exact hfurther
  · rw [andThen_of_ne_done hdone]
    cases found with
    | none => exact absurd (congrArg Prod.fst hpart) hdone
    | some effect =>
        have hends : (compiler.perform effect start).1 ≠ .done := by
          rw [← show forget part = compiler.perform effect start from hpart]
          exact hdone
        refine ⟨effect :: effects, takes_of_ends hgoes hends, ?_⟩
        rw [follow_cons, andThen_of_ne_done hends]
        exact hpart

/-- Only literal text or the end of input comes after a comment. -/
theorem Lexer.At.afterComment {lexer : Lexer} {before ahead : List Char}
    (hat : lexer.At before ahead) (hcomment : lexer.next.1 = .comment) :
    lexer.next.2.state.mode = .plain ∨ lexer.next.2.state.mode = .eof := by
  have hmode : lexer.state.mode = .comment := lexer.next_token ▸ hcomment
  have hgap := @ScanState.cut_gap lexer.state ahead (by simp [hmode])
  rw [hmode] at hgap
  rw [hat.next.2.1]
  generalize (lexer.state.cut ahead).next.mode = next at hgap
  cases next with
  | plain => exact Or.inl rfl
  | eof => exact Or.inr rfl
  | script | expr | startTag | endTag | message | action | absAction
  | comment => cases hgap

/-- A scan has the effects that it takes of those that the spans still to come
call for. -/
theorem Compiler.scan_follow (compiler : Compiler μ) {lexer : Lexer}
    {before ahead : List Char} (hat : lexer.At before ahead)
    (hopen : lexer.exhausted = false) (pass : Pass μ σ)
    (hcomment : pass.afterComment = true →
      lexer.state.mode = .plain ∨ lexer.state.mode = .eof) :
    ∃ taken,
      compiler.Takes pass.forget
        (compiler.config.effects pass.template pass.afterComment lexer.drain)
        taken ∧
      forget (compiler.scan lexer pass) =
        compiler.follow taken pass.forget := by
  rw [scan]
  by_cases hstops : compiler.stopsAt pass = true
  · rw [if_pos hstops]
    exact ⟨[], takes_of_stopsAt hstops, rfl⟩
  · rw [if_neg hstops, Lexer.drain_eq hopen]
    have hgoes : compiler.stopsAt pass.forget =
        false := Bool.eq_false_iff.mpr hstops
    by_cases heof : lexer.next.1 = .eof
    · have hnone : compiler.config.effects pass.template pass.afterComment
          [lexer.next.2.lexeme lexer.next.1] = [] := by
        simp [Config.effects, Config.effect?, Lexer.lexeme, heof]
      rw [dif_pos heof, if_pos heof, hnone]
      exact ⟨[], takes_nil, rfl⟩
    · rw [dif_neg heof, if_neg heof]
      have hplain : pass.afterComment = true →
          (lexer.next.2.lexeme lexer.next.1).token = .plain := by
        intro hflag
        rw [lexer.next_token] at heof
        exact lexer.next_token.trans
          ((hcomment hflag).resolve_right heof)
      have hflag := compiler.dispatch_afterComment hplain
      have hname := compiler.dispatch_template
        (lexer.next.2.lexeme lexer.next.1) pass
      have hlt := lexer.next_remaining_lt heof
      refine takes_step hgoes (compiler.forget_dispatch _ pass) ?_
      intro later hlater
      rw [hlater] at hflag hname
      have hafter : later.afterComment = true →
          lexer.next.2.state.mode = .plain ∨
            lexer.next.2.state.mode = .eof := by
        intro hset
        exact hat.afterComment (eq_of_beq (hflag.symm.trans hset))
      have hrest := compiler.scan_follow hat.next.2.2 hopen later hafter
      rw [hname, hflag] at hrest
      exact hrest
termination_by lexer.remaining

theorem Report.events_ofPart (template : Template)
    (part : Ending × Pass μ σ) :
    (Report.ofPart template part).events = part.2.events := by
  rcases part with ⟨_ | fault | _, pass⟩
  · exact pass.events_deliver
  · rfl
  · rfl

/-- The outcome of a pass tells how its parts ended. -/
theorem Report.ending_of_outcome (template : Template)
    (part : Ending × Pass μ σ) :
    part.1 = match (Report.ofPart template part).outcome with
      | .page _ => .done
      | .failed fault => .failed fault
      | .stuck => .stuck := by
  rcases part with ⟨_ | fault | _, pass⟩
  · rfl
  · rfl
  · rfl

theorem Report.outcome_eq_failed_iff (template : Template)
    (part : Ending × Pass μ σ) (fault : Fault) :
    (Report.ofPart template part).outcome = .failed fault ↔
      part.1 = .failed fault := by
  rcases part with ⟨_ | given | _, pass⟩
  · constructor <;> rintro ⟨⟩
  · simp [ofPart]
  · constructor <;> rintro ⟨⟩

theorem Pass.deliver_forget (pass : Pass μ σ) :
    pass.forget.deliver = pass.deliver.forget := by
  have hhost : pass.forget.host = pass.host := rfl
  rw [deliver, deliver, hhost]
  split
  · rfl
  · split
    · rfl
    · exact (forget_report { pass with host := _ } _).symm

theorem Report.ofPart_forget (template : Template)
    (part : Ending × Pass μ σ) :
    Report.ofPart template (forget part) = Report.ofPart template part := by
  rcases part with ⟨_ | fault | _, pass⟩
  · simp only [forget, ofPart, Pass.deliver_forget]
    rfl
  · rfl
  · rfl

/-- The effects of a whole pass that takes these of its source. -/
def between (taken : List Effect) : List Effect :=
  .ask .head :: (taken ++ [.ask .finish])

/-- How a pass over a template follows the effects that its source calls for,
as far as it takes them. -/
structure Compiler.Follows (compiler : Compiler μ) (template : Template)
    (request : Request σ) (memory : μ) (taken : List Effect) : Prop where
  takes :
    compiler.Takes (compiler.start template request memory)
      (.ask .head :: compiler.config.effects template.name false
        (Lexer.ofSource template.source).drain)
      (.ask .head :: taken)
  report :
    compiler.render template request memory =
      .ofPart template (compiler.follow (between taken)
        (compiler.start template request memory))
  page : ∀ text,
    (compiler.render template request memory).outcome = .page text →
    journal (compiler.render template request memory).events = between taken
  /-- A handler that gives a fault is the last one, and the fault is the
  outcome. -/
  endsAtFault : ∀ earlier occasion rest pass fault,
    between taken = earlier ++ .ask occasion :: rest →
    compiler.follow earlier (compiler.start template request memory) =
      (.done, pass) →
    ((compiler.dialect.handler occasion).run pass.host).1 = .error fault →
    (compiler.render template request memory).outcome = .failed fault ∧
      journal (compiler.render template request memory).events =
        earlier ++ [.ask occasion]
  failed : ∀ fault,
    (compiler.render template request memory).outcome = .failed fault →
    ∃ earlier occasion rest pass,
      between taken = earlier ++ .ask occasion :: rest ∧
      compiler.follow earlier (compiler.start template request memory) =
        (.done, pass) ∧
      ((compiler.dialect.handler occasion).run pass.host).1 = .error fault ∧
      journal (compiler.render template request memory).events =
        earlier ++ [.ask occasion]
  stuck :
    (compiler.render template request memory).outcome = .stuck →
    ∃ earlier code line name rest pass,
      between taken = earlier ++ .evaluate code line name :: rest ∧
      compiler.follow earlier (compiler.start template request memory) =
        (.done, pass) ∧
      ((compiler.evaluator code ⟨name, line, pass.host.page.scope⟩).run
        compiler.config.scriptTimeoutMs 0 pass.host).1 = .stuck ∧
      journal (compiler.render template request memory).events =
        earlier ++ [.evaluate code line name]

theorem Compiler.run_follow (compiler : Compiler μ) (template : Template)
    (request : Request σ) (memory : μ) :
    ∃ taken,
      compiler.Takes (compiler.start template request memory)
        (.ask .head :: compiler.config.effects template.name false
          (Lexer.ofSource template.source).drain)
        (.ask .head :: taken) ∧
      forget (compiler.run (.ofSource template.source)
          (compiler.start template request memory)) =
        compiler.follow (between taken)
          (compiler.start template request memory) := by
  have hgoes : compiler.stopsAt
      (compiler.start template request memory : Pass μ σ) = false :=
    Bool.and_false _
  have hflag : (compiler.perform (.ask .head)
      (compiler.start template request memory)).2.afterComment = false := by
    rw [perform_ask]
    exact compiler.ask_afterComment .head _
  have hname := compiler.perform_template (.ask .head)
    (compiler.start template request memory)
  have hrun : compiler.run (.ofSource template.source)
      (compiler.start template request memory) =
      andThen (compiler.perform (.ask .head)
        (compiler.start template request memory)) fun pass =>
          andThen (compiler.scan (.ofSource template.source) pass)
            (compiler.ask .finish) := by
    rw [perform_ask]
    rfl
  rw [hrun]
  simp only [between, follow_cons]
  generalize hhead : compiler.perform (.ask .head)
    (compiler.start template request memory) = part at hflag hname
  obtain ⟨ending, pass⟩ := part
  cases ending with
  | done =>
      have hafter : pass.afterComment = false := hflag
      have htemplate : pass.template = template.name := hname
      obtain ⟨taken, htakes, hscan⟩ := compiler.scan_follow
        (Lexer.at_ofSource template.source) rfl pass (by simp [hafter])
      rw [Pass.forget_eq hafter] at htakes hscan
      rw [hafter, htemplate] at htakes
      refine ⟨taken, htakes.cons hgoes hhead, ?_⟩
      have hfinish : compiler.follow [.ask .finish] =
          (compiler.ask .finish : Pass μ σ → Ending × Pass μ σ) :=
        funext fun pass => (compiler.follow_singleton _ pass).trans
          (compiler.perform_ask .finish pass)
      rw [andThen_done, andThen_done, forget_andThen_ask, hscan,
        follow_append, hfinish]
  | failed fault | stuck =>
      refine ⟨_, takes_of_ends hgoes (by simp [hhead]), ?_⟩
      rw [andThen_of_ne_done (by simp), andThen_of_ne_done (by simp)]
      exact Prod.ext rfl (Pass.forget_eq hflag)

/-- A pass is reported of as the effects that it takes leave it. -/
theorem Compiler.render_follow (compiler : Compiler μ) (template : Template)
    (request : Request σ) (memory : μ) :
    ∃ taken,
      compiler.Takes (compiler.start template request memory)
        (.ask .head :: compiler.config.effects template.name false
          (Lexer.ofSource template.source).drain)
        (.ask .head :: taken) ∧
      compiler.render template request memory =
        .ofPart template (compiler.follow (between taken)
          (compiler.start template request memory)) := by
  obtain ⟨taken, htakes, hrun⟩ :=
    compiler.run_follow template request memory
  refine ⟨taken, htakes, ?_⟩
  rw [render, ← Report.ofPart_forget, hrun]

section

variable {template : Template} {request : Request σ} {memory : μ}

/-- A pass that is reported of so follows the effects. -/
theorem Compiler.follows_of_report
    (htakes : compiler.Takes (compiler.start template request memory)
      (.ask .head :: compiler.config.effects template.name false
        (Lexer.ofSource template.source).drain)
      (.ask .head :: taken))
    (hreport : compiler.render template request memory =
      .ofPart template (compiler.follow (between taken)
        (compiler.start template request memory))) :
    compiler.Follows template request memory taken := by
  have hending := Report.ending_of_outcome template
    (compiler.follow (between taken)
      (compiler.start template request memory))
  have hevents : (compiler.render template request memory).events =
      (compiler.follow (between taken)
        (compiler.start template request memory)).2.events := by
    rw [hreport, Report.events_ofPart]
  rw [← hreport] at hending
  refine ⟨htakes, hreport, ?_, ?_, ?_, ?_⟩
  · intro text hpage
    rw [hpage] at hending
    rw [hevents]
    exact compiler.journal_follow _ _ hending
  · intro earlier occasion rest reached fault hsplit hreached hhandler
    obtain ⟨hlast, hjournal⟩ := follow_of_failed hreached
      (perform_of_error hhandler) rest
    rw [hevents, hsplit, hreport, Report.outcome_eq_failed_iff, hsplit]
    exact ⟨hlast, hjournal⟩
  · intro fault hfailed
    rw [hfailed] at hending
    obtain ⟨earlier, effect, rest, reached, hsplit, hreached, hfollow,
      hjournal⟩ := compiler.follow_ends (between taken)
        (compiler.start template request memory) (by simp [hending])
    rw [hfollow] at hending
    obtain ⟨occasion, rfl, hhandler⟩ := perform_failed hending
    rw [hevents]
    exact ⟨earlier, occasion, rest, reached, hsplit, hreached, hhandler,
      hjournal⟩
  · intro hstuck
    rw [hstuck] at hending
    obtain ⟨earlier, effect, rest, reached, hsplit, hreached, hfollow,
      hjournal⟩ := compiler.follow_ends (between taken)
        (compiler.start template request memory) (by simp [hending])
    rw [hfollow] at hending
    obtain ⟨code, line, name, rfl, hscript⟩ := perform_stuck hending
    rw [hevents]
    exact ⟨earlier, code, line, name, rest, reached, hsplit, hreached,
      hscript, hjournal⟩

end

/-- A pass is a fold over the spans of its source. -/
theorem Compiler.render_follows (compiler : Compiler μ)
    (template : Template) (request : Request σ) (memory : μ) :
    ∃ taken, compiler.Follows template request memory taken := by
  obtain ⟨taken, htakes, hreport⟩ :=
    compiler.render_follow template request memory
  exact ⟨taken, follows_of_report htakes hreport⟩

/-- What a complete pass has taken is told by its events. -/
theorem Compiler.Follows.taken_eq {template : Template} {request : Request σ}
    {memory : μ} {all : List Effect} {text : String}
    (hfollows : compiler.Follows template request memory taken)
    (hpage : (compiler.render template request memory).outcome = .page text)
    (hevents : journal (compiler.render template request memory).events =
      between all) : taken = all := by
  have hsame : between taken = between all :=
    (hfollows.page text hpage).symm.trans hevents
  exact List.append_cancel_right (List.cons.inj hsame).2

namespace PassFoldWitness

/-- A script writes its code, its line and the name of its template; but `q`
requests an exit. -/
def evaluator : Evaluator Unit := fun code view =>
  if code = "q" then .requestExit .done
  else .append (code ++ toString view.line ++ view.template) .done

/-- Print a letter with the text and the line of a directive. -/
def shown (letter : String) (directive : Directive) : Handler Unit :=
  .act (.print (letter ++ directive.text ++ toString directive.line))
    fun _ => .done

/-- Each kind of directive has a letter, but messages are rejected. -/
def lettered : Compiler Unit where
  evaluator := evaluator
  dialect :=
    { head := .act (.print "<") fun _ => .done
      expr := shown "e"
      message := fun directive => .fail (directive.fail "no")
      action := fun directive absolute =>
        shown (if absolute then "A" else "a") directive
      startTag := shown "s"
      endTag := shown "t"
      finish := .act (.print ">") fun _ => .done }
  config := { exitPolicy := .abortScan, swallowCommentLineBreak := true }

def template (source : String) : Template := .named ⟨"", 0⟩ "page" source

/-- All kinds of spans but messages. -/
def whole : Template :=
  template ("x$\x7bu\x7d*\x7bc\x7d*\ny@\x7bv\x7d@@\x7bw\x7d" ++
    "#\x7bp\x7d#\x7b/p\x7d%\x7bk\x7d%")

def wholeTaken : List Effect :=
  [.literal "x", .ask (.expr ⟨.expr, "u", 1, some '\x7d'⟩), .literal "",
    .literal "y", .ask (.action ⟨.action, "v", 2, some '\x7d'⟩ false),
    .literal "", .ask (.action ⟨.absAction, "w", 2, some '\x7d'⟩ true),
    .literal "", .ask (.startTag ⟨.startTag, "p", 2, some '\x7d'⟩),
    .literal "", .ask (.endTag ⟨.endTag, "p", 2, some '\x7d'⟩),
    .literal "", .evaluate "k" 2 "page", .literal ""]

/-- A message comes before the last text. -/
def broken : Template := template "x&\x7bm\x7dy"

/-- An exit is requested before the last text. -/
def stopped : Template :=
  template "x%\x7b <script>q</script> \x7d%y"

def report (template : Template) : Report Unit Response :=
  lettered.render template {} ()

/-- The whole source between the hooks; then a pass that a handler ends, in
which nothing comes after the fault; and one that an exit stops, in which the
last hook still comes. -/
theorem hooks_and_cuts :
    lettered.Follows whole ({} : Request Response) () wholeTaken ∧
    (report whole).outcome = .page "<xeu1yav2Aw2sp2tp2k2page>" ∧
    (∃ taken, lettered.Follows broken ({} : Request Response) () taken) ∧
    (report broken).outcome = .failed (.directive .message 1 "no") ∧
    (report broken).template.output = "<x" ∧
    journal (report broken).events = [.ask .head, .literal "x",
      .ask (.message ⟨.message, "m", 1, some '\x7d'⟩)] ∧
    lettered.Follows stopped ({} : Request Response) ()
      [.literal "x", .evaluate "q" 1 "page"] ∧
    (report stopped).outcome = .page "<x" := by
  have hwhole : (report whole).outcome =
        .page "<xeu1yav2Aw2sp2tp2k2page>" ∧
      journal (report whole).events = between wholeTaken := by decide +kernel
  have hstopped : (report stopped).outcome = .page "<x" ∧
      journal (report stopped).events =
        between [.literal "x", .evaluate "q" 1 "page"] := by decide +kernel
  refine ⟨?_, hwhole.1, ?_, ?_, ?_, ?_, ?_, hstopped.1⟩
  · obtain ⟨taken, hfollows⟩ :=
      lettered.render_follows whole ({} : Request Response) ()
    exact hfollows.taken_eq hwhole.1 hwhole.2 ▸ hfollows
  · exact lettered.render_follows broken {} ()
  · decide +kernel
  · decide +kernel
  · decide +kernel
  · obtain ⟨taken, hfollows⟩ :=
      lettered.render_follows stopped ({} : Request Response) ()
    exact hfollows.taken_eq hstopped.1 hstopped.2 ▸ hfollows

end PassFoldWitness

end Stencil
