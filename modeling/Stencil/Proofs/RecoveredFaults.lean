/-
The faults that a pass recovers from.  Whoever listens is given one fault for
each script that did not settle, in the order of the source, and then perhaps
one of the sink; listening changes nothing, and neither does failing.
-/
import Stencil.BoundedSink
import Stencil.Proofs.Journal
import Stencil.Proofs.Lockstep
import Stencil.Proofs.PageRuns
import Stencil.Proofs.PassFold

namespace Stencil

variable {μ σ : Type}

/-- A pass that nobody listens to. -/
def Pass.deaf (pass : Pass μ σ) : Pass μ σ :=
  { pass with listening := false, faults := [] }

theorem Pass.deaf_report (pass : Pass μ σ) (fault : Fault) :
    (pass.report fault).deaf = pass.deaf := by
  rw [report]
  split <;> rfl

def deaf (part : Ending × Pass μ σ) : Ending × Pass μ σ :=
  (part.1, part.2.deaf)

theorem Compiler.ask_deaf (compiler : Compiler μ) (occasion : Occasion)
    (pass : Pass μ σ) :
    compiler.ask occasion pass.deaf = deaf (compiler.ask occasion pass) := by
  rw [ask_eq, ask_eq]
  rfl

variable [Sink σ]

theorem Compiler.script_deaf (compiler : Compiler μ) (lexeme : Lexeme)
    (pass : Pass μ σ) :
    compiler.script lexeme pass.deaf = deaf (compiler.script lexeme pass) := by
  rw [script_eq_perform, script_eq_perform,
    perform_evaluate _ _ _ _ pass (Prod.eta _).symm,
    perform_evaluate _ _ _ _ pass.deaf (Prod.eta _).symm]
  refine Prod.ext rfl ?_
  simp [deaf, Pass.deaf]

/-- Nothing that a pass does depends on who listens. -/
theorem Compiler.lockstep_deaf (compiler : Compiler μ) :
    compiler.Lockstep compiler
      fun heard unheard : Pass μ σ => unheard = heard.deaf where
  stops := by
    rintro heard _ rfl
    rfl
  ask := by
    rintro occasion heard _ rfl
    rw [compiler.ask_deaf]
    exact ⟨rfl, rfl⟩
  literal := by
    rintro text heard _ rfl
    rfl
  script := by
    rintro lexeme heard _ rfl
    rw [compiler.script_deaf]
    exact ⟨rfl, rfl⟩
  comment := by
    rintro heard _ rfl
    rfl

theorem Pass.deliver_deaf (pass : Pass μ σ) :
    pass.deaf.deliver = pass.deliver.deaf := by
  have hhost : pass.deaf.host = pass.host := rfl
  rw [deliver, deliver, hhost]
  split
  · rfl
  · split
    · rfl
    · exact (deaf_report { pass with host := _ } _).symm

theorem Report.ofPart_deaf (template : Template)
    (part : Ending × Pass μ σ) :
    Report.ofPart template (deaf part) =
      { Report.ofPart template part with faults := [] } := by
  rcases part with ⟨_ | fault | _, pass⟩
  · simp only [deaf, ofPart, Pass.deliver_deaf]
    rfl
  · rfl
  · rfl

/-- A pass without a listener is the pass with one, but for its faults. -/
theorem Compiler.render_deaf (compiler : Compiler μ) (template : Template)
    (request : Request σ) (memory : μ) :
    compiler.render template { request with listening := false } memory =
      { compiler.render template { request with listening := true } memory
        with faults := [] } := by
  have hstart : compiler.start template { request with listening := false }
      memory = (compiler.start template { request with listening := true }
        memory).deaf := rfl
  have hrun := compiler.lockstep_deaf.run (.ofSource template.source) hstart
  rw [render, render, ← Report.ofPart_deaf]
  exact congrArg _ (Prod.ext hrun.ending.symm hrun.passes)

/-- Two passes that have done the same, whatever their scripts ended in. -/
structure Pass.Alike (left right : Pass μ σ) : Prop where
  host : left.host = right.host
  template : left.template = right.template
  afterComment : left.afterComment = right.afterComment
  journal : journal left.events = journal right.events

/-- Scripts that leave the same behind under a limit, and that both end or
both do not; one may fail where the other settles. -/
def Script.SameEffects (σ : Type) [Sink σ] (limit : Option Nat)
    (first second : Script μ) : Prop :=
  ∀ host : Host μ σ,
    (first.run limit 0 host).2 = (second.run limit 0 host).2 ∧
      ((first.run limit 0 host).1 = .stuck ↔
        (second.run limit 0 host).1 = .stuck)

theorem journal_concat {first second : List Event} {one other : Event}
    (hjournal : journal first = journal second)
    (heffect : one.effect = other.effect) :
    journal (first ++ [one]) = journal (second ++ [other]) := by
  simp only [journal, List.map_append, List.map_cons, List.map_nil] at *
  rw [hjournal, heffect]

/-- Passes stay alike when only the ends of scripts that leave the same behind
are told apart. -/
theorem Compiler.lockstep_alike (compiler : Compiler μ)
    (evaluator : Evaluator μ)
    (hsame : ∀ code view, Script.SameEffects σ compiler.config.scriptTimeoutMs
      (compiler.evaluator code view) (evaluator code view)) :
    compiler.Lockstep { compiler with evaluator := evaluator }
      (Pass.Alike : Pass μ σ → Pass μ σ → Prop) where
  stops halike := by rw [stopsAt, stopsAt, halike.host]
  ask occasion left right halike := by
    rw [ask_eq, ask_eq, halike.host]
    exact ⟨rfl, rfl, halike.template, halike.afterComment,
      journal_concat halike.journal rfl⟩
  literal text left right halike := by
    simp only [literal, Pass.note, halike.host, halike.afterComment]
    exact ⟨rfl, halike.template, rfl, journal_concat halike.journal rfl⟩
  script lexeme left right halike := by
    obtain ⟨hhost, hstuck⟩ := hsame
      (scriptBody compiler.config.stripScriptTags lexeme.text)
      ⟨right.template, lexeme.line, right.host.page.scope⟩ right.host
    rw [script_eq_perform, script_eq_perform,
      perform_evaluate _ _ _ _ left (Prod.eta _).symm,
      perform_evaluate _ _ _ _ right (Prod.eta _).symm, halike.host,
      halike.template]
    refine ⟨?_, hhost, rfl, halike.afterComment,
      journal_concat halike.journal rfl⟩
    simp only [hstuck]
  comment halike := ⟨halike.host, halike.template, rfl, halike.journal⟩

theorem Pass.host_deliver_congr {left right : Pass μ σ}
    (hhost : left.host = right.host) :
    left.deliver.host = right.deliver.host := by
  rw [deliver, deliver, hhost]
  split
  · exact hhost
  · split
    · rfl
    · rw [host_report, host_report]

/-- What can be seen of a pass, but for the ends of its scripts and the
faults. -/
structure Report.Alike (left right : Report μ σ) : Prop where
  outcome : left.outcome = right.outcome
  template : left.template = right.template
  sink : left.sink = right.sink
  memory : left.memory = right.memory
  journal : journal left.events = journal right.events

theorem Report.alike_ofPart (template : Template)
    {left right : Ending × Pass μ σ} (hparts : Together Pass.Alike left right) :
    (Report.ofPart template left).Alike (.ofPart template right) := by
  obtain ⟨ending, left⟩ := left
  obtain ⟨ending', right⟩ := right
  obtain ⟨hending, halike⟩ := hparts
  cases hending
  cases ending with
  | done =>
      have hhost := Pass.host_deliver_congr halike.host
      have hjournal : Stencil.journal left.deliver.events =
          Stencil.journal right.deliver.events := by
        rw [Pass.events_deliver, Pass.events_deliver]
        exact halike.journal
      simp only [ofPart, hhost]
      exact ⟨rfl, rfl, rfl, rfl, hjournal⟩
  | failed fault =>
      rw [ofPart, ofPart, halike.host]
      exact ⟨rfl, rfl, rfl, rfl, halike.journal⟩
  | stuck =>
      rw [ofPart, ofPart, halike.host]
      exact ⟨rfl, rfl, rfl, rfl, halike.journal⟩

theorem Compiler.render_alike (compiler : Compiler μ) (template : Template)
    (request : Request σ) (memory : μ) (evaluator : Evaluator μ)
    (hsame : ∀ code view, Script.SameEffects σ compiler.config.scriptTimeoutMs
      (compiler.evaluator code view) (evaluator code view)) :
    (compiler.render template request memory).Alike
      (Compiler.render { compiler with evaluator := evaluator } template
        request memory) :=
  Report.alike_ofPart template
    ((compiler.lockstep_alike evaluator hsame).run
      (.ofSource template.source) ⟨rfl, rfl, rfl, rfl⟩)

theorem Pass.faults_deliver (pass : Pass μ σ) :
    ∃ last : Option SinkError, pass.deliver.faults = pass.faults ++
      if pass.listening then (last.map Fault.sink).toList else [] := by
  rw [deliver]
  split
  · exact ⟨none, by simp⟩
  · split
    · exact ⟨none, by simp⟩
    · rename_i error _ _
      refine ⟨some error, ?_⟩
      rw [report]
      split
      · rfl
      · exact (List.append_nil _).symm

theorem Report.faults_ofPart (template : Template)
    (part : Ending × Pass μ σ) :
    ∃ last : Option SinkError,
      (Report.ofPart template part).faults = part.2.faults ++
        (if part.2.listening then (last.map Fault.sink).toList else []) ∧
      (last ≠ none → ∃ text,
        (Report.ofPart template part).outcome = .page text) := by
  rcases part with ⟨_ | fault | _, pass⟩
  · obtain ⟨last, hfaults⟩ := pass.faults_deliver
    exact ⟨last, hfaults, fun _ => ⟨_, rfl⟩⟩
  · exact ⟨none, by simp [ofPart], fun hlast => absurd rfl hlast⟩
  · exact ⟨none, by simp [ofPart], fun hlast => absurd rfl hlast⟩

theorem Event.isFatal_of_fault? {event : Event} {fault : Fault}
    (hfault : event.fault? = some fault) : fault.isFatal = false := by
  unfold fault? at hfault
  split at hfault
  · cases hfault
    rfl
  · cases hfault
    rfl
  · cases hfault
  · cases hfault
  · cases hfault
  · cases hfault

/-- The effect that a script span calls for. -/
def Config.evaluation (config : Config) (template : String)
    (lexeme : Lexeme) : Effect :=
  .evaluate (scriptBody config.stripScriptTags lexeme.text) lexeme.line
    template

theorem Config.filter_effects (config : Config) (template : String)
    (afterComment : Bool) (lexemes : List Lexeme) :
    (config.effects template afterComment lexemes).filter Effect.isScript =
      (lexemes.filter (·.token == .script)).map
        (config.evaluation template) := by
  induction lexemes generalizing afterComment with
  | nil => rfl
  | cons lexeme rest ih =>
      rw [effects, List.filter_append, ih, List.filter_cons]
      unfold effect?
      cases htoken : lexeme.token with
      | script => rfl
      | plain =>
          dsimp only
          split <;> rfl
      | eof | comment | expr | message | action | absAction | startTag
      | endTag => rfl

/-- How a pass deals with the faults that it recovers from, for those who
listen to it. -/
structure Compiler.Recovers (compiler : Compiler μ) (template : Template)
    (request : Request σ) (memory : μ) (report : Report μ σ) : Prop where
  /-- A script that did not settle is told of once, in its place; the sink
  comes last, and only with a page. -/
  faults : ∃ last : Option SinkError,
    report.faults = report.events.filterMap Event.fault? ++
      (last.map Fault.sink).toList ∧
    (last ≠ none → ∃ text, report.outcome = .page text)
  recovered : ∀ fault ∈ report.faults, fault.isFatal = false
  /-- The scripts that were evaluated are the first ones of the source. -/
  scripts : (journal report.events).filter Effect.isScript <+:
    ((Lexer.ofSource template.source).drain.filter
      (·.token == .script)).map (compiler.config.evaluation template.name)
  lines : ∀ lexeme ∈ (Lexer.ofSource template.source).drain, lexeme.line =
    1 + lineBreaks (slice template.source ⟨0, lexeme.span.start⟩)
  limits : ∀ code line name limit,
    .script code line name (.overdue limit) ∈ report.events →
    compiler.config.scriptTimeoutMs = some limit
  /-- What is told of a script is how it ended; what it did before that stays
  done, and unless it never ends the pass goes on from there. -/
  evaluated : ∀ earlier code line name ending later,
    report.events = earlier ++ .script code line name ending :: later →
    ∃ before host,
      compiler.follow (journal earlier)
        (compiler.start template { request with listening := true } memory) =
          (.done, before) ∧
      (compiler.evaluator code ⟨name, line, before.host.page.scope⟩).run
        compiler.config.scriptTimeoutMs 0 before.host = (ending, host) ∧
      host.page = before.host.page.applyAll
        ((compiler.evaluator code
          ⟨name, line, before.host.page.scope⟩).pageOps
            compiler.config.scriptTimeoutMs 0 before.host) ∧
      (ending ≠ .stuck → ∃ after,
        compiler.follow (journal earlier ++ [.evaluate code line name])
          (compiler.start template { request with listening := true }
            memory) = (.done, after) ∧
        after.host = host)
  /-- Scripts that settle instead and do the same change nothing else. -/
  goesOn : ∀ evaluator : Evaluator μ,
    (∀ code view, Script.SameEffects σ compiler.config.scriptTimeoutMs
      (compiler.evaluator code view) (evaluator code view)) →
    report.Alike
      (Compiler.render { compiler with evaluator := evaluator } template
        { request with listening := true } memory)
  silent :
    compiler.render template { request with listening := false } memory =
      { report with faults := [] }

theorem Compiler.scripts_of_takes (compiler : Compiler μ) {name : String}
    {lexemes : List Lexeme} {start : Pass μ σ} {taken done : List Effect}
    (htakes : compiler.Takes start
      (.ask .head :: compiler.config.effects name false lexemes)
      (.ask .head :: taken))
    (hdone : done <+: between taken) :
    done.filter Effect.isScript <+:
      (lexemes.filter (·.token == .script)).map
        (compiler.config.evaluation name) := by
  have hbetween : (between taken).filter Effect.isScript =
      taken.filter Effect.isScript := by
    simp [between, Effect.isScript]
  rw [← compiler.config.filter_effects name false lexemes]
  exact (hbetween ▸ hdone.filter Effect.isScript).trans
    (htakes.isPrefix_of_cons.filter _)

theorem Compiler.follow_script (compiler : Compiler μ)
    {effects : List Effect} {pass : Pass μ σ} {earlier later : List Event}
    {code name : String} {line : Nat} {ending : ScriptEnd}
    (hevents : (compiler.follow effects pass).2.events =
      pass.events ++ (earlier ++ .script code line name ending :: later)) :
    ∃ before host, compiler.follow (journal earlier) pass = (.done, before) ∧
      (compiler.evaluator code ⟨name, line, before.host.page.scope⟩).run
        compiler.config.scriptTimeoutMs 0 before.host = (ending, host) ∧
      (ending ≠ .stuck → ∃ after,
        compiler.follow (journal earlier ++ [.evaluate code line name])
          pass = (.done, after) ∧ after.host = host) := by
  obtain ⟨before, hbefore, hevent⟩ := compiler.follow_event hevents
  have hperform := compiler.perform_evaluate code line name before
    (Prod.eta _).symm
  generalize hrun : (compiler.evaluator code
    ⟨name, line, before.host.page.scope⟩).run
      compiler.config.scriptTimeoutMs 0 before.host = run at hperform
  obtain ⟨found, host⟩ := run
  have hfound : found = ending := by
    rw [Event.effect, hperform] at hevent
    simpa using hevent
  subst hfound
  refine ⟨before, host, hbefore, hrun, ?_⟩
  intro hends
  rw [follow_append, hbefore, andThen_done, follow_singleton, hperform,
    if_neg hends]
  exact ⟨_, rfl, rfl⟩

/-- What is reported of a pass in its journal and its faults. -/
theorem Compiler.render_noted (compiler : Compiler μ) (template : Template)
    (request : Request σ) (memory : μ) {report : Report μ σ}
    (hrender : compiler.render template request memory = report) :
    ∃ taken,
      compiler.Takes (compiler.start template request memory)
        (.ask .head :: compiler.config.effects template.name false
          (Lexer.ofSource template.source).drain)
        (.ask .head :: taken) ∧
      (compiler.follow (between taken)
        (compiler.start template request memory)).2.events = report.events ∧
      journal report.events <+: between taken ∧
      ∃ last : Option SinkError,
        report.faults =
          (if request.listening then
            report.events.filterMap Event.fault? ++
              (last.map Fault.sink).toList
          else []) ∧
        (last ≠ none → ∃ text, report.outcome = .page text) := by
  obtain ⟨taken, htakes, hreport⟩ :=
    compiler.render_follow template request memory
  obtain ⟨events, hjournal, hlistening, hevents, hfaults⟩ :=
    compiler.follow_noted (between taken)
      (compiler.start template request memory)
  obtain ⟨last, htold, hlast⟩ := Report.faults_ofPart template
    (compiler.follow (between taken)
      (compiler.start template request memory))
  have hnoted : report.events = (compiler.follow (between taken)
      (compiler.start template request memory)).2.events := by
    rw [← hrender, hreport, Report.events_ofPart]
  have hsame : report.events = events := by
    rw [hnoted, hevents]
    rfl
  rw [← hreport, hrender] at htold hlast
  refine ⟨taken, htakes, hnoted.symm, hsame ▸ hjournal, last, ?_, hlast⟩
  have hlistens : (compiler.start template request memory).listening =
      request.listening := rfl
  have hnothing : (compiler.start template request memory).faults = [] := rfl
  rw [htold, hlistening, hfaults, hsame, hlistens, hnothing, List.nil_append]
  cases request.listening with
  | true => rfl
  | false => rfl

/-- No fault that a pass recovers from is lost, told of twice or out of
order. -/
theorem Compiler.render_recovers (compiler : Compiler μ)
    (template : Template) (request : Request σ) (memory : μ) :
    compiler.Recovers template request memory
      (compiler.render template { request with listening := true }
        memory) := by
  generalize hrender :
    compiler.render template { request with listening := true } memory = report
  obtain ⟨taken, htakes, hevents, hjournal, last, hfaults, hlast⟩ :=
    compiler.render_noted template _ memory hrender
  rw [if_pos rfl] at hfaults
  have hscript : ∀ earlier code line name ending later,
      report.events = earlier ++ .script code line name ending :: later → _ :=
    fun earlier code line name ending later hsplit =>
      compiler.follow_script (hevents.trans hsplit)
  refine
    { faults := ⟨last, hfaults, hlast⟩
      recovered := ?_
      scripts := compiler.scripts_of_takes htakes hjournal
      lines := fun lexeme hlexeme => Lexer.line_of_mem_drain hlexeme
      limits := ?_
      evaluated := ?_
      goesOn := ?_
      silent := ?_ }
  · intro fault hfault
    rw [hfaults] at hfault
    rcases List.mem_append.mp hfault with hscripts | hsink
    · obtain ⟨event, _, hevent⟩ := List.mem_filterMap.mp hscripts
      exact Event.isFatal_of_fault? hevent
    · obtain ⟨error, _, rfl⟩ := Option.map_eq_some_iff.mp
        (Option.mem_toList.mp hsink)
      rfl
  · intro code line name limit hmem
    obtain ⟨earlier, later, hsplit⟩ := List.append_of_mem hmem
    obtain ⟨before, host, _, hrun, _⟩ :=
      hscript earlier code line name (.overdue limit) later hsplit
    exact Script.limit_of_overdue (congrArg Prod.fst hrun)
  · intro earlier code line name ending later hsplit
    obtain ⟨before, host, hbefore, hrun, hgoes⟩ :=
      hscript earlier code line name ending later hsplit
    refine ⟨before, host, hbefore, hrun, ?_, hgoes⟩
    rw [← Script.page_run, hrun]
  · rw [← hrender]
    exact compiler.render_alike template _ memory
  · rw [← hrender]
    exact compiler.render_deaf template request memory

namespace RecoveredFaultsWitness

/-- Every script writes itself; then `f` fails, and `s` waits too long. -/
def evaluator : Evaluator Unit := fun code _ =>
  .append code
    (if code = "f" then .fail (.message "no")
    else if code = "s" then .wait 6 .done
    else .done)

def compiler : Compiler Unit where
  evaluator := evaluator
  config := { scriptTimeoutMs := some 5 }

/-- The same scripts, but all of them settle at once. -/
def settling : Evaluator Unit := fun code _ => .append code .done

def template : Template :=
  .named ⟨"", 0⟩ "page" "a\n%\x7bf\x7d%%\x7bs\x7d%\n%\x7bz\x7d%"

/-- The sink does not hold the page. -/
def request : Request BoundedSink where
  sink := some ⟨[], false, some 2, none, none⟩

def report : Report Unit BoundedSink := compiler.render template request ()

theorem sameEffects (code : String) (view : ScriptView) :
    Script.SameEffects BoundedSink (some 5) (evaluator code view)
      (settling code view) := by
  intro host
  simp only [evaluator, settling, Script.run]
  split
  · simp [Script.run]
  · split
    · simp [Script.run]
    · simp [Script.run]

theorem told :
    report.outcome = .page "a\nfs\nz" ∧
    report.faults =
      [.evaluation "page" 2 (.message "no"), .timeout 2 5, .sink .full] ∧
    (compiler.render template { request with listening := false } ()).outcome =
      .page "a\nfs\nz" ∧
    (Compiler.render { compiler with evaluator := settling } template request
      ()).outcome = .page "a\nfs\nz" := by
  have houtcome : report.outcome = .page "a\nfs\nz" := by decide +kernel
  have hrecovers := compiler.render_recovers template request ()
  refine ⟨houtcome, by decide +kernel, ?_, ?_⟩
  · rw [hrecovers.silent]
    exact houtcome
  · exact (hrecovers.goesOn settling sameEffects).outcome.symm.trans houtcome

end RecoveredFaultsWitness

end Stencil
