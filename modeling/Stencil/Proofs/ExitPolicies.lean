/-
Both policies give the same page.  From the exit on, the pass that scans to
the end works on a frozen page, so it ends with the page that the pass that
stops there has.
-/
import Stencil.BoundedSink
import Stencil.Proofs.Frozen
import Stencil.Proofs.Journal
import Stencil.Proofs.PassFold
import Stencil.Proofs.SinkRuns

namespace Stencil

variable {μ σ : Type}

/-- A compiler under another policy. -/
def Compiler.withPolicy (compiler : Compiler μ) (policy : ExitPolicy) :
    Compiler μ :=
  { compiler with config := { compiler.config with exitPolicy := policy } }

/-- A dialect that never prints by force on a page that there can be, and
whose last hook never fails on one. -/
structure Dialect.Tame (dialect : Dialect μ) (σ : Type) : Prop where
  unforced : ∀ occasion (host : Host μ σ), host.page.Reachable →
    ∀ text, .printForced text ∉ (dialect.handler occasion).pageOps host
  ends : ∀ host : Host μ σ, host.page.Reachable →
    (dialect.finish.run host).1 = .ok ()

/-- A host without a sink, on a page that operations have made. -/
structure Host.Sinkless (host : Host μ σ) : Prop where
  reachable : host.page.Reachable
  sink : host.sink = none

/-- Such a host with this output and this table, after a requested exit. -/
structure Host.Halted (host : Host μ σ) (output : String)
    (lineMap : List Nat) : Prop extends host.Sinkless where
  exiting : host.page.exiting = true
  output : host.page.output = output
  lineMap : host.page.lineMap = lineMap

/-- A pass that was cut short by an exit, beside the whole one. -/
structure Report.CutShort (cut whole : Report μ σ) : Prop where
  outcome : cut.outcome = whole.outcome
  template : cut.template = whole.template
  calls : calls cut.events <+: calls whole.events
  faults : cut.faults <+: whole.faults

theorem Compiler.reachable_start (compiler : Compiler μ)
    (template : Template) (request : Request σ) (memory : μ) :
    (compiler.start template request memory).host.page.Reachable :=
  ⟨compiler.scope, compiler.config.lineMarker, [], rfl⟩

theorem Compiler.sinkless_start (compiler : Compiler μ)
    (template : Template) {request : Request σ} (memory : μ)
    (hsink : request.sink = none) :
    (compiler.start template request memory).host.Sinkless where
  reachable := compiler.reachable_start template request memory
  sink := hsink

variable [Sink σ] {output : String} {lineMap : List Nat}

/-- The page operations that one effect does, in order. -/
def Compiler.pageOps (compiler : Compiler μ) (effect : Effect)
    (host : Host μ σ) : List PageOp :=
  match effect with
  | .literal text => [.plain text]
  | .evaluate code line template =>
      (compiler.evaluator code ⟨template, line, host.page.scope⟩).pageOps
        compiler.config.scriptTimeoutMs 0 host
  | .ask occasion => (compiler.dialect.handler occasion).pageOps host

theorem Compiler.page_perform (compiler : Compiler μ) (effect : Effect)
    (pass : Pass μ σ) :
    (compiler.perform effect pass).2.host.page =
      pass.host.page.applyAll (compiler.pageOps effect pass.host) := by
  cases effect with
  | literal text => rfl
  | evaluate code line template =>
      rw [compiler.perform_evaluate code line template pass (Prod.eta _).symm]
      exact Script.page_run _ _ 0 pass.host
  | ask occasion =>
      rw [perform_ask, host_ask]
      exact Handler.page_run _ pass.host

theorem Compiler.sink_perform_of_none (compiler : Compiler μ)
    (effect : Effect) {pass : Pass μ σ} (hsink : pass.host.sink = none) :
    (compiler.perform effect pass).2.host.sink = none := by
  rw [compiler.sink_perform, hsink]
  rfl

theorem Dialect.Tame.unforced_pageOps {compiler : Compiler μ}
    (htame : compiler.dialect.Tame σ) (effect : Effect) {host : Host μ σ}
    (hreachable : host.page.Reachable) (text : String) :
    .printForced text ∉ compiler.pageOps effect host := by
  cases effect with
  | literal _ => simp [Compiler.pageOps]
  | evaluate code line template =>
      exact Script.printForced_not_mem_pageOps _ _ 0 host text
  | ask occasion => exact htame.unforced occasion host hreachable text

theorem Host.Sinkless.perform (compiler : Compiler μ) (effect : Effect)
    (pass : Pass μ σ) (hsinkless : pass.host.Sinkless) :
    (compiler.perform effect pass).2.host.Sinkless where
  reachable := by
    rw [compiler.page_perform]
    exact hsinkless.reachable.applyAll _
  sink := compiler.sink_perform_of_none effect hsinkless.sink

/-- No effect moves a page that is halted. -/
theorem Host.Halted.perform {compiler : Compiler μ}
    (htame : compiler.dialect.Tame σ) (effect : Effect) (pass : Pass μ σ)
    (hhalted : pass.host.Halted output lineMap) :
    (compiler.perform effect pass).2.host.Halted output lineMap := by
  have hpage := compiler.page_perform effect pass
  rw [Page.applyAll_of_exiting hhalted.exiting, forcedText_eq_empty
    (htame.unforced_pageOps effect hhalted.reachable), Page.push_empty]
    at hpage
  refine ⟨hhalted.toSinkless.perform compiler effect pass, ?_, ?_, ?_⟩
  · rw [hpage]
    exact hhalted.exiting
  · rw [hpage]
    exact hhalted.output
  · rw [hpage]
    exact hhalted.lineMap

theorem Report.ofPart_done (template : Template) {pass : Pass μ σ}
    (hsink : pass.host.sink = none) :
    Report.ofPart template (.done, pass) =
      { outcome := .page pass.host.page.output
        template := template.withPage pass.host.page
        faults := pass.faults
        events := pass.events
        sink := pass.host.sink
        memory := pass.host.memory } := by
  have hdeliver : pass.deliver = pass := by rw [Pass.deliver, hsink]
  rw [ofPart, hdeliver]

theorem Report.cutShort_of_halted (template : Template)
    {last final : Pass μ σ} (hlast : last.host.Halted output lineMap)
    (hfinal : final.host.Halted output lineMap)
    (hcalls : Stencil.calls last.events <+: Stencil.calls final.events)
    (hfaults : last.faults <+: final.faults) :
    (Report.ofPart template (.done, last)).CutShort
      (.ofPart template (.done, final)) := by
  rw [ofPart_done template hlast.sink, ofPart_done template hfinal.sink]
  refine ⟨?_, ?_, hcalls, hfaults⟩
  · exact congrArg Outcome.page (hlast.output.trans hfinal.output.symm)
  · simp only [Template.withPage, hlast.output, hlast.lineMap, hfinal.output,
      hfinal.lineMap]

/-- The last hook of a tame dialect ends well, and calls for nothing. -/
theorem Compiler.follow_finish (compiler : Compiler μ)
    (htame : compiler.dialect.Tame σ) {mid : Pass μ σ}
    (hreachable : mid.host.page.Reachable) :
    ∃ last, compiler.follow [.ask .finish] mid = (.done, last) ∧
      Stencil.calls last.events = Stencil.calls mid.events ∧
      last.faults = mid.faults := by
  have hends : (compiler.follow [.ask .finish] mid).1 = .done := by
    have hok := htame.ends mid.host hreachable
    rw [follow_singleton, perform_ask, ask_eq]
    exact (Ending.ofResult_eq_done_iff _).mpr hok
  obtain ⟨events, hjournal, _, hevents, hfaults⟩ :=
    compiler.follow_noted [.ask .finish] mid
  obtain ⟨hcalls, hnone⟩ := @calls_eq_nil events fun event hevent => by
    have hask := hjournal.subset (List.mem_map_of_mem hevent)
    rw [List.mem_singleton.mp hask]
    rfl
  refine ⟨_, Prod.ext hends rfl, ?_, ?_⟩
  · rw [hevents, calls_append, hcalls, List.append_nil]
  · rw [hfaults, hnone, ite_self, List.append_nil]

/-- After the exit, the last hook ends the pass that stops there as the rest of
the source and that hook end the other. -/
theorem Compiler.follow_cutShort (compiler : Compiler μ)
    (htame : compiler.dialect.Tame σ) (template : Template)
    (rest : List Effect) {mid final : Pass μ σ}
    (hhalted : mid.host.Halted output lineMap)
    (hfinal : compiler.follow (rest ++ [.ask .finish]) mid =
      (.done, final)) :
    (Report.ofPart template (compiler.follow [.ask .finish] mid)).CutShort
      (.ofPart template (.done, final)) := by
  have hkeeps := fun effects => follow_keeps
    (fun effect pass => Host.Halted.perform htame effect pass) effects hhalted
  obtain ⟨last, hlast, hcalls, hfaults⟩ :=
    compiler.follow_finish htame hhalted.reachable
  obtain ⟨events, _, _, hevents, hmore⟩ :=
    compiler.follow_noted (rest ++ [.ask .finish]) mid
  have hended := hkeeps [.ask .finish]
  have hwhole := hkeeps (rest ++ [.ask .finish])
  rw [hlast] at hended
  rw [hfinal] at hwhole hevents hmore
  rw [hlast]
  refine Report.cutShort_of_halted template hended hwhole ?_ ?_
  · rw [hcalls, hevents, calls_append]
    exact List.prefix_append _ _
  · rw [hfaults, hmore]
    exact List.prefix_append _ _

/-- The policy is not looked at where effects are had. -/
theorem Compiler.follow_withPolicy (compiler : Compiler μ)
    (policy : ExitPolicy) (effects : List Effect) (start : Pass μ σ) :
    (compiler.withPolicy policy).follow effects start =
      compiler.follow effects start := by
  have hperform : ∀ (effect : Effect) (pass : Pass μ σ),
      (compiler.withPolicy policy).perform effect pass =
        compiler.perform effect pass := by
    intro effect pass
    cases effect with
    | literal | evaluate | ask => rfl
  induction effects generalizing start with
  | nil => rfl
  | cons effect rest ih =>
      rw [follow_cons, follow_cons, hperform]
      exact congrArg _ (funext ih)

/-- Under the policy that scans to the end nothing is left out. -/
theorem Compiler.takes_all {compiler : Compiler μ} {start : Pass μ σ}
    {effects taken : List Effect}
    (htakes : (compiler.withPolicy .suppressOutput).Takes start effects
      taken) : taken = effects := by
  obtain ⟨rest, rfl, hexits⟩ := htakes.split
  cases rest with
  | nil => exact (List.append_nil taken).symm
  | cons effect rest =>
      obtain ⟨pass, _, hpolicy, _⟩ := hexits (List.cons_ne_nil effect rest)
      cases hpolicy

/-- Under the policy that stops the scan nothing is left out either, or an
exit was requested before what is. -/
theorem Compiler.takes_until {compiler : Compiler μ} {start : Pass μ σ}
    {effects taken : List Effect}
    (htakes : (compiler.withPolicy .abortScan).Takes start effects taken) :
    taken = effects ∨ ∃ rest mid, effects = taken ++ rest ∧
      compiler.follow taken start = (.done, mid) ∧
      mid.host.page.exiting = true := by
  obtain ⟨rest, rfl, hexits⟩ := htakes.split
  cases rest with
  | nil => exact Or.inl (List.append_nil taken).symm
  | cons effect rest =>
      obtain ⟨mid, hmid, _, hexiting⟩ := hexits (List.cons_ne_nil effect rest)
      rw [follow_withPolicy] at hmid
      exact Or.inr ⟨effect :: rest, mid, rfl, hmid, hexiting⟩

/-- The policy is not looked at for what a source calls for. -/
theorem Compiler.effects_withPolicy (compiler : Compiler μ)
    (policy : ExitPolicy) (name : String) (afterComment : Bool)
    (lexemes : List Lexeme) :
    (compiler.withPolicy policy).config.effects name afterComment lexemes =
      compiler.config.effects name afterComment lexemes := by
  induction lexemes generalizing afterComment with
  | nil => rfl
  | cons lexeme rest ih =>
      rw [Config.effects, Config.effects, ih]
      rfl

/-- The two passes as the effects that they have: the one that scans to the
end has all of them, the other those up to an exit. -/
theorem Compiler.render_withPolicy (compiler : Compiler μ)
    (template : Template) (request : Request σ) (memory : μ) :
    ∃ taken rest,
      (compiler.withPolicy .suppressOutput).render template request memory =
        .ofPart template (compiler.follow (between (taken ++ rest))
          (compiler.start template request memory)) ∧
      (compiler.withPolicy .abortScan).render template request memory =
        .ofPart template (compiler.follow (between taken)
          (compiler.start template request memory)) ∧
      (rest = [] ∨ ∃ mid,
        compiler.follow (.ask .head :: taken)
          (compiler.start template request memory) = (.done, mid) ∧
        mid.host.page.exiting = true) := by
  obtain ⟨all, hall, hwhole⟩ := (compiler.withPolicy
    .suppressOutput).render_follow template request memory
  obtain ⟨taken, htakes, hcut⟩ := (compiler.withPolicy
    .abortScan).render_follow template request memory
  have hsource : all = compiler.config.effects template.name false
      (Lexer.ofSource template.source).drain := by
    rw [effects_withPolicy] at hall
    exact (List.cons.inj (takes_all hall)).2
  rw [effects_withPolicy] at htakes
  rw [follow_withPolicy] at hwhole hcut
  rcases takes_until htakes with hsame | ⟨rest, mid, hsplit, hmid, hexiting⟩
  · have htaken : taken = all :=
      (List.cons.inj hsame).2.trans hsource.symm
    refine ⟨taken, [], ?_, hcut, Or.inl rfl⟩
    rw [List.append_nil, htaken]
    exact hwhole
  · have htaken : all = taken ++ rest :=
      hsource.trans (List.cons.inj hsplit).2
    refine ⟨taken, rest, ?_, hcut, Or.inr ⟨mid, hmid, hexiting⟩⟩
    rw [← htaken]
    exact hwhole

/-- Where both passes have the same effects up to an exit, the one that stops
there is the other one cut short. -/
theorem Compiler.cutShort_of_exit (compiler : Compiler μ)
    (htame : compiler.dialect.Tame σ) (template : Template)
    {start mid : Pass μ σ} {taken rest : List Effect} {text : String}
    (hstart : start.host.Sinkless)
    (hmid : compiler.follow (.ask .head :: taken) start = (.done, mid))
    (hexiting : mid.host.page.exiting = true)
    (hpage : (Report.ofPart template
      (compiler.follow (between (taken ++ rest)) start)).outcome =
        .page text) :
    (Report.ofPart template (compiler.follow (between taken) start)).CutShort
      (.ofPart template
        (compiler.follow (between (taken ++ rest)) start)) := by
  have hsinkless : mid.host.Sinkless := by
    have hkept := follow_keeps (Host.Sinkless.perform compiler)
      (.ask .head :: taken) hstart
    rw [hmid] at hkept
    exact hkept
  have hreach : ∀ further,
      compiler.follow ((.ask .head :: taken) ++ further) start =
        compiler.follow further mid := by
    intro further
    rw [follow_append, hmid, andThen_done]
  have hshort : between taken =
      (.ask .head :: taken) ++ [.ask .finish] := rfl
  have hlong : between (taken ++ rest) =
      (.ask .head :: taken) ++ (rest ++ [.ask .finish]) := by
    simp [between]
  rw [hlong, hreach] at hpage
  rw [hshort, hlong, hreach, hreach]
  have hdone : (compiler.follow (rest ++ [.ask .finish]) mid).1 = .done := by
    rw [Report.ending_of_outcome template, hpage]
  obtain ⟨final, hfinal⟩ := exists_of_done hdone
  rw [hfinal]
  exact compiler.follow_cutShort htame template rest
    ⟨hsinkless, hexiting, rfl, rfl⟩ hfinal

/-- Wherever scanning to the end gives a page, stopping at the exit gives the
same page and the same table, with the first calls and faults only. -/
theorem Compiler.abortScan_cutShort (compiler : Compiler μ)
    (template : Template) (request : Request σ) (memory : μ)
    (htame : compiler.dialect.Tame σ) (hsink : request.sink = none)
    {text : String}
    (hpage : ((compiler.withPolicy .suppressOutput).render template request
      memory).outcome = .page text) :
    ((compiler.withPolicy .abortScan).render template request
        memory).outcome = .page text ∧
      ((compiler.withPolicy .abortScan).render template request
        memory).CutShort
          ((compiler.withPolicy .suppressOutput).render template request
            memory) := by
  obtain ⟨taken, rest, hwhole, hcut, hrest⟩ :=
    compiler.render_withPolicy template request memory
  have hcutShort : ((compiler.withPolicy .abortScan).render template request
      memory).CutShort ((compiler.withPolicy .suppressOutput).render template
        request memory) := by
    rw [hwhole] at hpage
    rw [hcut, hwhole]
    rcases hrest with rfl | ⟨mid, hmid, hexiting⟩
    · rw [List.append_nil]
      exact ⟨rfl, rfl, List.prefix_rfl, List.prefix_rfl⟩
    · exact compiler.cutShort_of_exit htame template
        (compiler.sinkless_start template memory hsink) hmid hexiting hpage
  exact ⟨hcutShort.outcome.trans hpage, hcutShort⟩

namespace ExitPoliciesWitness

/-- Every script writes itself; then `q` requests an exit, and all others
fail. -/
def evaluator : Evaluator Unit := fun code _ =>
  .append code (if code = "q" then .requestExit .done
    else .fail (.message "no"))

/-- An expression is marked and printed, a message clears the page, and
another line follows the last span. -/
def compiler : Compiler Unit where
  evaluator := evaluator
  dialect :=
    { expr := fun directive =>
        .act (.markLine directive.line) fun _ =>
          .act (.println directive.text) fun _ => .done
      message := fun _ => .act .clear fun _ => .done
      finish := .act (.println "end") fun _ => .done }

def template : Template :=
  .named ⟨"", 0⟩ "page"
    "$\x7bx\x7d%\x7bf\x7d%%\x7bq\x7d%\n$\x7by\x7d&\x7bm\x7d%\x7bg\x7d%"

theorem tame : compiler.dialect.Tame BoundedSink where
  unforced occasion host _ text := by
    cases occasion with
    | head | expr | message | action | startTag | endTag | finish =>
        simp [compiler, Dialect.handler, Handler.pageOps,
          Directive.unimplemented]
  ends host _ := rfl

def whole : Report Unit BoundedSink :=
  (compiler.withPolicy .suppressOutput).render template {} ()

def cut : Report Unit BoundedSink :=
  (compiler.withPolicy .abortScan).render template {} ()

theorem same_page :
    whole.outcome = .page "// line 1x\nfq" ∧
    cut.outcome = .page "// line 1x\nfq" ∧
    cut.template.lineMap = whole.template.lineMap ∧
    whole.faults = [.evaluation "page" 1 (.message "no"),
      .evaluation "page" 2 (.message "no")] ∧
    cut.faults <+: whole.faults := by
  have houtcome : whole.outcome = .page "// line 1x\nfq" := by decide +kernel
  obtain ⟨hpage, hcutShort⟩ :=
    compiler.abortScan_cutShort template {} () tame rfl houtcome
  refine ⟨houtcome, hpage, ?_, by decide +kernel, hcutShort.faults⟩
  exact congrArg Template.lineMap hcutShort.template

end ExitPoliciesWitness

end Stencil
