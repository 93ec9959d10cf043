/-
The faults that end a pass.  They are those of the dialect, passed on as they
are: neither a script nor the sink ends a pass, but a handler may give a fault
of any kind, and then the pass fails with it.
-/
import Stencil.BoundedSink
import Stencil.Proofs.Journal
import Stencil.Proofs.PassFold

namespace Stencil

variable {μ σ : Type}

/-- A handler all of whose faults are meant to end a pass. -/
def Handler.FailsFatally : Handler μ → Prop
  | .done => True
  | .fail fault => fault.isFatal = true
  | .act _ next => ∀ reply, (next reply).FailsFatally
  | .look next => ∀ view, (next view).FailsFatally
  | .recall next => ∀ memory, (next memory).FailsFatally
  | .remember _ next => next.FailsFatally

def Dialect.FailsFatally (dialect : Dialect μ) : Prop :=
  ∀ occasion, (dialect.handler occasion).FailsFatally

theorem Handler.FailsFatally.isFatal {handler : Handler μ}
    (hfatal : handler.FailsFatally) {host : Host μ σ} {fault : Fault}
    (hrun : (handler.run host).1 = .error fault) : fault.isFatal = true := by
  induction handler generalizing host with
  | done => cases hrun
  | fail given =>
      cases hrun
      exact hfatal
  | act op next ih => exact ih _ (hfatal _) hrun
  | look next ih => exact ih _ (hfatal _) hrun
  | «recall» next ih => exact ih _ (hfatal _) hrun
  | remember memory next ih => exact ih hfatal hrun

variable [Sink σ]

/-- The occasion that a pass asked about last gave the fault: all went well up
to there, and then its handler failed. -/
def Compiler.LastGives (compiler : Compiler μ) (start : Pass μ σ)
    (events : List Event) (fault : Fault) : Prop :=
  ∃ earlier occasion pass,
    journal events = earlier ++ [.ask occasion] ∧
    compiler.follow earlier start = (.done, pass) ∧
    ((compiler.dialect.handler occasion).run pass.host).1 = .error fault

theorem Compiler.follow_failed_of_lastGives {compiler : Compiler μ}
    {effects : List Effect} {start : Pass μ σ} {events : List Event}
    {fault : Fault} (hjournal : journal events <+: effects)
    (hlast : compiler.LastGives start events fault) :
    (compiler.follow effects start).1 = .failed fault := by
  obtain ⟨earlier, occasion, pass, hasked, hreached, hrun⟩ := hlast
  obtain ⟨rest, rfl⟩ := hjournal
  rw [hasked, List.append_assoc]
  exact (follow_of_failed hreached (perform_of_error hrun) rest).1

theorem Compiler.render_failed_iff (compiler : Compiler μ)
    (template : Template) (request : Request σ) (memory : μ)
    (fault : Fault) :
    (compiler.render template request memory).outcome = .failed fault ↔
      compiler.LastGives (compiler.start template request memory)
        (compiler.render template request memory).events fault := by
  constructor
  · intro hfailed
    obtain ⟨taken, htakes, hreport⟩ :=
      compiler.render_follow template request memory
    obtain ⟨earlier, occasion, _, pass, _, hreached, hrun, hjournal⟩ :=
      (follows_of_report htakes hreport).failed fault hfailed
    exact ⟨earlier, occasion, pass, hjournal, hreached, hrun⟩
  · intro hlast
    obtain ⟨taken, _, hreport⟩ :=
      compiler.render_follow template request memory
    obtain ⟨events, hjournal, _, hevents, _⟩ :=
      compiler.follow_noted (between taken)
        (compiler.start template request memory)
    rw [hreport, Report.events_ofPart, hevents] at hlast
    rw [hreport, Report.outcome_eq_failed_iff]
    exact follow_failed_of_lastGives hjournal hlast

/-- A pass fails exactly with what the occasion gives that it asked about
last, whatever the kind of that fault; so where all faults of the handlers are
meant to end a pass, only such faults do. -/
theorem Compiler.fails_as_asked (compiler : Compiler μ) (template : Template)
    (request : Request σ) (memory : μ) (fault : Fault) :
    ((compiler.render template request memory).outcome = .failed fault ↔
      compiler.LastGives (compiler.start template request memory)
        (compiler.render template request memory).events fault) ∧
    (compiler.dialect.FailsFatally →
      (compiler.render template request memory).outcome = .failed fault →
      fault.isFatal = true) := by
  have hiff := compiler.render_failed_iff template request memory fault
  refine ⟨hiff, ?_⟩
  intro hfatal hfailed
  obtain ⟨_, occasion, _, _, _, hrun⟩ := hiff.mp hfailed
  exact (hfatal occasion).isFatal hrun

namespace FatalFaultsWitness

/-- Expressions are printed and then rejected; there are no other handlers. -/
def rejecting : Compiler Unit where
  evaluator _ _ := .fail (.message "no")
  dialect :=
    { expr := fun directive =>
        .act (.print directive.text) fun _ => .fail (directive.fail "no") }

theorem failsFatally : rejecting.dialect.FailsFatally := by
  intro occasion
  cases occasion with
  | head | finish => trivial
  | expr directive =>
      intro reply
      exact directive.isFatal_fail "no"
  | message directive | action directive | startTag directive
  | endTag directive => exact directive.isFatal_unimplemented

def template : Template := .named ⟨"", 0⟩ "page" "%\x7bs\x7d%$\x7bx\x7d"

theorem rejected :
    ∃ fault, (rejecting.render template ({} : Request BoundedSink)
        ()).outcome = .failed fault ∧
      fault.isFatal = true ∧
      rejecting.LastGives
        (rejecting.start template ({} : Request BoundedSink) ())
        (rejecting.render template ({} : Request BoundedSink) ()).events
        fault := by
  have houtcome : (rejecting.render template ({} : Request BoundedSink)
      ()).outcome = .failed (.directive .expr 1 "no") := by decide +kernel
  obtain ⟨hiff, hfatal⟩ := rejecting.fails_as_asked template
    ({} : Request BoundedSink) () (.directive .expr 1 "no")
  exact ⟨_, houtcome, hfatal failsFatally houtcome, hiff.mp houtcome⟩

/-- A handler that gives up on its expression as if on a script. -/
def waiting : Compiler Unit where
  evaluator _ _ := .done
  dialect := { expr := fun directive => .fail (.timeout directive.line 5) }

/-- A fault that is to be recovered from ends a pass if a handler gives it. -/
theorem timeout_ends_pass :
    ¬ ∀ (compiler : Compiler Unit) (template : Template)
      (request : Request BoundedSink) (fault : Fault),
      (compiler.render template request ()).outcome = .failed fault →
      fault.isFatal = true := by
  intro hclaim
  have hfatal := hclaim waiting
    (.named ⟨"", 0⟩ "page" "a$\x7bx\x7db") {} (.timeout 1 5)
    (by decide +kernel)
  cases hfatal

end FatalFaultsWitness

end Stencil
