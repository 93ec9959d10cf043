/-
Time does not show.  A limit cuts a script off by what that script waits in
all, whatever was waited before; a script that is not cut off does what it
does without its waits.  So where nothing is cut off, neither the waits nor
the limit can be told from a pass, and the page is what the spans do to it in
the order of the source.
-/
import Stencil.Proofs.ExitPolicies
import Stencil.Proofs.Taking

namespace Stencil

/-- Whether a limit cut a script off. -/
def ScriptEnd.isOverdue : ScriptEnd → Bool
  | .overdue _ => true
  | .settled | .failed _ | .stuck => false

def Event.isCutOff : Event → Bool
  | .script _ _ _ ending => ending.isOverdue
  | .literal _ | .asked _ => false

/-- Events among which no script was cut off. -/
def Uncut (events : List Event) : Prop :=
  ∀ event ∈ events, event.isCutOff = false

/-- A limit that cuts off no script that the other one does not. -/
def NoShorter (limit other : Option Nat) : Prop :=
  ∀ most, limit = some most → ∃ less, other = some less ∧ less ≤ most

theorem Uncut.mono {events more : List Event} (huncut : Uncut more)
    (hbefore : events <+: more) : Uncut events :=
  fun event hevent => huncut event (hbefore.subset hevent)

variable {μ σ : Type}

/-- A script without its waits.  It has no other means to tell the time. -/
def Script.untimed : Script μ → Script μ
  | .done => .done
  | .fail error => .fail error
  | .append text next => .append text next.untimed
  | .appendLine text next => .appendLine text next.untimed
  | .requestExit next => .requestExit next.untimed
  | .read most next => .read most fun reply => (next reply).untimed
  | .send call next => .send call fun reply => (next reply).untimed
  | .wait _ next => next.untimed
  | .hang => .hang
  | .recall next => .recall fun memory => (next memory).untimed
  | .remember memory next => .remember memory next.untimed

def Config.untimed (config : Config) : Config :=
  { config with scriptTimeoutMs := none }

/-- A compiler whose scripts do not wait, and have all the time there is. -/
def Compiler.untimed (compiler : Compiler μ) : Compiler μ :=
  { compiler with
    evaluator := fun code view => (compiler.evaluator code view).untimed
    config := compiler.config.untimed }

/-- A compiler under another limit. -/
def Compiler.withLimit (compiler : Compiler μ) (limit : Option Nat) :
    Compiler μ :=
  { compiler with
    config := { compiler.config with scriptTimeoutMs := limit } }

variable [Sink σ]

/-- How long a script waits in all before it settles or fails, if it ever
does. -/
def Script.time : Script μ → Host μ σ → Option Nat
  | .done, _ => some 0
  | .fail _, _ => some 0
  | .append text next, host =>
      next.time { host with page := host.page.plain text }
  | .appendLine text next, host =>
      next.time { host with page := host.page.plainLine text }
  | .requestExit next, host =>
      next.time { host with page := host.page.requestExit }
  | .read most next, host => (next (host.read most).1).time (host.read most).2
  | .send call next, host => (next (host.send call).1).time (host.send call).2
  | .wait ms next, host => (next.time host).map (ms + ·)
  | .hang, _ => none
  | .recall next, host => (next host.memory).time host
  | .remember memory next, host => next.time { host with memory := memory }

/-- A script is cut off exactly where it waits longer than its limit, or would
never settle. -/
theorem Script.overdue_iff (script : Script μ) {most waited : Nat}
    (hwaited : waited ≤ most) (host : Host μ σ) :
    (script.run (some most) waited host).1 = .overdue most ↔
      ∀ time ∈ script.time host, most < waited + time := by
  induction script generalizing waited host with
  | done | fail => simp [run, time, hwaited]
  | append _ next ih | appendLine _ next ih | requestExit next ih
  | remember _ next ih => exact ih hwaited _
  | read most next ih => exact ih _ hwaited _
  | send call next ih => exact ih _ hwaited _
  | «recall» next ih => exact ih _ hwaited _
  | hang => simp [run, time]
  | wait ms next ih =>
      have hrest : (∀ time ∈ (wait ms next).time host, most < waited + time) ↔
          ∀ time ∈ next.time host, most < waited + ms + time := by
        simp [time, Nat.add_assoc]
      rw [hrest, run]
      split
      · rename_i hlate
        refine iff_of_true rfl fun time _ => ?_
        exact Nat.lt_of_lt_of_le hlate (Nat.le_add_right _ time)
      · rename_i hintime
        exact ih (Nat.le_of_not_lt hintime) host

/-- What is not cut off is run as if nothing was ever waited for. -/
theorem Script.run_untimed (limit : Option Nat) (script : Script μ)
    (waited : Nat) (host : Host μ σ)
    (hintime : (script.run limit waited host).1.isOverdue = false) :
    script.untimed.run none 0 host = script.run limit waited host := by
  induction script generalizing waited host with
  | done | fail => rfl
  | append _ next ih | appendLine _ next ih | requestExit next ih
  | remember _ next ih => exact ih waited _ hintime
  | read most next ih => exact ih _ waited _ hintime
  | send call next ih => exact ih _ waited _ hintime
  | «recall» next ih => exact ih _ waited _ hintime
  | hang =>
      cases limit with
      | none => rfl
      | some most => cases hintime
  | wait ms next ih =>
      cases limit with
      | none => exact ih _ host hintime
      | some most =>
          simp only [run] at hintime ⊢
          split at hintime
          · cases hintime
          · rename_i hlong
            rw [if_neg hlong]
            exact ih _ host hintime

/-- Whether a script is cut off is told by its limit and its time. -/
theorem Script.isOverdue_iff (script : Script μ) (limit : Option Nat)
    (host : Host μ σ) :
    (script.run limit 0 host).1.isOverdue = true ↔
      ∃ most, limit = some most ∧
        ∀ time ∈ script.time host, most < time := by
  constructor
  · intro hoverdue
    cases hending : (script.run limit 0 host).1 with
    | settled | failed | stuck =>
        rw [hending] at hoverdue
        cases hoverdue
    | overdue most =>
        obtain rfl := limit_of_overdue hending
        have hlong := (script.overdue_iff (Nat.zero_le most) host).mp hending
        simp only [Nat.zero_add] at hlong
        exact ⟨most, rfl, hlong⟩
  · rintro ⟨most, rfl, hlong⟩
    have hending := (script.overdue_iff (Nat.zero_le most) host).mpr
      (by simpa only [Nat.zero_add] using hlong)
    rw [hending]
    rfl

/-- A limit that is raised or taken away does not change a script that was not
cut off. -/
theorem Script.run_of_noShorter {limit other : Option Nat}
    (hlonger : NoShorter limit other) (script : Script μ) (host : Host μ σ)
    (hintime : (script.run other 0 host).1.isOverdue = false) :
    script.run limit 0 host = script.run other 0 host := by
  have hstill : (script.run limit 0 host).1.isOverdue = false := by
    rw [Bool.eq_false_iff, Ne, isOverdue_iff]
    rintro ⟨most, hlimit, hlong⟩
    obtain ⟨less, hother, hless⟩ := hlonger most hlimit
    rw [Bool.eq_false_iff, Ne, isOverdue_iff] at hintime
    exact hintime ⟨less, hother, fun time htime =>
      Nat.lt_of_le_of_lt hless (hlong time htime)⟩
  rw [← run_untimed limit script 0 host hstill,
    ← run_untimed other script 0 host hintime]

/-- Two compilers that differ in nothing but how they run scripts, and of
those the second runs alike whatever the first does not cut off. -/
structure Compiler.Outlasts (first second : Compiler μ) (σ : Type)
    [Sink σ] : Prop where
  dialect : second.dialect = first.dialect
  scope : second.scope = first.scope
  config : second.config.untimed = first.config.untimed
  script : ∀ code view (host : Host μ σ),
    ((first.evaluator code view).run first.config.scriptTimeoutMs 0
      host).1.isOverdue = false →
    (second.evaluator code view).run second.config.scriptTimeoutMs 0 host =
      (first.evaluator code view).run first.config.scriptTimeoutMs 0 host

theorem Compiler.outlasts_untimed (compiler : Compiler μ) :
    compiler.Outlasts compiler.untimed σ where
  dialect := rfl
  scope := rfl
  config := rfl
  script code view host hintime :=
    (compiler.evaluator code view).run_untimed _ 0 host hintime

theorem Compiler.outlasts_withLimit (compiler : Compiler μ)
    {limit : Option Nat}
    (hlonger : NoShorter limit compiler.config.scriptTimeoutMs) :
    compiler.Outlasts (compiler.withLimit limit) σ where
  dialect := rfl
  scope := rfl
  config := rfl
  script code view host hintime :=
    (compiler.evaluator code view).run_of_noShorter hlonger host hintime

/-- The limit is not looked at for what a source calls for. -/
theorem Config.effects_untimed (config : Config) (name : String)
    (afterComment : Bool) (lexemes : List Lexeme) :
    config.untimed.effects name afterComment lexemes =
      config.effects name afterComment lexemes := by
  induction lexemes generalizing afterComment with
  | nil => rfl
  | cons lexeme rest ih =>
      rw [effects, effects, ih]
      rfl

namespace Compiler.Outlasts

variable {first second : Compiler μ} {start : Pass μ σ}
  {effects taken : List Effect}

theorem perform (houtlasts : first.Outlasts second σ) (effect : Effect)
    (pass : Pass μ σ)
    (huncut : Uncut (first.perform effect pass).2.events) :
    second.perform effect pass = first.perform effect pass := by
  cases effect with
  | literal text => rfl
  | ask occasion =>
      rw [perform_ask, perform_ask, ask_eq, ask_eq, houtlasts.dialect]
  | evaluate code line name =>
      have hrun := houtlasts.script code ⟨name, line, pass.host.page.scope⟩
        pass.host
      rw [first.perform_evaluate code line name pass (Prod.eta _).symm]
        at huncut
      have hintime := huncut _ (List.mem_append_right _ List.mem_cons_self)
      rw [first.perform_evaluate code line name pass (Prod.eta _).symm,
        second.perform_evaluate code line name pass (hrun hintime)]

theorem follow (houtlasts : first.Outlasts second σ)
    (effects : List Effect) (pass : Pass μ σ)
    (huncut : Uncut (first.follow effects pass).2.events) :
    second.follow effects pass = first.follow effects pass := by
  induction effects generalizing pass with
  | nil => rfl
  | cons effect rest ih =>
      have hfirst := first.events_isPrefix [effect] rest pass
      rw [follow_singleton, List.singleton_append] at hfirst
      rw [follow_cons, follow_cons,
        houtlasts.perform effect pass (huncut.mono hfirst)]
      rw [follow_cons] at huncut
      by_cases hdone : (first.perform effect pass).1 = .done
      · obtain ⟨next, hnext⟩ := exists_of_done hdone
        rw [hnext, andThen_done] at huncut
        rw [hnext, andThen_done, andThen_done, ih next huncut]
      · rw [andThen_of_ne_done hdone, andThen_of_ne_done hdone]

theorem exitPolicy (houtlasts : first.Outlasts second σ) :
    second.config.exitPolicy = first.config.exitPolicy := by
  have hpolicy : second.config.untimed.exitPolicy =
      first.config.untimed.exitPolicy := by rw [houtlasts.config]
  exact hpolicy

/-- Where nothing is cut off, both scans stop in the same place. -/
theorem exitsAfter_iff (houtlasts : first.Outlasts second σ)
    (huncut : Uncut (first.follow effects start).2.events) :
    second.ExitsAfter start effects ↔ first.ExitsAfter start effects := by
  simp only [ExitsAfter, houtlasts.follow effects start huncut,
    houtlasts.exitPolicy]

theorem takes (houtlasts : first.Outlasts second σ)
    (huncut : Uncut (first.follow taken start).2.events)
    (htakes : first.Takes start effects taken) :
    second.Takes start effects taken where
  split := by
    obtain ⟨rest, hsplit, hexits⟩ := htakes.split
    exact ⟨rest, hsplit, fun hrest =>
      (houtlasts.exitsAfter_iff huncut).mpr (hexits hrest)⟩
  first := by
    intro earlier later hsplit hlater
    have hbefore := first.events_isPrefix earlier later start
    rw [← hsplit] at hbefore
    rw [houtlasts.exitsAfter_iff (huncut.mono hbefore)]
    exact htakes.first earlier later hsplit hlater

/-- A pass in which nothing is cut off is the same under the other
compiler. -/
theorem render (houtlasts : first.Outlasts second σ) (template : Template)
    (request : Request σ) (memory : μ)
    (huncut : Uncut (first.render template request memory).events) :
    second.render template request memory =
      first.render template request memory := by
  have hstart : second.start template request memory =
      first.start template request memory := by
    have hmarker : second.config.untimed.lineMarker =
        first.config.untimed.lineMarker := by rw [houtlasts.config]
    change second.config.lineMarker = first.config.lineMarker at hmarker
    rw [start, start, houtlasts.scope, hmarker]
  have heffects : ∀ lexemes,
      second.config.effects template.name false lexemes =
        first.config.effects template.name false lexemes := by
    intro lexemes
    rw [← Config.effects_untimed, houtlasts.config, Config.effects_untimed]
  obtain ⟨taken, htakes, hfirst⟩ :=
    first.render_follow template request memory
  obtain ⟨other, hother, hsecond⟩ :=
    second.render_follow template request memory
  rw [events_render hfirst] at huncut
  have hbefore := first.events_isPrefix (.ask .head :: taken)
    [.ask .finish] (first.start template request memory)
  have hsame := houtlasts.takes (huncut.mono hbefore) htakes
  rw [hstart, heffects] at hother
  obtain rfl := (List.cons.inj (hsame.unique hother)).2
  rw [hsecond, hfirst, hstart, houtlasts.follow _ _ huncut]

end Compiler.Outlasts

/-- The page operations that effects do one after the other. -/
def Compiler.pageWork (compiler : Compiler μ) :
    List Effect → Pass μ σ → List PageOp
  | [], _ => []
  | effect :: rest, pass =>
      compiler.pageOps effect pass.host ++
        match compiler.perform effect pass with
        | (.done, next) => compiler.pageWork rest next
        | (.failed _, _) | (.stuck, _) => []

theorem Compiler.page_follow (compiler : Compiler μ) (effects : List Effect)
    (pass : Pass μ σ) :
    (compiler.follow effects pass).2.host.page =
      pass.host.page.applyAll (compiler.pageWork effects pass) := by
  induction effects generalizing pass with
  | nil => rfl
  | cons effect rest ih =>
      have hpage := compiler.page_perform effect pass
      rw [follow_cons, pageWork, Page.applyAll_append, ← hpage]
      generalize compiler.perform effect pass = part
      rcases part with ⟨_ | fault | _, next⟩
      · exact ih next
      · rfl
      · rfl

/-- How the page of a pass comes about: from the effects of the first spans, in
the order of the source. -/
structure Compiler.InOrder (compiler : Compiler μ) (template : Template)
    (request : Request σ) (memory : μ) (taken : List Effect) : Prop where
  inOrder : taken <+: compiler.config.effects template.name false
    (Lexer.ofSource template.source).drain
  events : journal (compiler.render template request memory).events <+:
    between taken
  page : (compiler.render template request memory).outcome ≠ .stuck →
    (compiler.render template request memory).template =
      template.withPage
        ((Page.blank compiler.scope compiler.config.lineMarker).applyAll
          (compiler.pageWork (between taken)
            (compiler.start template request memory)))
  /-- Each script has the whole limit for itself. -/
  cutOff : ∀ earlier code line name ending later,
    (compiler.render template request memory).events =
      earlier ++ .script code line name ending :: later →
    ∃ before,
      compiler.follow (journal earlier)
        (compiler.start template request memory) = (.done, before) ∧
      (ending.isOverdue = true ↔
        ∃ most, compiler.config.scriptTimeoutMs = some most ∧
          ∀ time ∈ (compiler.evaluator code
            ⟨name, line, before.host.page.scope⟩).time before.host,
            most < time)

theorem Compiler.exists_inOrder (compiler : Compiler μ) (template : Template)
    (request : Request σ) (memory : μ) :
    ∃ taken, compiler.InOrder template request memory taken := by
  obtain ⟨taken, htakes, hreport⟩ :=
    compiler.render_follow template request memory
  refine ⟨taken, htakes.isPrefix_of_cons, journal_render_isPrefix hreport,
    ?_, ?_⟩
  · intro hends
    rw [hreport] at hends ⊢
    rw [Report.template_ofPart template _ hends, page_follow]
    rfl
  · intro earlier code line name ending later hevents
    obtain ⟨before, hbefore, hevent⟩ := compiler.follow_event
      ((events_render hreport).symm.trans hevents)
    refine ⟨before, hbefore, ?_⟩
    change (compiler.perform (.evaluate code line name) before).2.events = _
      at hevent
    rw [compiler.perform_evaluate code line name before (Prod.eta _).symm]
      at hevent
    have hsame := List.append_cancel_left hevent
    simp only [List.cons.injEq, Event.script.injEq, and_true, true_and]
      at hsame
    rw [← hsame, Script.isOverdue_iff]

/-- Time does not show unless a script is cut off.  Passes that differ in
nothing but the waits of their scripts and the limit are the same, and so is a
pass whose limit is raised or taken away.  A script is cut off where it alone
waits longer than the limit, and the page comes about in the order of the
source. -/
theorem Compiler.time_does_not_show :
    (∀ first second : Compiler μ, first.untimed = second.untimed →
      ∀ (template : Template) (request : Request σ) (memory : μ),
        Uncut (first.render template request memory).events →
        Uncut (second.render template request memory).events →
        first.render template request memory =
          second.render template request memory) ∧
    (∀ (compiler : Compiler μ) (limit : Option Nat),
      NoShorter limit compiler.config.scriptTimeoutMs →
      ∀ (template : Template) (request : Request σ) (memory : μ),
        Uncut (compiler.render template request memory).events →
        (compiler.withLimit limit).render template request memory =
          compiler.render template request memory) ∧
    ∀ (compiler : Compiler μ) (template : Template) (request : Request σ)
      (memory : μ),
      ∃ taken, compiler.InOrder template request memory taken := by
  refine ⟨?_, ?_, exists_inOrder⟩
  · intro first second hsame template request memory hfirst hsecond
    rw [← first.outlasts_untimed.render template request memory hfirst, hsame]
    exact second.outlasts_untimed.render template request memory hsecond
  · intro compiler limit hlonger template request memory huncut
    exact (compiler.outlasts_withLimit hlonger).render template request memory
      huncut

namespace TimingWitness

/-- Every script waits before and after it writes itself; then `f` fails. -/
def compiler (ms : Nat) (limit : Option Nat) : Compiler Unit where
  evaluator := fun code _ =>
    .wait ms (.append code (.wait ms
      (if code = "f" then .fail (.message "no") else .done)))
  config := { scriptTimeoutMs := limit }

def template : Template :=
  .named ⟨"", 0⟩ "page" "%\x7ba\x7d%b\n%\x7bf\x7d%"

def render (compiler : Compiler Unit) : Report Unit BoundedSink :=
  compiler.render template {} ()

/-- Each of two scripts takes all of the limit, or more time without one. -/
theorem slow_as_fast :
    render (compiler 3 (some 6)) = render (compiler 50 none) ∧
      render ((compiler 3 (some 6)).withLimit (some 7)) =
        render (compiler 3 (some 6)) ∧
      (render (compiler 50 none)).outcome = .page "ab\nf" ∧
      (render (compiler 3 (some 5))).outcome = .page "ab\nf" ∧
      (render (compiler 3 (some 5))).faults =
        [.timeout 1 5, .timeout 2 5] := by
  obtain ⟨hsame, hlonger, -⟩ :=
    @Compiler.time_does_not_show Unit BoundedSink _
  have huncut : Uncut (render (compiler 3 (some 6))).events := by
    unfold Uncut
    decide +kernel
  have hunlimited : Uncut (render (compiler 50 none)).events := by
    unfold Uncut
    decide +kernel
  have hseven : NoShorter (some 7) (some 6) := by
    rintro most ⟨⟩
    exact ⟨6, rfl, by decide⟩
  refine ⟨?_, ?_, by decide +kernel, by decide +kernel, by decide +kernel⟩
  · exact hsame (compiler 3 (some 6)) (compiler 50 none) rfl template {} ()
      huncut hunlimited
  · exact hlonger (compiler 3 (some 6)) (some 7) hseven template {} () huncut

end TimingWitness

end Stencil
