/-
The sink at the end of a pass.  Up to there only scripts have called it.  A
fault that ends the pass leaves it alone; a page is delivered to it, all of the
page or with a report of the failure, and the page, its table and the outcome
do not depend on how that went.
-/
import Stencil.BoundedSink
import Stencil.Proofs.Delivery
import Stencil.Proofs.SinkFree

namespace Stencil

def Fault.isSink : Fault → Bool
  | .sink _ => true
  | .unimplementedDirective .. | .directive .. | .evaluation .. | .timeout .. =>
      false

/-- The faults of the sink among others. -/
def sinkFaults (faults : List Fault) : List Fault :=
  faults.filter Fault.isSink

theorem utf8_eq_nil_iff (text : String) : utf8 text = [] ↔ text = "" := by
  rw [← String.toList_eq_nil_iff, utf8, List.flatMap_eq_nil_iff]
  constructor
  · intro hnone
    apply List.eq_nil_iff_forall_not_mem.mpr
    intro char hchar
    exact String.utf8EncodeChar_ne_nil (hnone char hchar)
  · intro hnil char hchar
    rw [hnil] at hchar
    cases hchar

theorem Event.isSink_of_fault? {event : Event} {fault : Fault}
    (hfault : event.fault? = some fault) : fault.isSink = false := by
  unfold fault? at hfault
  split at hfault
  · cases hfault
    rfl
  · cases hfault
    rfl
  all_goals cases hfault

section

variable {μ σ : Type} [Sink σ]

/-- A pass as it is when its page is complete, before the delivery. -/
def Compiler.undelivered (compiler : Compiler μ) (template : Template)
    (request : Request σ) (memory : μ) : Pass μ σ :=
  (compiler.run (.ofSource template.source)
    (compiler.start template request memory)).2

/-- What a pass does with a sink that its scripts left so: a fault that ends
the pass leaves it alone, and a page is delivered to it.  Neither changes the
page, the table or the outcome any more. -/
structure Compiler.Closes (compiler : Compiler μ) (template : Template)
    (request : Request σ) (memory : μ) (left : σ) : Prop where
  scripts : (compiler.undelivered template request memory).host.sink =
    some left
  kept :
    (compiler.render template request memory).outcome ≠ .stuck →
    (compiler.render template request memory).template = template.withPage
      (compiler.undelivered template request memory).host.page
  failed : ∀ fault,
    (compiler.render template request memory).outcome = .failed fault →
    (compiler.render template request memory).sink = some left ∧
    sinkFaults (compiler.render template request memory).faults = []
  page : ∀ text,
    (compiler.render template request memory).outcome = .page text →
    text =
      (compiler.undelivered template request memory).host.page.output ∧
    ∃ sink log failure?,
      (Sink.deliver (⟨left, []⟩ : Watched σ) (utf8 text)).2 = ⟨sink, log⟩ ∧
      (compiler.render template request memory).sink = some sink ∧
      Delivery (utf8 text) log failure? ∧
      sinkFaults (compiler.render template request memory).faults =
        if request.listening then failure?.toList.map Fault.sink else []

theorem sinkFaults_append (first second : List Fault) :
    sinkFaults (first ++ second) = sinkFaults first ++ sinkFaults second :=
  List.filter_append first second

theorem sinkFaults_map_sink (errors : List SinkError) :
    sinkFaults (errors.map Fault.sink) = errors.map Fault.sink := by
  rw [sinkFaults, List.filter_eq_self]
  intro fault hfault
  obtain ⟨error, _, rfl⟩ := List.mem_map.mp hfault
  rfl

/-- All that delivering does to a pass with a sink. -/
theorem Pass.deliver_of_sink {pass : Pass μ σ} {left : σ}
    (hsink : pass.host.sink = some left) :
    pass.deliver.host.sink =
        some (Sink.deliver left (utf8 pass.host.page.output)).2 ∧
      pass.deliver.faults = pass.faults ++
        if pass.listening then
          (failureOf? (Sink.deliver left
            (utf8 pass.host.page.output)).1).toList.map Fault.sink
        else [] := by
  rw [deliver, hsink]
  dsimp only
  generalize Sink.deliver left (utf8 pass.host.page.output) = answer
  obtain ⟨result, sink⟩ := answer
  cases result with
  | ok => simp [failureOf?]
  | error error =>
      refine ⟨by rw [host_report], ?_⟩
      simp only [report]
      split
      · rfl
      · exact (List.append_nil _).symm

/-- Up to the delivery only the scripts have called the sink, and no fault of
the sink is reported. -/
theorem Compiler.undelivered_follow (compiler : Compiler μ)
    (template : Template) (request : Request σ) (memory : μ) :
    ∃ taken,
      compiler.Takes (compiler.start template request memory)
        (.ask .head :: compiler.config.effects template.name false
          (Lexer.ofSource template.source).drain)
        (.ask .head :: taken) ∧
      (compiler.undelivered template request memory).host.sink =
        request.sink.map (fun sink => Sink.callAll sink
          (compiler.sinkCallsOf (between taken)
            (compiler.start template request memory))) ∧
      (compiler.undelivered template request memory).listening =
        request.listening ∧
      sinkFaults
        (compiler.undelivered template request memory).faults = [] := by
  obtain ⟨taken, htakes, hrun⟩ :=
    compiler.run_follow template request memory
  have hforget : (compiler.undelivered template request memory).forget =
      (compiler.follow (between taken)
        (compiler.start template request memory)).2 :=
    congrArg Prod.snd hrun
  have hsink := compiler.sink_follow (between taken)
    (compiler.start template request memory)
  obtain ⟨events, _, hlistening, _, hfaults⟩ := compiler.follow_noted
    (between taken) (compiler.start template request memory)
  rw [← hforget] at hsink hlistening hfaults
  refine ⟨taken, htakes, hsink, hlistening, ?_⟩
  have hscripts : (compiler.undelivered template request memory).faults =
      if request.listening then events.filterMap Event.fault? else [] :=
    hfaults
  rw [hscripts, sinkFaults, List.filter_eq_nil_iff]
  intro fault hfault
  split at hfault
  · obtain ⟨event, _, hevent⟩ := List.mem_filterMap.mp hfault
    rw [Event.isSink_of_fault? hevent]
    exact Bool.false_ne_true
  · cases hfault

variable {compiler : Compiler μ} {template : Template} {request : Request σ}
  {memory : μ} {left : σ}

/-- A fault that ends a pass leaves the sink alone. -/
theorem Compiler.sink_of_failed
    (hleft : (compiler.undelivered template request memory).host.sink =
      some left) {fault : Fault}
    (hfailed : (compiler.render template request memory).outcome =
      .failed fault) :
    (compiler.render template request memory).sink = some left ∧
      sinkFaults (compiler.render template request memory).faults = [] := by
  obtain ⟨_, _, _, _, hfaults⟩ :=
    compiler.undelivered_follow template request memory
  unfold undelivered at hleft hfaults
  unfold render at hfailed ⊢
  generalize compiler.run (.ofSource template.source)
    (compiler.start template request memory) = part
    at hleft hfaults hfailed ⊢
  rcases part with ⟨_ | other | _, pass⟩
  · cases hfailed
  · exact ⟨hleft, hfaults⟩
  · cases hfailed

/-- A page is delivered, and a failure of that is reported. -/
theorem Compiler.sink_of_page
    (hleft : (compiler.undelivered template request memory).host.sink =
      some left) {text : String}
    (hpage : (compiler.render template request memory).outcome =
      .page text) :
    text =
        (compiler.undelivered template request memory).host.page.output ∧
      (compiler.render template request memory).sink =
        some (Sink.deliver left (utf8 text)).2 ∧
      sinkFaults (compiler.render template request memory).faults =
        if request.listening then
          (failureOf? (Sink.deliver left (utf8 text)).1).toList.map Fault.sink
        else [] := by
  obtain ⟨_, _, _, hlistening, hfaults⟩ :=
    compiler.undelivered_follow template request memory
  unfold undelivered at hleft hlistening hfaults ⊢
  unfold render at hpage ⊢
  generalize compiler.run (.ofSource template.source)
    (compiler.start template request memory) = part
    at hleft hlistening hfaults hpage ⊢
  rcases part with ⟨_ | other | _, pass⟩
  · obtain ⟨hsink, htold⟩ := Pass.deliver_of_sink hleft
    have htext : text = pass.host.page.output := by
      rw [← pass.page_deliver]
      exact (Outcome.page.inj hpage).symm
    subst htext
    refine ⟨rfl, hsink, ?_⟩
    change sinkFaults pass.deliver.faults = _
    rw [htold, sinkFaults_append, hfaults, List.nil_append]
    change pass.listening = request.listening at hlistening
    rw [hlistening]
    split
    · exact sinkFaults_map_sink _
    · rfl
  · cases hpage
  · cases hpage

theorem Compiler.closes
    (hleft : (compiler.undelivered template request memory).host.sink =
      some left) : compiler.Closes template request memory left where
  scripts := hleft
  kept := Report.template_ofPart template _
  failed _ hfailed := compiler.sink_of_failed hleft hfailed
  page text hpage := by
    obtain ⟨houtput, hsink, hfaults⟩ := compiler.sink_of_page hleft hpage
    obtain ⟨log, hlog, hdelivery⟩ :=
      Watched.deliver (⟨left, []⟩ : Watched σ) (utf8 text)
    exact ⟨houtput, _, log, _, congrArg Prod.snd hlog, hsink, hdelivery,
      hfaults⟩

/-- An open response takes all of a text, and every response takes nothing
where there is nothing to take; it ends closed. -/
theorem Response.deliver_taken {response : Response} {bytes : List UInt8}
    (htakes : response.closed = false ∨ bytes = []) :
    Sink.deliver response bytes =
      (.ok (), ⟨response.bytes ++ bytes, true⟩) := by
  cases bytes with
  | nil => simp [Sink.deliver, Sink.writeAll, Sink.shutdown]
  | cons byte rest =>
      have hopen : response.closed = false :=
        htakes.resolve_right (List.cons_ne_nil byte rest)
      rw [Sink.deliver, Sink.writeAll]
      simp [Sink.write, hopen, Sink.writeAll, Sink.shutdown]

/-- A closed response takes nothing, and fails. -/
theorem Response.deliver_refused {response : Response} {bytes : List UInt8}
    (hclosed : response.closed = true) (hmore : bytes ≠ []) :
    Sink.deliver response bytes = (.error .alreadyEnded, response) := by
  cases bytes with
  | nil => exact absurd rfl hmore
  | cons byte rest =>
      rw [Sink.deliver, Sink.writeAll]
      simp [Sink.write, hclosed]

/-- Up to the end of a pass only its scripts call the sink.  A fault leaves it
so; a page is delivered, all of it or with a report, and nothing else depends
on how that goes.  An open response ends with the page, and closed.  Where no
script calls the sink, any sink and none make the same page. -/
theorem Compiler.delivers_or_reports {μ : Type} :
    (∀ (σ : Type) [Sink σ] (compiler : Compiler μ) (template : Template)
        (request : Request σ) (memory : μ) (sink : σ),
      request.sink = some sink →
      ∃ taken,
        compiler.Takes (compiler.start template request memory)
          (.ask .head :: compiler.config.effects template.name false
            (Lexer.ofSource template.source).drain)
          (.ask .head :: taken) ∧
        compiler.Closes template request memory
          (Sink.callAll sink (compiler.sinkCallsOf (between taken)
            (compiler.start template request memory)))) ∧
    (∀ (compiler : Compiler μ) (template : Template)
        (request : Request Response) (memory : μ) (left : Response)
        (text : String),
      (compiler.undelivered template request memory).host.sink = some left →
      (compiler.render template request memory).outcome = .page text →
      (left.closed = false →
        (compiler.render template request memory).sink =
            some ⟨left.bytes ++ utf8 text, true⟩ ∧
        sinkFaults (compiler.render template request memory).faults = []) ∧
      (left.closed = true →
        (compiler.render template request memory).sink =
          some ⟨left.bytes, true⟩ ∧
        sinkFaults (compiler.render template request memory).faults =
          if request.listening = true ∧ text ≠ "" then [.sink .alreadyEnded]
          else [])) ∧
    ∀ (σ τ : Type) [Sink σ] [Sink τ] (compiler : Compiler μ)
        (template : Template) (request : Request σ) (other : Request τ)
        (memory : μ),
      compiler.Silent σ → request.input = other.input →
      (compiler.render template request memory).outcome =
          (compiler.render template other memory).outcome ∧
        (compiler.render template request memory).template =
          (compiler.render template other memory).template := by
  refine ⟨?_, ?_, ?_⟩
  · intro σ _ compiler template request memory sink hsink
    obtain ⟨taken, htakes, hleft, _⟩ :=
      compiler.undelivered_follow template request memory
    rw [hsink] at hleft
    exact ⟨taken, htakes, compiler.closes hleft⟩
  · intro compiler template request memory left text hleft hpage
    obtain ⟨_, hsink, hfaults⟩ := compiler.sink_of_page hleft hpage
    have htaken : left.closed = false ∨ utf8 text = [] →
        (compiler.render template request memory).sink =
            some ⟨left.bytes ++ utf8 text, true⟩ ∧
          sinkFaults (compiler.render template request memory).faults =
            [] := by
      intro htakes
      rw [Response.deliver_taken htakes] at hsink hfaults
      exact ⟨hsink, hfaults.trans (ite_self _)⟩
    refine ⟨fun hopen => htaken (Or.inl hopen), ?_⟩
    intro hclosed
    by_cases htext : text = ""
    · have hnothing := (utf8_eq_nil_iff text).mpr htext
      obtain ⟨hkept, hnone⟩ := htaken (Or.inr hnothing)
      rw [hnothing, List.append_nil] at hkept
      refine ⟨hkept, ?_⟩
      rw [hnone, if_neg (fun hboth => hboth.2 htext)]
    · have hmore : utf8 text ≠ [] := fun hnil =>
        htext ((utf8_eq_nil_iff text).mp hnil)
      rw [Response.deliver_refused hclosed hmore] at hsink hfaults
      refine ⟨?_, ?_⟩
      · rw [hsink, ← hclosed]
      · rw [hfaults]
        simp [htext, failureOf?]
  · intro σ τ _ _ compiler template request other memory hsilent hinput
    exact compiler.render_sinkFree template memory hsilent hinput

end

namespace FlushingWitness

/-- The script `x` writes a byte to the sink; all others leave it alone. -/
def evaluator : Evaluator Unit := fun code _ =>
  if code = "x" then .send (.writeAll [120]) fun _ => .done
  else .append code .done

def compiler : Compiler Unit where
  evaluator := evaluator

/-- A compiler whose scripts never call the sink. -/
def silent : Compiler Unit where
  evaluator code _ := .append code .done

def template : Template := .named ⟨"", 0⟩ "page" "ab%\x7bx\x7d%cd"

/-- Two bytes at a time, and three in all. -/
def bounded : Request BoundedSink where
  sink := some ⟨[], false, some 3, some 2, none⟩

def opened : Request Response where
  sink := some .fresh

def closed : Request Response where
  sink := some ⟨[], true⟩

theorem part_delivered :
    (compiler.render template bounded ()).outcome = .page "abcd" ∧
    (compiler.render template bounded ()).sink =
      some ⟨[120, 97, 98], false, some 3, some 2, none⟩ ∧
    (∃ log, Delivery (utf8 "abcd") log (some .full)) ∧
    (compiler.render template opened ()).sink =
      some ⟨[120, 97, 98, 99, 100], true⟩ ∧
    sinkFaults (compiler.render template closed ()).faults =
      [.sink .alreadyEnded] ∧
    (silent.render template closed ()).outcome =
      (silent.render template bounded ()).outcome := by
  obtain ⟨hany, hresponse, hsilent⟩ := @Compiler.delivers_or_reports Unit
  have hpage : (compiler.render template bounded ()).outcome =
      .page "abcd" := by decide +kernel
  obtain ⟨taken, _, hcloses⟩ :=
    hany BoundedSink compiler template bounded () _ rfl
  obtain ⟨_, sink, log, failure?, _, hsink, hdelivery, hfaults⟩ :=
    hcloses.page "abcd" hpage
  have htold : sinkFaults (compiler.render template bounded ()).faults =
      [.sink .full] := by decide +kernel
  have hfull : failure? = some .full := by
    rw [htold] at hfaults
    cases failure? with
    | none => cases hfaults
    | some error =>
        cases hfaults
        rfl
  refine ⟨hpage, by decide +kernel, ⟨log, hfull ▸ hdelivery⟩, ?_, ?_, ?_⟩
  · exact ((hresponse compiler template opened () ⟨[120], false⟩ "abcd"
      (by decide +kernel) (by decide +kernel)).1 rfl).1
  · exact ((hresponse compiler template closed () ⟨[], true⟩ "abcd"
      (by decide +kernel) (by decide +kernel)).2 rfl).2
  · exact (hsilent Response BoundedSink silent template closed bounded ()
      (fun _ _ _ => rfl) rfl).1

end FlushingWitness

end Stencil
