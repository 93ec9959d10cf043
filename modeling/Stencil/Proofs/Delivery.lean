/-
Delivering a text to a sink.  A watched sink keeps the calls on it, with the
replies.  Whatever it replies, what it takes is a part of the text from the
beginning on; it is shut down exactly where it took all of the text, and a
delivery that did not go well failed in exactly one call.
-/
import Stencil.Response
import Stencil.Script
import Stencil.Proofs.Characters

namespace Stencil

/-- A call on a sink, and the reply. -/
structure Exchange where
  call : SinkCall
  reply : Except SinkError Nat

/-- A sink, and the exchanges with it so far. -/
structure Watched (σ : Type) where
  sink : σ
  log : List Exchange

/-- The sink after one more exchange, with its result. -/
def Watched.record {σ α : Type} (watched : Watched σ) (call : SinkCall)
    (count : α → Nat) (answer : Except SinkError α × σ) :
    Except SinkError α × Watched σ :=
  (answer.1, ⟨answer.2, watched.log ++ [⟨call, answer.1.map count⟩]⟩)

instance {σ : Type} [Sink σ] : Sink (Watched σ) where
  write watched bytes :=
    watched.record (.write bytes) id (Sink.write watched.sink bytes)
  flush watched := watched.record .flush (fun _ => 0) (Sink.flush watched.sink)
  shutdown watched :=
    watched.record .shutdown (fun _ => 0) (Sink.shutdown watched.sink)

def Exchange.isWrite (exchange : Exchange) : Bool :=
  match exchange.call with
  | .write _ => true
  | .writeAll _ | .flush | .shutdown => false

/-- The bytes that a sink took in an exchange. -/
def Exchange.accepted (exchange : Exchange) : List UInt8 :=
  match exchange.call, exchange.reply with
  | .write bytes, .ok count => bytes.take count
  | _, _ => []

/-- Why an exchange failed, if it did.  A write that takes nothing fails. -/
def Exchange.failure? (exchange : Exchange) : Option SinkError :=
  match exchange.call, exchange.reply with
  | _, .error error => some error
  | .write _, .ok 0 => some .wroteNothing
  | _, .ok _ => none

def accepted (log : List Exchange) : List UInt8 :=
  log.flatMap Exchange.accepted

def failures (log : List Exchange) : List SinkError :=
  log.filterMap Exchange.failure?

/-- Every write of these exchanges was answered by taking some of it. -/
def AllWritten (log : List Exchange) : Prop :=
  ∀ exchange ∈ log, exchange.isWrite = true → exchange.failure? = none

/-- The failure that a result tells of. -/
def failureOf? {α : Type} : Except SinkError α → Option SinkError
  | .ok _ => none
  | .error error => some error

/-- The exchanges of a write that goes on until all is taken, and how it ends:
it offers what is left, fails when nothing is taken, and asks nothing of the
sink once nothing is left. -/
inductive Writing :
    List UInt8 → List Exchange → Except SinkError Unit → Prop where
  | done : Writing [] [] (.ok ())
  | refused {bytes : List UInt8} (error : SinkError) (hmore : bytes ≠ []) :
      Writing bytes [⟨.write bytes, .error error⟩] (.error error)
  | nothing {bytes : List UInt8} (hmore : bytes ≠ []) :
      Writing bytes [⟨.write bytes, .ok 0⟩] (.error .wroteNothing)
  | taken {bytes : List UInt8} {log : List Exchange}
      {result : Except SinkError Unit} (count : Nat) (hmore : bytes ≠ [])
      (hrest : Writing (bytes.drop (count + 1)) log result) :
      Writing bytes (⟨.write bytes, .ok (count + 1)⟩ :: log) result

section

variable {σ : Type} [Sink σ]

/-- A watched sink is written to as the sink itself is. -/
theorem Watched.writeAll_writing (watched : Watched σ) (bytes : List UInt8) :
    ∃ log,
      Sink.writeAll watched bytes =
        ((Sink.writeAll watched.sink bytes).1,
          ⟨(Sink.writeAll watched.sink bytes).2, watched.log ++ log⟩) ∧
      Writing bytes log (Sink.writeAll watched.sink bytes).1 := by
  cases bytes with
  | nil =>
      rw [Sink.writeAll, Sink.writeAll]
      exact ⟨[], by simp, .done⟩
  | cons byte rest =>
      have hmore : byte :: rest ≠ [] := List.cons_ne_nil byte rest
      have hwrite : Sink.write watched (byte :: rest) =
          watched.record (.write (byte :: rest)) id
            (Sink.write watched.sink (byte :: rest)) := rfl
      rw [Sink.writeAll, Sink.writeAll, hwrite]
      generalize Sink.write watched.sink (byte :: rest) = answer
      obtain ⟨reply, sink⟩ := answer
      cases reply with
      | error error => exact ⟨_, rfl, .refused error hmore⟩
      | ok count =>
          cases count with
          | zero => exact ⟨_, rfl, .nothing hmore⟩
          | succ count =>
              obtain ⟨log, hlog, hrest⟩ :=
                Watched.writeAll_writing (watched.record (.write (byte :: rest)) id
                  (.ok (count + 1), sink)).2 (rest.drop count)
              refine ⟨_, hlog.trans ?_, .taken count hmore hrest⟩
              simp [record, Except.map]
termination_by bytes.length
decreasing_by
  simp only [List.length_drop, List.length_cons]
  omega

end

variable {bytes : List UInt8} {log : List Exchange}
  {result : Except SinkError Unit}

theorem Writing.isWrite (hwriting : Writing bytes log result) :
    ∀ exchange ∈ log, exchange.isWrite = true := by
  induction hwriting with
  | done => exact fun _ hmem => absurd hmem List.not_mem_nil
  | refused | nothing =>
      intro exchange hmem
      rw [List.mem_singleton.mp hmem]
      rfl
  | taken count hmore hrest ih =>
      intro exchange hmem
      rcases List.mem_cons.mp hmem with rfl | hmem
      · rfl
      · exact ih exchange hmem

theorem accepted_cons (bytes : List UInt8) (count : Nat)
    (log : List Exchange) :
    accepted (⟨.write bytes, .ok (count + 1)⟩ :: log) =
      bytes.take (count + 1) ++ accepted log := rfl

/-- What was taken is a part of the text from the beginning on. -/
theorem Writing.accepted_isPrefix (hwriting : Writing bytes log result) :
    accepted log <+: bytes := by
  induction hwriting with
  | done | refused | nothing => exact List.nil_prefix
  | @taken bytes log result count hmore hrest ih =>
      have htaken := (List.prefix_append_right_inj
        (bytes.take (count + 1))).mpr ih
      rwa [List.take_append_drop] at htaken

/-- All of the text was taken exactly where the write ended well. -/
theorem Writing.accepted_eq_iff (hwriting : Writing bytes log result) :
    accepted log = bytes ↔ failureOf? result = none := by
  induction hwriting with
  | done => exact ⟨fun _ => rfl, fun _ => rfl⟩
  | refused error hmore =>
      refine ⟨fun hall => absurd hall.symm hmore, fun hnone => ?_⟩
      cases hnone
  | nothing hmore =>
      refine ⟨fun hall => absurd hall.symm hmore, fun hnone => ?_⟩
      cases hnone
  | @taken bytes log result count hmore hrest ih =>
      rw [← ih, accepted_cons]
      constructor
      · intro hall
        have hsplit := List.take_append_drop (count + 1) bytes
        exact List.append_cancel_left (hall.trans hsplit.symm)
      · intro hall
        rw [hall, List.take_append_drop]

/-- A write fails in at most one exchange, and then ends with that failure. -/
theorem Writing.failures_eq (hwriting : Writing bytes log result) :
    failures log = (failureOf? result).toList := by
  induction hwriting with
  | done | refused | nothing => rfl
  | taken count hmore hrest ih => exact ih

theorem Writing.allWritten_iff (hwriting : Writing bytes log result) :
    AllWritten log ↔ failureOf? result = none := by
  rw [← Option.toList_eq_nil_iff, ← hwriting.failures_eq, failures,
    List.filterMap_eq_nil_iff]
  constructor
  · intro hall exchange hmem
    exact hall exchange hmem (hwriting.isWrite exchange hmem)
  · intro hall exchange hmem _
    exact hall exchange hmem

/-- What came of delivering a text: the exchanges with the sink, and the
failure of one of them. -/
structure Delivery (bytes : List UInt8) (log : List Exchange)
    (failure? : Option SinkError) : Prop where
  calls : ∀ exchange ∈ log,
    exchange.isWrite = true ∨ exchange.call = .shutdown
  accepted : accepted log <+: bytes
  whole : Stencil.accepted log = bytes ↔ AllWritten log
  shutdown : (∃ exchange ∈ log, exchange.call = .shutdown) ↔ AllWritten log
  failure : failures log = failure?.toList

theorem Writing.delivery {error : SinkError}
    (hwriting : Writing bytes log (.error error)) :
    Delivery bytes log (some error) where
  calls exchange hmem := Or.inl (hwriting.isWrite exchange hmem)
  accepted := hwriting.accepted_isPrefix
  whole := hwriting.accepted_eq_iff.trans hwriting.allWritten_iff.symm
  shutdown := by
    rw [hwriting.allWritten_iff]
    constructor
    · rintro ⟨exchange, hmem, hcall⟩
      have hwrite := hwriting.isWrite exchange hmem
      rw [Exchange.isWrite, hcall] at hwrite
      cases hwrite
    · intro hnone
      cases hnone
  failure := hwriting.failures_eq

theorem Writing.delivery_shutdown (hwriting : Writing bytes log (.ok ()))
    (reply : Except SinkError Unit) :
    Delivery bytes (log ++ [⟨.shutdown, reply.map fun _ => 0⟩])
      (failureOf? reply) := by
  have haccepted : accepted
      (log ++ [⟨.shutdown, reply.map fun _ => 0⟩]) = bytes := by
    rw [accepted, List.flatMap_append, ← accepted,
      hwriting.accepted_eq_iff.mpr rfl]
    exact List.append_nil bytes
  have hwritten : AllWritten
      (log ++ [⟨.shutdown, reply.map fun _ => 0⟩]) := by
    intro exchange hmem hwrite
    rcases List.mem_append.mp hmem with hmem | hmem
    · exact hwriting.allWritten_iff.mpr rfl exchange hmem hwrite
    · rw [List.mem_singleton.mp hmem] at hwrite
      cases hwrite
  refine ⟨?_, haccepted ▸ List.prefix_rfl, ?_, ?_, ?_⟩
  · intro exchange hmem
    rcases List.mem_append.mp hmem with hmem | hmem
    · exact Or.inl (hwriting.isWrite exchange hmem)
    · rw [List.mem_singleton.mp hmem]
      exact Or.inr rfl
  · exact ⟨fun _ => hwritten, fun _ => haccepted⟩
  · exact ⟨fun _ => hwritten, fun _ =>
      ⟨_, List.mem_append_right log List.mem_cons_self, rfl⟩⟩
  · rw [failures, List.filterMap_append, ← failures, hwriting.failures_eq]
    cases reply with
    | ok => rfl
    | error error => rfl

/-- A watched sink is delivered to as the sink itself is. -/
theorem Watched.deliver {σ : Type} [Sink σ] (watched : Watched σ)
    (bytes : List UInt8) :
    ∃ log,
      Sink.deliver watched bytes =
        ((Sink.deliver watched.sink bytes).1,
          ⟨(Sink.deliver watched.sink bytes).2, watched.log ++ log⟩) ∧
      Delivery bytes log (failureOf? (Sink.deliver watched.sink bytes).1) := by
  obtain ⟨log, hlog, hwriting⟩ := watched.writeAll_writing bytes
  rw [Sink.deliver, Sink.deliver, hlog]
  generalize Sink.writeAll watched.sink bytes = answer at hwriting
  obtain ⟨result, sink⟩ := answer
  cases result with
  | error error => exact ⟨log, rfl, hwriting.delivery⟩
  | ok =>
      have hshutdown : Sink.shutdown
            (⟨sink, watched.log ++ log⟩ : Watched σ) =
          Watched.record ⟨sink, watched.log ++ log⟩ .shutdown (fun _ => 0)
            (Sink.shutdown sink) := rfl
      refine ⟨_, ?_, hwriting.delivery_shutdown (Sink.shutdown sink).1⟩
      change Sink.shutdown (⟨sink, watched.log ++ log⟩ : Watched σ) = _
      rw [hshutdown, Watched.record, List.append_assoc]

end Stencil
