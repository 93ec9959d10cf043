/-
Destinations for bytes.  A sink may take less than it is offered, so a whole
text is written by offering what is left until nothing is.
-/
import Stencil.Fault

namespace Stencil

/-- A destination for bytes, as a machine: each call gives a result and the
sink as it is afterwards. -/
class Sink (σ : Type) where
  /-- Offer bytes; the result is how many of them, from the first on, were
  taken. -/
  write : σ → List UInt8 → Except SinkError Nat × σ
  flush : σ → Except SinkError Unit × σ
  shutdown : σ → Except SinkError Unit × σ

/-- The failure of a sink that takes nothing of what it is offered. -/
def SinkError.wroteNothing : SinkError := ⟨.writeZero, "write zero"⟩

/-- Write all of the bytes, offering the rest again as long as some are taken.
No bytes at all are written without a call. -/
def Sink.writeAll {σ : Type} [Sink σ] (sink : σ) (bytes : List UInt8) :
    Except SinkError Unit × σ :=
  match bytes with
  | [] => (.ok (), sink)
  | byte :: rest =>
      match Sink.write sink (byte :: rest) with
      | (.error error, sink) => (.error error, sink)
      | (.ok 0, sink) => (.error .wroteNothing, sink)
      | (.ok (count + 1), sink) => Sink.writeAll sink (rest.drop count)
termination_by bytes.length
decreasing_by
  simp only [List.length_drop, List.length_cons]
  omega

/-- Write all of the bytes, and shut the sink down if that went well. -/
def Sink.deliver {σ : Type} [Sink σ] (sink : σ) (bytes : List UInt8) :
    Except SinkError Unit × σ :=
  match Sink.writeAll sink bytes with
  | (.ok (), sink) => Sink.shutdown sink
  | (.error error, sink) => (.error error, sink)

end Stencil
