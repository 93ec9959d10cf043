/-
A sink with bounds: it takes only so many bytes in all and only so many at a
time, and it can refuse to be shut down.
-/
import Stencil.Sink

namespace Stencil

structure BoundedSink where
  stored : List UInt8
  closed : Bool
  /-- How many bytes it takes in all. -/
  limit : Option Nat
  /-- How many bytes it takes at a time. -/
  chunk : Option Nat
  /-- Why it refuses to be shut down. -/
  shutdownError : Option String
  deriving DecidableEq, Repr

/-- The number of bytes of an offer that a bound leaves. -/
def boundedBy (bound : Option Nat) (count : Nat) : Nat :=
  match bound with
  | none => count
  | some most => min most count

/-- The failure of writing to a sink that holds all it takes. -/
def SinkError.full : SinkError := ⟨.other, "sink full"⟩

/-- Whether a sink holds all that it takes. -/
def BoundedSink.isFull (sink : BoundedSink) : Bool :=
  match sink.limit with
  | none => false
  | some most => most ≤ sink.stored.length

/-- How many bytes of an offer a sink takes. -/
def BoundedSink.room (sink : BoundedSink) (count : Nat) : Nat :=
  boundedBy (sink.limit.map (fun most => most - sink.stored.length))
    (boundedBy sink.chunk count)

/-- A sink that was shut down still takes bytes. -/
instance : Sink BoundedSink where
  write sink bytes :=
    if sink.isFull then (.error .full, sink)
    else
      let count := sink.room bytes.length
      (.ok count, { sink with stored := sink.stored ++ bytes.take count })
  flush sink := (.ok (), sink)
  shutdown sink :=
    match sink.shutdownError with
    | some text => (.error ⟨.other, text⟩, sink)
    | none => (.ok (), { sink with closed := true })

end Stencil
