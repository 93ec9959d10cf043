/-
A sink that keeps what it is given, and handles that share such sinks.

All handles made from one response by cloning see the same data and the same
closed flag; handles of different responses never meet.
-/
import Stencil.Sink
import Stencil.Utf8

namespace Stencil

structure Response where
  bytes : List UInt8
  /-- Shut down: nothing can be written any more. -/
  closed : Bool
  deriving DecidableEq, Repr

/-- An open response without data. -/
def Response.fresh : Response := ⟨[], false⟩

instance : Inhabited Response := ⟨.fresh⟩

/-- What was written so far, read as text. -/
def Response.text (response : Response) : String := ofUtf8Lossy response.bytes

/-- Replace the data.  This works on a closed response, which stays closed. -/
def Response.setText (response : Response) (text : String) : Response :=
  { response with bytes := utf8 text }

/-- The failure of writing to a response that was shut down. -/
def SinkError.alreadyEnded : SinkError :=
  ⟨.brokenPipe, "response already ended"⟩

instance : Sink Response where
  write response bytes :=
    if response.closed then (.error .alreadyEnded, response)
    else (.ok bytes.length, { response with bytes := response.bytes ++ bytes })
  flush response := (.ok (), response)
  shutdown response := (.ok (), { response with closed := true })

/-- Responses and the handles to them: a handle is the place of its response
in the list. -/
structure ResponseDesk where
  responses : List Response
  handles : List Nat
  deriving DecidableEq, Repr

/-- One response with one handle. -/
def ResponseDesk.initial : ResponseDesk := ⟨[.fresh], [0]⟩

/-- What can be done with a handle. -/
inductive ResponseOp where
  | writeAll (bytes : List UInt8)
  | setText (text : String)
  | flush
  | shutdown
  /-- Make one more handle to the same response. -/
  | clone
  /-- Make a handle to a response of its own. -/
  | fresh
  deriving DecidableEq, Repr

/-- The response that a handle leads to. -/
def ResponseDesk.response (desk : ResponseDesk) (handle : Nat) : Response :=
  ((desk.handles[handle]?).bind (fun place => desk.responses[place]?)).getD
    .fresh

/-- Put the changed response of a handle back. -/
def ResponseDesk.replace (desk : ResponseDesk) (handle : Nat)
    (response : Response) : ResponseDesk :=
  match desk.handles[handle]? with
  | none => desk
  | some place =>
      { desk with responses := desk.responses.set place response }

/-- Do one operation through a handle.  New handles go to the end. -/
def ResponseDesk.apply (desk : ResponseDesk) (handle : Nat) :
    ResponseOp → Except SinkError Unit × ResponseDesk
  | .writeAll bytes =>
      let (result, response) := Sink.writeAll (desk.response handle) bytes
      (result, desk.replace handle response)
  | .setText text =>
      (.ok (), desk.replace handle ((desk.response handle).setText text))
  | .flush =>
      let (result, response) := Sink.flush (desk.response handle)
      (result, desk.replace handle response)
  | .shutdown =>
      let (result, response) := Sink.shutdown (desk.response handle)
      (result, desk.replace handle response)
  | .clone =>
      match desk.handles[handle]? with
      | none => (.ok (), desk)
      | some place =>
          (.ok (), { desk with handles := desk.handles ++ [place] })
  | .fresh =>
      (.ok (),
        { responses := desk.responses ++ [.fresh]
          handles := desk.handles ++ [desk.responses.length] })

end Stencil
