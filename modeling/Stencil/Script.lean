/-
Scripts as the requests that they make.  An evaluator turns the code of a
script into such a tree; running the tree answers the requests from the page,
the input and the sink of the pass.

Time is what scripts say they wait.  A limit cuts a script off in the wait
that takes its total above the limit; what it did before stays done.
-/
import Stencil.Page
import Stencil.Sink

namespace Stencil

/-- What the scripts and the handlers of a pass act on. -/
structure Host (μ σ : Type) where
  page : Page
  /-- What is left of the input of the pass. -/
  input : Option (List UInt8)
  sink : Option σ
  /-- What the evaluator and the dialect remember. -/
  memory : μ

/-- A call on a sink.  The reply to a write is the number of bytes taken. -/
inductive SinkCall where
  | write (bytes : List UInt8)
  | writeAll (bytes : List UInt8)
  | flush
  | shutdown
  deriving DecidableEq, Repr

def Sink.call {σ : Type} [Sink σ] (sink : σ) :
    SinkCall → Except SinkError Nat × σ
  | .write bytes => Sink.write sink bytes
  | .writeAll bytes =>
      let (result, sink) := Sink.writeAll sink bytes
      (result.map (fun _ => bytes.length), sink)
  | .flush =>
      let (result, sink) := Sink.flush sink
      (result.map (fun _ => 0), sink)
  | .shutdown =>
      let (result, sink) := Sink.shutdown sink
      (result.map (fun _ => 0), sink)

/-- What is left to do of a script. -/
inductive Script (μ : Type) where
  | done
  | fail (error : ScriptError)
  /-- Write as literal text is written. -/
  | append (text : String) (next : Script μ)
  | appendLine (text : String) (next : Script μ)
  | requestExit (next : Script μ)
  /-- Read from the input, up to a number of bytes or to its end; without an
  input the reply is `none`. -/
  | read (most : Option Nat) (next : Option (List UInt8) → Script μ)
  /-- Call the sink; without one the reply is `none`. -/
  | send (call : SinkCall)
      (next : Option (Except SinkError Nat) → Script μ)
  | wait (ms : Nat) (next : Script μ)
  /-- Never settle. -/
  | hang
  | recall (next : μ → Script μ)
  | remember (memory : μ) (next : Script μ)

/-- What a script is told at its start. -/
structure ScriptView where
  template : String
  /-- The source line on which the script starts. -/
  line : Nat
  scope : Scope

/-- What gives code its meaning. -/
abbrev Evaluator (μ : Type) := String → ScriptView → Script μ

/-- How a script ended. -/
inductive ScriptEnd where
  | settled
  | failed (error : ScriptError)
  /-- Cut off by a limit, in milliseconds. -/
  | overdue (limit : Nat)
  /-- It never settles, and no limit cuts it off. -/
  | stuck
  deriving DecidableEq, Repr

variable {μ σ : Type}

/-- Read from the input. -/
def Host.read (host : Host μ σ) (most : Option Nat) :
    Option (List UInt8) × Host μ σ :=
  match host.input with
  | none => (none, host)
  | some bytes =>
      let count := most.getD bytes.length
      (some (bytes.take count), { host with input := some (bytes.drop count) })

/-- Call the sink. -/
def Host.send [Sink σ] (host : Host μ σ) (call : SinkCall) :
    Option (Except SinkError Nat) × Host μ σ :=
  match host.sink with
  | none => (none, host)
  | some sink =>
      let (reply, sink) := Sink.call sink call
      (some reply, { host with sink := some sink })

/-- Run a script that has waited for `waited` milliseconds so far. -/
def Script.run [Sink σ] (limit : Option Nat) :
    Script μ → Nat → Host μ σ → ScriptEnd × Host μ σ
  | .done, _, host => (.settled, host)
  | .fail error, _, host => (.failed error, host)
  | .append text next, waited, host =>
      next.run limit waited { host with page := host.page.plain text }
  | .appendLine text next, waited, host =>
      next.run limit waited { host with page := host.page.plainLine text }
  | .requestExit next, waited, host =>
      next.run limit waited { host with page := host.page.requestExit }
  | .read most next, waited, host =>
      let (reply, host) := host.read most
      (next reply).run limit waited host
  | .send call next, waited, host =>
      let (reply, host) := host.send call
      (next reply).run limit waited host
  | .wait ms next, waited, host =>
      match limit with
      | none => next.run none (waited + ms) host
      | some most =>
          if most < waited + ms then (.overdue most, host)
          else next.run (some most) (waited + ms) host
  | .hang, _, host =>
      match limit with
      | none => (.stuck, host)
      | some most => (.overdue most, host)
  | .recall next, waited, host =>
      (next host.memory).run limit waited host
  | .remember memory next, waited, host =>
      next.run limit waited { host with memory := memory }

end Stencil
