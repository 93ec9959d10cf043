/-
Sessions: one compiler and one template, and passes with changes of the source
between them.
-/
import Stencil.BoundedSink
import Stencil.Compiler
import Stencil.Response

namespace Stencil

/-- A sink of one of two kinds. -/
inductive Outlet where
  | response (sink : Response)
  | bounded (sink : BoundedSink)
  deriving DecidableEq, Repr

instance : Sink Outlet where
  write
    | .response sink, bytes =>
        let (result, sink) := Sink.write sink bytes
        (result, .response sink)
    | .bounded sink, bytes =>
        let (result, sink) := Sink.write sink bytes
        (result, .bounded sink)
  flush
    | .response sink =>
        let (result, sink) := Sink.flush sink
        (result, .response sink)
    | .bounded sink =>
        let (result, sink) := Sink.flush sink
        (result, .bounded sink)
  shutdown
    | .response sink =>
        let (result, sink) := Sink.shutdown sink
        (result, .response sink)
    | .bounded sink =>
        let (result, sink) := Sink.shutdown sink
        (result, .bounded sink)

structure Session (μ : Type) where
  compiler : Compiler μ
  template : Template
  /-- What the evaluator and the dialect remember between passes. -/
  memory : μ

/-- One step of a session. -/
inductive SessionStep (σ : Type) where
  | render (request : Request σ)
  | setSource (source : String)
  | finalize

variable {μ σ : Type}

/-- Do one step; a pass gives its report. -/
def Session.step [Sink σ] (session : Session μ) :
    SessionStep σ → Option (Report μ σ) × Session μ
  | .render request =>
      let report :=
        session.compiler.render session.template request session.memory
      (some report,
        { session with template := report.template, memory := report.memory })
  | .setSource source =>
      (none, { session with template := session.template.setSource source })
  | .finalize =>
      (none, { session with template := session.template.finalize })

/-- Do steps one after the other, and give what each of them gave. -/
def Session.run [Sink σ] (session : Session μ) :
    List (SessionStep σ) → List (Option (Report μ σ)) × Session μ
  | [] => ([], session)
  | step :: rest =>
      let (report, session) := session.step step
      let (reports, session) := session.run rest
      (report :: reports, session)

end Stencil
