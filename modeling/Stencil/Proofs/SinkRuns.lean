/-
What runs on a sink.  A script reaches the sink through its calls only, and
handlers do not reach it; the calls that the scripts of a pass make, in order,
are all that happens to the sink before the page is delivered.
-/
import Stencil.Proofs.Journal
import Stencil.Proofs.PageRuns

namespace Stencil

variable {μ σ : Type}

theorem Handler.sink_run (handler : Handler μ) (host : Host μ σ) :
    (handler.run host).2.sink = host.sink := by
  induction handler generalizing host with
  | done => rfl
  | fail fault => rfl
  | act op next ih => exact ih _ _
  | look next ih => exact ih _ host
  | «recall» next ih => exact ih _ host
  | remember memory next ih => exact ih _

theorem Host.sink_read (host : Host μ σ) (most : Option Nat) :
    (host.read most).2.sink = host.sink := by
  rw [read]
  split <;> rfl

variable [Sink σ]

/-- The sink after calls, whatever the replies. -/
def Sink.callAll (sink : σ) (calls : List SinkCall) : σ :=
  calls.foldl (fun sink call => (Sink.call sink call).2) sink

theorem Sink.callAll_append (sink : σ) (first second : List SinkCall) :
    Sink.callAll sink (first ++ second) =
      Sink.callAll (Sink.callAll sink first) second :=
  List.foldl_append

theorem Host.sink_send (host : Host μ σ) (call : SinkCall) :
    (host.send call).2.sink =
      host.sink.map (fun sink => (Sink.call sink call).2) := by
  rw [send]
  cases hsink : host.sink with
  | none => exact hsink
  | some sink => rfl

/-- The calls that a run of a script makes before it ends, in order. -/
def Script.sinkCalls (limit : Option Nat) :
    Script μ → Nat → Host μ σ → List SinkCall
  | .done, _, _ => []
  | .fail _, _, _ => []
  | .append text next, waited, host =>
      next.sinkCalls limit waited { host with page := host.page.plain text }
  | .appendLine text next, waited, host =>
      next.sinkCalls limit waited
        { host with page := host.page.plainLine text }
  | .requestExit next, waited, host =>
      next.sinkCalls limit waited { host with page := host.page.requestExit }
  | .read most next, waited, host =>
      let (reply, host) := host.read most
      (next reply).sinkCalls limit waited host
  | .send call next, waited, host =>
      let (reply, host) := host.send call
      call :: (next reply).sinkCalls limit waited host
  | .wait ms next, waited, host =>
      match limit with
      | none => next.sinkCalls none (waited + ms) host
      | some most =>
          if most < waited + ms then []
          else next.sinkCalls (some most) (waited + ms) host
  | .hang, _, _ => []
  | .recall next, waited, host =>
      (next host.memory).sinkCalls limit waited host
  | .remember memory next, waited, host =>
      next.sinkCalls limit waited { host with memory := memory }

theorem Script.sink_run (limit : Option Nat) (script : Script μ)
    (waited : Nat) (host : Host μ σ) :
    (script.run limit waited host).2.sink =
      host.sink.map fun sink =>
        Sink.callAll sink (script.sinkCalls limit waited host) := by
  induction script generalizing waited host with
  | done | fail => exact Option.map_id'.symm
  | append _ next ih | appendLine _ next ih | requestExit next ih
  | remember _ next ih => exact ih waited _
  | read most next ih =>
      have hread := ih (host.read most).1 waited (host.read most).2
      rwa [host.sink_read most] at hread
  | send call next ih =>
      have hsend := ih (host.send call).1 waited (host.send call).2
      rwa [host.sink_send call, Option.map_map] at hsend
  | wait ms next ih =>
      cases limit with
      | none => exact ih _ host
      | some most =>
          simp only [Script.run, Script.sinkCalls]
          split
          · exact Option.map_id'.symm
          · exact ih _ host
  | hang =>
      cases limit with
      | none => exact Option.map_id'.symm
      | some most => exact Option.map_id'.symm
  | «recall» next ih => exact ih _ waited host

/-- The calls on the sink that one effect makes, in order. -/
def Compiler.sinkCalls (compiler : Compiler μ) (effect : Effect)
    (host : Host μ σ) : List SinkCall :=
  match effect with
  | .evaluate code line template =>
      (compiler.evaluator code ⟨template, line, host.page.scope⟩).sinkCalls
        compiler.config.scriptTimeoutMs 0 host
  | .literal _ | .ask _ => []

theorem Compiler.sink_perform (compiler : Compiler μ) (effect : Effect)
    (pass : Pass μ σ) :
    (compiler.perform effect pass).2.host.sink =
      pass.host.sink.map fun sink =>
        Sink.callAll sink (compiler.sinkCalls effect pass.host) := by
  cases effect with
  | literal text => exact Option.map_id'.symm
  | evaluate code line template =>
      rw [compiler.perform_evaluate code line template pass (Prod.eta _).symm]
      exact Script.sink_run _ _ 0 pass.host
  | ask occasion =>
      rw [perform_ask, host_ask, Handler.sink_run]
      exact Option.map_id'.symm

/-- The calls on the sink that effects make one after the other, up to one
that does not end well. -/
def Compiler.sinkCallsOf (compiler : Compiler μ) :
    List Effect → Pass μ σ → List SinkCall
  | [], _ => []
  | effect :: rest, pass =>
      compiler.sinkCalls effect pass.host ++
        match compiler.perform effect pass with
        | (.done, later) => compiler.sinkCallsOf rest later
        | _ => []

theorem Compiler.sink_follow (compiler : Compiler μ) (effects : List Effect)
    (pass : Pass μ σ) :
    (compiler.follow effects pass).2.host.sink =
      pass.host.sink.map fun sink =>
        Sink.callAll sink (compiler.sinkCallsOf effects pass) := by
  induction effects generalizing pass with
  | nil => exact Option.map_id'.symm
  | cons effect rest ih =>
      have hsink := compiler.sink_perform effect pass
      rw [follow_cons, sinkCallsOf]
      generalize compiler.perform effect pass = part at hsink ⊢
      rcases part with ⟨_ | fault | _, later⟩
      · rw [andThen_done, ih, hsink, Option.map_map]
        simp only [Sink.callAll_append]
        rfl
      · rw [List.append_nil]
        exact hsink
      · rw [List.append_nil]
        exact hsink

end Stencil
