/-
What can go wrong in a pass.  A directive that is not implemented or that a
handler rejects ends the pass; a failed or overdue script and a failing sink
are recovered from and only reported.
-/
import Stencil.Token

namespace Stencil

/-- Why a script failed: a message, or another failure set in context. -/
inductive ScriptError where
  | message (text : String)
  | context (text : String) (inner : ScriptError)
  deriving DecidableEq, Repr

/-- The outermost text of a failure, which is how the failure reads. -/
def ScriptError.text : ScriptError → String
  | .message text => text
  | .context text _ => text

/-- Set a failure in further contexts, the last of them outermost. -/
def ScriptError.within (error : ScriptError) (contexts : List String) :
    ScriptError :=
  contexts.foldl (fun inner text => .context text inner) error

/-- The kinds of failure of a sink. -/
inductive SinkErrorKind where
  /-- The sink was shut down before. -/
  | brokenPipe
  /-- The sink took nothing of what it was given. -/
  | writeZero
  | other
  deriving DecidableEq, Repr

structure SinkError where
  kind : SinkErrorKind
  text : String
  deriving DecidableEq, Repr

inductive Fault where
  /-- No handler for the kind of the directive. -/
  | unimplementedDirective (kind : Token) (line : Nat)
  /-- A handler rejected its directive. -/
  | directive (kind : Token) (line : Nat) (message : String)
  /-- A script failed. -/
  | evaluation (template : String) (line : Nat) (source : ScriptError)
  /-- A script did not settle in time. -/
  | timeout (line : Nat) (afterMs : Nat)
  /-- The page could not be written to the sink. -/
  | sink (source : SinkError)
  deriving DecidableEq, Repr

/-- The text of a fault. -/
def Fault.message : Fault → String
  | .unimplementedDirective kind line =>
      kind.name ++ " directive at line " ++ toString line ++
        " is not implemented by this dialect"
  | .directive kind line message =>
      kind.name ++ " directive at line " ++ toString line ++ ": " ++ message
  | .evaluation template line source =>
      "script in template '" ++ template ++ "' at line " ++ toString line ++
        " failed: " ++ source.text
  | .timeout line afterMs =>
      "script at line " ++ toString line ++ " did not settle within " ++
        toString afterMs ++ " ms"
  | .sink source => "output sink failed: " ++ source.text

/-- Whether a fault of this kind is meant to end a pass. -/
def Fault.isFatal : Fault → Bool
  | .unimplementedDirective .. | .directive .. => true
  | .evaluation .. | .timeout .. | .sink .. => false

/-- The source line that a fault points at, where it has one. -/
def Fault.line? : Fault → Option Nat
  | .unimplementedDirective _ line | .directive _ line _
  | .evaluation _ line _ | .timeout line _ => some line
  | .sink _ => none

/-- The text of the failure underneath a fault, where there is one. -/
def Fault.cause? : Fault → Option String
  | .evaluation _ _ source => some source.text
  | .sink source => some source.text
  | .unimplementedDirective .. | .directive .. | .timeout .. => none

end Stencil
