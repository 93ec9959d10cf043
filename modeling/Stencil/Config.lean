/-
The settings of a compiler.
-/

namespace Stencil

/-- What happens after an exit has been requested. -/
inductive ExitPolicy where
  /-- The page is frozen, and the rest of the source is still scanned: later
  scripts run, and what they write is dropped. -/
  | suppressOutput
  /-- The scan stops before the next span. -/
  | abortScan
  deriving DecidableEq, Repr

def ExitPolicy.name : ExitPolicy → String
  | .suppressOutput => "suppress_output"
  | .abortScan => "abort_scan"

def ExitPolicy.ofName? : String → Option ExitPolicy
  | "suppress_output" => some .suppressOutput
  | "abort_scan" => some .abortScan
  | _ => none

structure Config where
  /-- What a mark writes before the number of the source line. -/
  lineMarker : String := "// line "
  exitPolicy : ExitPolicy := .suppressOutput
  /-- Trim the bodies of scripts, and take a tag around them off. -/
  stripScriptTags : Bool := true
  /-- Drop one line break from the beginning of the text after a comment. -/
  swallowCommentLineBreak : Bool := false
  /-- How long one script may take, in milliseconds. -/
  scriptTimeoutMs : Option Nat := none
  deriving DecidableEq, Repr

instance : Inhabited Config := ⟨{}⟩

end Stencil
