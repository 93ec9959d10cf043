/-
The record of a template: its source, and what the last pass made of it.
-/
import Stencil.Decimal
import Stencil.Value

namespace Stencil

structure Template where
  /-- Where the template comes from.  Nothing depends on it. -/
  path : String
  name : String
  source : String
  /-- The page of the last pass. -/
  output : String
  /-- For each completed line of the page the source line that it comes from,
  0 where none is known. -/
  lineMap : List Nat
  /-- Milliseconds since the epoch. -/
  createdAt : Int
  deriving DecidableEq, Repr

/-- What a new record takes from outside: a name of its own, and the time. -/
structure Origin where
  freshName : String
  createdAt : Int
  deriving DecidableEq, Repr

/-- A record that no pass has seen.  An empty name counts as none. -/
def Template.build (origin : Origin) (path name source : String) : Template where
  path := path
  name := if name = "" then origin.freshName else name
  source := source
  output := ""
  lineMap := []
  createdAt := origin.createdAt

/-- A template without a name of its own. -/
def Template.anonymous (origin : Origin) (source : String) : Template :=
  .build origin "" "" source

def Template.named (origin : Origin) (name source : String) : Template :=
  .build origin "" name source

/-- A template from a path, and perhaps a name and a source.  With neither,
the path itself is the source.  Empty texts count as absent. -/
def Template.ofPath (origin : Origin) (path : String)
    (name source : Option String) : Template :=
  let name := name.getD ""
  let source := source.getD ""
  .build origin path name
    (if source = "" ∧ name = "" then path else source)

/-- Replace the source.  The page stays until the next pass. -/
def Template.setSource (template : Template) (source : String) : Template :=
  { template with source := source }

/-- Drop the source once it is not needed any more. -/
def Template.finalize (template : Template) : Template :=
  template.setSource ""

/-- The source line that a line of the page comes from, if it is known.  Page
lines are counted from 0, source lines from 1. -/
def Template.sourceLineFor (template : Template) (line : Nat) : Option Nat :=
  template.lineMap[line]?.filter (fun source => 0 < source)

/-- What is kept of a template. -/
structure Snapshot where
  name : String
  source : String
  output : String
  lineMap : List Nat
  createdAt : Int
  deriving DecidableEq, Repr

def Template.snapshot (template : Template) : Snapshot where
  name := template.name
  source := template.source
  output := template.output
  lineMap := template.lineMap
  createdAt := template.createdAt

def Value.text? : Value → Option String
  | .string text => some text
  | _ => none

/-- A whole number between two bounds. -/
def Value.whole? (least most : Int) : Value → Option Int
  | .number (.whole value) =>
      if least ≤ value ∧ value ≤ most then some value else none
  | _ => none

/-- The first whole number that 64 bits with a sign do not hold. -/
def signed64Bound : Int := 9223372036854775808

/-- A list of line numbers. -/
def Value.lines? : Value → Option (List Nat)
  | .array items =>
      (items.mapM (Value.whole? 0 (word64Bound - 1))).map (List.map Int.toNat)
  | _ => none

/-- A snapshot as a value, with its fields by name. -/
def Snapshot.toValue (snapshot : Snapshot) : Value :=
  .object
    [("name", .string snapshot.name), ("source", .string snapshot.source),
      ("compiledOutput", .string snapshot.output),
      ("lineMap", .array (snapshot.lineMap.map
        (fun line => .number (.whole (Int.ofNat line))))),
      ("createdAt", .number (.whole snapshot.createdAt))]

/-- Read a snapshot from its fields, all of which are needed. -/
def Snapshot.ofFields? (name source output lineMap createdAt : Value) :
    Option Snapshot := do
  let name ← name.text?
  let source ← source.text?
  let output ← output.text?
  let lineMap ← lineMap.lines?
  let createdAt ← createdAt.whole? (-signed64Bound) (signed64Bound - 1)
  return ⟨name, source, output, lineMap, createdAt⟩

/-- Read a snapshot from a value.  Its fields stand under their names, or
alone and in order; other fields are ignored. -/
def Snapshot.ofValue? : Value → Option Snapshot
  | .object fields => do
      Snapshot.ofFields? (← fields.lookup "name") (← fields.lookup "source")
        (← fields.lookup "compiledOutput") (← fields.lookup "lineMap")
        (← fields.lookup "createdAt")
  | .array [name, source, output, lineMap, createdAt] =>
      Snapshot.ofFields? name source output lineMap createdAt
  | _ => none

end Stencil
