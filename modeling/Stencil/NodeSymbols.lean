/-
Reading nodes from the symbols of a text in YAML notation.  The first argument
of a reading bounds how deep it goes.
-/
import Stencil.Node
import Stencil.Symbol

namespace Stencil

/-- What the handles of tags stand for. -/
abbrev Handles := List (String × List UInt8)

/-- What the core tags begin with. -/
def coreTags : List UInt8 := utf8 "tag:yaml.org,2002:"

/-- The handles that are known where nothing is stated. -/
def Handles.stock : Handles := [("!", utf8 "!"), ("!!", coreTags)]

/-- A tag in full.  Its handle is empty, or must be known. -/
def Handles.full? (handles : Handles) (handle : String)
    (suffix : List UInt8) : Option (List UInt8) :=
  if handle = "" then some suffix
  else (handles.lookup handle).map (· ++ suffix)

/-- What may be written before a node: a name for it, and a type. -/
structure Marks where
  anchor : Option String := none
  tag : Option (List UInt8) := none
  deriving DecidableEq, Repr

/-- Read the marks of a node, at most one of each kind. -/
def marks? (handles : Handles) :
    List Symbol → Option (Marks × List Symbol)
  | .anchor name :: .tag handle suffix :: rest
  | .tag handle suffix :: .anchor name :: rest =>
      (handles.full? handle suffix).map fun tag =>
        ({ anchor := name, tag := tag }, rest)
  | .anchor name :: rest => some ({ anchor := name }, rest)
  | .tag handle suffix :: rest =>
      (handles.full? handle suffix).map fun tag => ({ tag := tag }, rest)
  | rest => some ({}, rest)

/-- Whether a symbol ends what belongs to a key or to a dash, outside
brackets. -/
def Symbol.endsInColumn : Symbol → Bool
  | .key => true
  | .colon => true
  | .closeColumn => true
  | _ => false

/-- Whether a symbol ends what belongs to a key, between brackets. -/
def Symbol.endsInBrackets : Symbol → Bool
  | .comma => true
  | .closeBracket => true
  | .closeBrace => true
  | .colon => true
  | _ => false

/-- Whether the next symbol is one of some. -/
def nextIs (are : Symbol → Bool) (symbols : List Symbol) : Bool :=
  symbols.head?.any are

mutual

/-- Read a node.  Outside brackets, `columns` says that it may be a sequence or
a mapping with a column of its own, and `dashes` that it may be a sequence in
the column of the mapping around it. -/
def node? (depth : Nat) (handles : Handles) (columns dashes : Bool)
    (symbols : List Symbol) : Option (Node × List Symbol) :=
  match depth with
  | 0 => none
  | depth + 1 =>
      match symbols with
      | .alias name :: rest => some (.alias name, rest)
      | _ =>
          (marks? handles symbols).bind fun (marks, rest) =>
            content? depth handles columns dashes marks rest

/-- Read a node after its marks.  It may be empty if it has any. -/
def content? (depth : Nat) (handles : Handles) (columns dashes : Bool)
    (marks : Marks) (symbols : List Symbol) : Option (Node × List Symbol) :=
  match depth with
  | 0 => none
  | depth + 1 =>
      let empty? :=
        if marks = {} then none
        else
          some (.scalar marks.anchor { text := "", tag := marks.tag }, symbols)
      match symbols with
      | .scalar value :: rest =>
          some (.scalar marks.anchor { value with tag := marks.tag }, rest)
      | .openBracket :: rest =>
          (bracketItems? depth handles rest).map fun (items, rest) =>
            (.sequence marks.anchor items, rest)
      | .openBrace :: rest =>
          (braceEntries? depth handles rest).map fun (entries, rest) =>
            (.mapping marks.anchor entries, rest)
      | .openItems :: rest =>
          if columns then
            (columnItems? depth handles rest).map fun (items, rest) =>
              (.sequence marks.anchor items, rest)
          else empty?
      | .openEntries :: rest =>
          if columns then
            (columnEntries? depth handles rest).map fun (entries, rest) =>
              (.mapping marks.anchor entries, rest)
          else empty?
      | .dash :: _ =>
          if dashes then
            (dashItems? depth handles symbols).map fun (items, rest) =>
              (.sequence marks.anchor items, rest)
          else empty?
      | _ => empty?

/-- Read the items of a sequence in the column of the mapping around it. -/
def dashItems? (depth : Nat) (handles : Handles) (symbols : List Symbol) :
    Option (List Node × List Symbol) :=
  match depth with
  | 0 => none
  | depth + 1 =>
      match symbols with
      | .dash :: rest => do
          let (item, rest) ←
            if nextIs (fun next => next == .dash || next.endsInColumn) rest
            then some (.empty, rest)
            else node? depth handles true false rest
          let (items, rest) ← dashItems? depth handles rest
          return (item :: items, rest)
      | _ => some ([], symbols)

/-- Read the items of a sequence with a column of its own. -/
def columnItems? (depth : Nat) (handles : Handles) (symbols : List Symbol) :
    Option (List Node × List Symbol) :=
  match depth with
  | 0 => none
  | depth + 1 =>
      match symbols with
      | .closeColumn :: rest => some ([], rest)
      | .dash :: rest => do
          let (item, rest) ←
            if nextIs (fun next => next == .dash || next == .closeColumn) rest
            then some (.empty, rest)
            else node? depth handles true false rest
          let (items, rest) ← columnItems? depth handles rest
          return (item :: items, rest)
      | _ => none

/-- Read the entries of a mapping with a column of its own. -/
def columnEntries? (depth : Nat) (handles : Handles)
    (symbols : List Symbol) : Option (List (Node × Node) × List Symbol) :=
  match depth with
  | 0 => none
  | depth + 1 =>
      match symbols with
      | .closeColumn :: rest => some ([], rest)
      | .key :: rest => do
          let (key, rest) ← columnPart? depth handles rest
          let (value, rest) ← match rest with
            | .colon :: rest => columnPart? depth handles rest
            | _ => some (.empty, rest)
          let (entries, rest) ← columnEntries? depth handles rest
          return ((key, value) :: entries, rest)
      | _ => none

/-- Read a key or a value of such a mapping, which may be empty. -/
def columnPart? (depth : Nat) (handles : Handles) (symbols : List Symbol) :
    Option (Node × List Symbol) :=
  match depth with
  | 0 => none
  | depth + 1 =>
      if nextIs Symbol.endsInColumn symbols then some (.empty, symbols)
      else node? depth handles true true symbols

/-- Read items up to the closing bracket. -/
def bracketItems? (depth : Nat) (handles : Handles) (symbols : List Symbol) :
    Option (List Node × List Symbol) :=
  match depth with
  | 0 => none
  | depth + 1 =>
      match symbols with
      | .closeBracket :: rest => some ([], rest)
      | _ => do
          let (item, rest) ← bracketItem? depth handles symbols
          match rest with
          | .closeBracket :: rest => return ([item], rest)
          | .comma :: rest =>
              let (items, rest) ← bracketItems? depth handles rest
              return (item :: items, rest)
          | _ => none

/-- Read an item between brackets; a key makes it a mapping of one entry.
Where the key itself is missing, the symbol after its sign does not count. -/
def bracketItem? (depth : Nat) (handles : Handles) (symbols : List Symbol) :
    Option (Node × List Symbol) :=
  match depth with
  | 0 => none
  | depth + 1 =>
      match symbols with
      | .key :: rest => do
          let missing := nextIs
            (fun next => next.endsInBrackets && next != .closeBrace) rest
          let (key, rest) ←
            if missing then some (.empty, rest.drop 1)
            else node? depth handles false false rest
          let (value, rest) ←
            bracketValue? depth handles .closeBracket rest
          return (.mapping none [(key, value)], rest)
      | _ => node? depth handles false false symbols

/-- Read a value between brackets, if there is one. -/
def bracketValue? (depth : Nat) (handles : Handles) (close : Symbol)
    (symbols : List Symbol) : Option (Node × List Symbol) :=
  match depth with
  | 0 => none
  | depth + 1 =>
      match symbols with
      | .colon :: rest =>
          if nextIs (fun next => next == .comma || next == close) rest then
            some (.empty, rest)
          else node? depth handles false false rest
      | _ => some (.empty, symbols)

/-- Read entries up to the closing brace. -/
def braceEntries? (depth : Nat) (handles : Handles) (symbols : List Symbol) :
    Option (List (Node × Node) × List Symbol) :=
  match depth with
  | 0 => none
  | depth + 1 =>
      match symbols with
      | .closeBrace :: rest => some ([], rest)
      | _ => do
          let (entry, rest) ← braceEntry? depth handles symbols
          match rest with
          | .closeBrace :: rest => return ([entry], rest)
          | .comma :: rest =>
              let (entries, rest) ← braceEntries? depth handles rest
              return (entry :: entries, rest)
          | _ => none

/-- Read an entry between braces.  What is no key is one without a value. -/
def braceEntry? (depth : Nat) (handles : Handles) (symbols : List Symbol) :
    Option ((Node × Node) × List Symbol) :=
  match depth with
  | 0 => none
  | depth + 1 =>
      match symbols with
      | .key :: rest => do
          let missing := nextIs
            (fun next => next.endsInBrackets && next != .closeBracket) rest
          let (key, rest) ←
            if missing then some (.empty, rest)
            else node? depth handles false false rest
          let (value, rest) ← bracketValue? depth handles .closeBrace rest
          return ((key, value), rest)
      | _ =>
          (node? depth handles false false symbols).map fun (key, rest) =>
            ((key, .empty), rest)

end

end Stencil
