/-
The outline of a text in YAML notation: its symbols in order.

Outside brackets the layout counts.  A sequence or a mapping begins where a
dash or a key stands further right than the column of the one around it, and
ends before the first thing that stands further left than its own column.  A
key is known only when its colon is found, so the place where one may have
begun is kept.
-/
import Stencil.Span
import Stencil.Symbol

namespace Stencil

/-- A place where a key may have begun that no question mark announces. -/
structure KeyStart where
  cursor : Cursor
  /-- How many symbols stand before the key. -/
  count : Nat
  /-- Whether a colon must follow, since the column of a sequence or a mapping
  can hold nothing else. -/
  needed : Bool
  deriving DecidableEq, Repr

/-- How many bytes such a key may take. -/
def keyReach : Nat := 1024

/-- Whether a key that begins at one place may be followed by its colon at
another: on the same line, and not too far. -/
def Cursor.reaches (start colon : Cursor) : Bool :=
  start.line == colon.line &&
    decide (byteWidth (start.rest.take (colon.column - start.column)) ≤
      keyReach)

/-- What has been read of a text. -/
structure Outline where
  cursor : Cursor
  /-- The symbols, the last one first. -/
  symbols : List Symbol := []
  /-- The columns of the open sequences and mappings, the innermost first. -/
  columns : List Nat := []
  /-- Where a key may have begun, between the innermost brackets. -/
  key : Option KeyStart := none
  /-- Where a key may have begun outside each of the open brackets. -/
  outer : List (Option KeyStart) := []
  deriving DecidableEq, Repr

namespace Outline

def inBrackets (outline : Outline) : Bool := !outline.outer.isEmpty

/-- The first column that is inside the innermost sequence or mapping. -/
def floor (outline : Outline) : Nat :=
  match outline.columns with
  | [] => 0
  | column :: _ => column + 1

/-- The outline after one more symbol, and with another place. -/
def add (outline : Outline) (symbol : Symbol) (cursor : Cursor) : Outline :=
  { outline with cursor := cursor, symbols := symbol :: outline.symbols }

/-- The outline after a symbol that is one character. -/
def addSign (outline : Outline) (symbol : Symbol) (fresh : Bool) : Outline :=
  outline.add symbol { outline.cursor.step with fresh := fresh }

/-- No key has begun, unless one must have. -/
def dropKey? (outline : Outline) : Option Outline :=
  if outline.key.any KeyStart.needed then none
  else some { outline with key := none }

/-- A key may begin here, if an entry may. -/
def startKey? (outline : Outline) : Option Outline :=
  if outline.cursor.fresh then
    outline.dropKey?.map fun outline =>
      { outline with
        key := some
          { cursor := outline.cursor
            count := outline.symbols.length
            needed := !outline.inBrackets &&
              outline.columns.head? == some outline.cursor.column } }
  else some outline

/-- Begin a sequence or a mapping, if its column lies further right than that
of the innermost one. -/
def openColumn (outline : Outline) (column : Nat) (symbol : Symbol) :
    Outline :=
  if outline.inBrackets || outline.columns.head?.any (column ≤ ·) then outline
  else
    { outline with
      columns := column :: outline.columns
      symbols := symbol :: outline.symbols }

/-- End sequences and mappings, up to the first that stays open. -/
def closeFrom (stays : Nat → Bool) :
    List Nat → List Symbol → List Nat × List Symbol
  | [], symbols => ([], symbols)
  | column :: columns, symbols =>
      if stays column then (column :: columns, symbols)
      else closeFrom stays columns (.closeColumn :: symbols)

def closeColumns (outline : Outline) (stays : Nat → Bool) : Outline :=
  if outline.inBrackets then outline
  else
    let (columns, symbols) :=
      closeFrom stays outline.columns outline.symbols
    { outline with columns := columns, symbols := symbols }

/-- Go on to the next thing, and end what stands further right. -/
def settle (outline : Outline) : Outline :=
  let cursor := outline.cursor.skip outline.inBrackets
  { outline with cursor := cursor }.closeColumns (· ≤ cursor.column)

/-- A colon before which no key has begun. -/
def loneColon? (outline : Outline) : Option Outline :=
  if outline.inBrackets then some (outline.addSign .colon false)
  else if outline.cursor.fresh then
    some ((outline.openColumn outline.cursor.column .openEntries).addSign
      .colon true)
  else none

/-- A colon.  Where a key has begun, the sign for it is put before it. -/
def colon? (outline : Outline) : Option Outline :=
  match outline.key with
  | none => outline.loneColon?
  | some key =>
      let outline := { outline with key := none }
      if key.cursor.reaches outline.cursor then
        let later := outline.symbols.length - key.count
        let earlier := { outline with symbols := outline.symbols.drop later }
        let earlier := earlier.openColumn key.cursor.column .openEntries
        some ({ earlier with
          symbols := outline.symbols.take later ++ Symbol.key :: earlier.symbols
          }.addSign .colon false)
      else if key.needed then none
      else outline.loneColon?

/-- A sign that announces an item or a key.  Outside brackets it stands where
an entry may begin. -/
def announce? (outline : Outline) (opening symbol : Symbol) (fresh : Bool) :
    Option Outline :=
  if outline.inBrackets || outline.cursor.fresh then
    (outline.openColumn outline.cursor.column opening).dropKey?.map
      fun outline => outline.addSign symbol fresh
  else none

/-- An opening bracket or brace. -/
def enter? (outline : Outline) (symbol : Symbol) : Option Outline :=
  outline.startKey?.map fun outline =>
    { outline with key := none, outer := outline.key :: outline.outer }.addSign
      symbol true

/-- A closing bracket or brace.  It is a sign even where none is open. -/
def leave? (outline : Outline) (symbol : Symbol) : Option Outline :=
  outline.dropKey?.map fun outline =>
    { outline with
      key := outline.outer.head?.join
      outer := outline.outer.drop 1 }.addSign symbol false

/-- What begins or ends a document, or stands before one. -/
def boundary? (outline : Outline) : Option Outline :=
  (outline.closeColumns (fun _ => false)).dropKey?

/-- Three times the same sign, alone. -/
def tripleSign? (outline : Outline) (symbol : Symbol) : Option Outline :=
  outline.boundary?.map fun outline =>
    outline.add symbol { outline.cursor.pass 3 with fresh := false }

/-- Something that is read from the characters after the next one, and with
which a key may begin. -/
def read? (outline : Outline)
    (read : List Char → Option (Symbol × List Char)) : Option Outline :=
  outline.startKey?.bind fun outline =>
    (read (outline.cursor.rest.drop 1)).map fun (symbol, left) =>
      outline.add symbol (outline.cursor.leave left false)

/-- Read a tag, after which space must follow, or between brackets a comma. -/
def readTag? (brackets : Bool) (chars : List Char) :
    Option (Symbol × List Char) :=
  (tag? chars).bind fun ((handle, suffix), left) =>
    if spaceNext left || (brackets && left.head? == some ',') then
      some (.tag handle suffix, left)
    else none

/-- Read a scalar on lines of its own, or another one, with which a key may
begin. -/
def readScalar? (outline : Outline) : Option Outline :=
  if !outline.inBrackets && beginsBlock outline.cursor.rest then
    outline.dropKey?.bind fun outline =>
      (blockScalar? outline.floor outline.cursor).map fun (value, cursor) =>
        outline.add (.scalar value) cursor
  else
    outline.startKey?.bind fun outline =>
      (scalar? outline.inBrackets outline.floor outline.cursor).map
        fun (value, cursor) => outline.add (.scalar value) cursor

/-- Read the next thing. -/
def next? (outline : Outline) : Option Outline :=
  let rest := outline.cursor.rest
  let alone (sign : Char) : Bool :=
    rest.head? == some sign && (outline.inBrackets || signNext sign rest)
  if outline.cursor.column == 0 && rest.head? == some '%' then
    outline.boundary?.bind fun outline =>
      (directive? (rest.drop 1)).map fun (symbol, left) =>
        outline.add symbol (outline.cursor.leave left false)
  else if outline.cursor.column == 0 && tripleNext '-' rest then
    outline.tripleSign? .documentStart
  else if outline.cursor.column == 0 && tripleNext '.' rest then
    outline.tripleSign? .documentEnd
  else if signNext '-' rest then outline.announce? .openItems .dash true
  else if alone '?' then
    outline.announce? .openEntries .key (!outline.inBrackets)
  else if alone ':' then outline.colon?
  else
    match rest.head? with
    | some '[' => outline.enter? .openBracket
    | some '\x7b' => outline.enter? .openBrace
    | some ']' => outline.leave? .closeBracket
    | some '\x7d' => outline.leave? .closeBrace
    | some ',' =>
        outline.dropKey?.map fun outline => outline.addSign .comma true
    | some '*' =>
        outline.read? fun chars =>
          (name? chars).map fun (name, left) => (.alias name, left)
    | some '&' =>
        outline.read? fun chars =>
          (name? chars).map fun (name, left) => (.anchor name, left)
    | some '!' => outline.read? (readTag? outline.inBrackets)
    | _ => outline.readScalar?

/-- Read to the end.  The number bounds how many things are read. -/
def finish? : Nat → Outline → Option (List Symbol)
  | 0, _ => none
  | most + 1, outline =>
      let outline := outline.settle
      if outline.cursor.rest.isEmpty then
        outline.boundary?.map fun outline => outline.symbols.reverse
      else outline.next?.bind (finish? most)

end Outline

/-- The symbols of a text. -/
def symbols? (chars : List Char) : Option (List Symbol) :=
  Outline.finish? (chars.length + 1) { cursor := .start (feedLines chars) }

end Stencil
