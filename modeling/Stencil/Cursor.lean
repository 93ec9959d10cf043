/-
A place in a text in YAML notation, and moving from there to the next thing
that is written.

Lines end in a line feed, a line separator or a paragraph separator; all
other line breaks are turned into line feeds before anything is read.
-/

namespace Stencil

/-- A space or a tab. -/
def isGap (char : Char) : Bool := char == ' ' || char == '\t'

/-- The characters that end a line. -/
def isBreak (char : Char) : Bool :=
  char == '\n' || char == '\u2028' || char == '\u2029'

/-- A gap or the end of a line. -/
def isSpace (char : Char) : Bool := isGap char || isBreak char

/-- The characters with a line feed for each carriage return, each next line,
and each carriage return together with its line feed. -/
def feedLines : List Char → List Char
  | [] => []
  | '\r' :: '\n' :: rest => '\n' :: feedLines rest
  | char :: rest =>
      (if char = '\r' ∨ char = '\u0085' then '\n' else char) :: feedLines rest

/-- Whether space comes next, or nothing. -/
def spaceNext : List Char → Bool
  | [] => true
  | char :: _ => isSpace char

/-- Whether a sign that stands alone comes next. -/
def signNext (sign : Char) : List Char → Bool
  | [] => false
  | char :: rest => char == sign && spaceNext rest

/-- Whether a line begins here with three times the same sign, alone. -/
def tripleNext (sign : Char) : List Char → Bool
  | first :: second :: rest =>
      first == sign && second == sign && signNext sign rest
  | _ => false

/-- Whether a line begins here with what ends a document: three dashes begin
another, and three dots begin none. -/
def endsDocument (chars : List Char) : Bool :=
  tripleNext '-' chars || tripleNext '.' chars

/-- A place in a text. -/
structure Cursor where
  /-- What is left of the text. -/
  rest : List Char
  /-- The line, counted from 0. -/
  line : Nat
  /-- How many characters of the line have been passed. -/
  column : Nat
  /-- Whether an entry without brackets around it may begin here: nothing but
  spaces has been passed since the line began, or since the sign of an entry. -/
  fresh : Bool
  deriving DecidableEq, Repr

namespace Cursor

/-- The place before a text. -/
def start (chars : List Char) : Cursor := ⟨chars, 0, 0, true⟩

/-- The place after one more character. -/
def step (cursor : Cursor) : Cursor :=
  match cursor.rest with
  | [] => cursor
  | char :: rest =>
      if isBreak char then ⟨rest, cursor.line + 1, 0, cursor.fresh⟩
      else ⟨rest, cursor.line, cursor.column + 1, cursor.fresh⟩

/-- The place after some more characters. -/
def pass : Nat → Cursor → Cursor
  | 0, cursor => cursor
  | count + 1, cursor => pass count cursor.step

/-- The place where the given characters are left. -/
def leave (cursor : Cursor) (left : List Char) (fresh : Bool) : Cursor :=
  { pass (cursor.rest.length - left.length) cursor with fresh := fresh }

theorem rest_step (cursor : Cursor) :
    cursor.step.rest = cursor.rest.drop 1 := by
  unfold step
  split
  · next hrest => simp [hrest]
  · next hrest => split <;> simp [hrest]

theorem rest_pass (count : Nat) (cursor : Cursor) :
    (pass count cursor).rest = cursor.rest.drop count := by
  induction count generalizing cursor with
  | zero => rfl
  | succ count ih => rw [pass, ih, rest_step, List.drop_drop, Nat.add_comm]

/-- What is left is what was to be left. -/
theorem rest_leave {cursor : Cursor} {taken left : List Char}
    (h : cursor.rest = taken ++ left) (fresh : Bool) :
    (cursor.leave left fresh).rest = left := by
  simp [leave, rest_pass, h]

/-- Skip spaces, comments and line breaks.  Where an entry may begin a tab is
not skipped, unless brackets are open.  A byte order mark may begin a line. -/
def skipFrom (brackets comment : Bool) (line column : Nat) (fresh : Bool) :
    List Char → Cursor
  | [] => ⟨[], line, column, fresh⟩
  | char :: rest =>
      if isBreak char then
        skipFrom brackets false (line + 1) 0 (fresh || !brackets) rest
      else if comment || char == '#' then
        skipFrom brackets true line (column + 1) fresh rest
      else if char == ' ' || (char == '\t' && (brackets || !fresh)) ||
          (char == '\uFEFF' && column == 0) then
        skipFrom brackets false line (column + 1) fresh rest
      else ⟨char :: rest, line, column, fresh⟩

def skip (cursor : Cursor) (brackets : Bool) : Cursor :=
  skipFrom brackets false cursor.line cursor.column cursor.fresh cursor.rest

end Cursor

end Stencil
