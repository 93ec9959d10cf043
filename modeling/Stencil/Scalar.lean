/-
Scalars in YAML notation, plain or between quotation marks.

A scalar may go on over several lines.  A single line break between two words
stands for a space; of several, all but the first stand for themselves.
-/
import Stencil.Cursor
import Stencil.Decimal

namespace Stencil

/-- How a scalar was written. -/
inductive ScalarStyle where
  | plain
  | quoted
  | literal
  | folded
  deriving DecidableEq, Repr

structure Scalar where
  text : String
  style : ScalarStyle := .plain
  /-- The type that it is given, in octets. -/
  tag : Option (List UInt8) := none
  deriving DecidableEq, Repr

/-- What the space between two words stands for. -/
def foldSpace (space : List Char) : List Char :=
  match space.filter isBreak with
  | [] => space
  | ['\n'] => [' ']
  | '\n' :: more => more
  | breaks => breaks

theorem foldSpace_of_no_breaks {space : List Char}
    (h : ∀ char ∈ space, isBreak char = false) : foldSpace space = space := by
  have hnone : space.filter isBreak = [] := by
    rw [List.filter_eq_nil_iff]
    intro char hmem
    simp [h char hmem]
  simp [foldSpace, hnone]

/-- The characters that delimit entries between brackets. -/
def isBracket (char : Char) : Bool :=
  char == ',' || char == '[' || char == ']' || char == '\x7b' ||
    char == '\x7d'

/-- The characters that no plain scalar begins with. -/
def isIndicator (char : Char) : Bool :=
  isBracket char || char == '#' || char == '&' || char == '*' ||
    char == '!' || char == '|' || char == '>' || char == '\'' ||
    char == '"' || char == '%' || char == '@' || char == '\x60'

/-- Whether a plain scalar begins here.  A dash, a question mark or a colon
begins one only before something that is not space. -/
def beginsPlain (brackets : Bool) : List Char → Bool
  | [] => false
  | char :: rest =>
      if char == '-' then !spaceNext rest
      else if char == '?' || char == ':' then !brackets && !spaceNext rest
      else !isIndicator char && !isSpace char

/-- Whether a plain scalar ends before these characters: at a colon that
stands alone, and between brackets also at a delimiter. -/
def endsPlain (brackets : Bool) : List Char → Bool
  | [] => true
  | char :: rest =>
      (char == ':' && spaceNext rest) || (brackets && isBracket char)

/-- Whether these characters are a colon that may not stand between brackets:
one directly before a delimiter. -/
def strayColon : List Char → Bool
  | ':' :: next :: _ => isBracket next || next == '?'
  | _ => false

/-- How many characters of a line a space has filled since its last line
break.  The space is given backwards. -/
def lineFill (space : List Char) : Nat :=
  (space.takeWhile (fun char => !isBreak char)).length

/-- Whether a plain scalar ends after a space, which is given backwards: at a
comment, at the end of the document, and, without brackets, on a line that is
not indented enough. -/
def endsAfterSpace (brackets : Bool) (floor : Nat) (space : List Char)
    (chars : List Char) : Bool :=
  chars.head? == some '#' ||
    (space.any isBreak &&
      ((lineFill space == 0 && endsDocument chars) ||
        (!brackets && decide (lineFill space < floor))))

/-- Read on in a plain scalar.  Gives its text, the characters that are left,
and whether a line has begun since the last word.  The space since that word
is given backwards. -/
def plainText? (brackets : Bool) (floor : Nat) (space : List Char) :
    List Char → Option (List Char × List Char × Bool)
  | [] => some ([], [], space.any isBreak)
  | char :: rest =>
      if isSpace char then
        if char == '\t' && space.any isBreak &&
            decide (lineFill space < floor) then none
        else plainText? brackets floor (char :: space) rest
      else if !space.isEmpty &&
          endsAfterSpace brackets floor space (char :: rest) then
        some ([], char :: rest, space.any isBreak)
      else if brackets && strayColon (char :: rest) then none
      else if endsPlain brackets (char :: rest) then
        some ([], char :: rest, space.any isBreak)
      else
        (plainText? brackets floor [] rest).map fun (text, left, fresh) =>
          (foldSpace space.reverse ++ char :: text, left, fresh)

/-- What comes next between quotation marks: the closing mark, a character
that is written with `more` further ones, or a line break that joins. -/
inductive QuotedPiece where
  | close
  | char (char : Char) (more : Nat)
  | join
  deriving DecidableEq, Repr

/-- Between single quotation marks the mark itself is written twice. -/
def singlePiece? (char : Char) (rest : List Char) : Option QuotedPiece :=
  if char = '\'' then
    if rest.head? = some '\'' then some (.char '\'' 1) else some .close
  else some (.char char 0)

/-- What a backslash and one letter stand for. -/
def escaped? : Char → Option Char
  | '0' => some '\x00'
  | 'a' => some '\x07'
  | 'b' => some '\x08'
  | 't' => some '\t'
  | '\t' => some '\t'
  | 'n' => some '\n'
  | 'v' => some '\x0b'
  | 'f' => some '\x0c'
  | 'r' => some '\r'
  | 'e' => some '\x1b'
  | ' ' => some ' '
  | '"' => some '"'
  | '/' => some '/'
  | '\\' => some '\\'
  | 'N' => some '\u0085'
  | '_' => some '\u00a0'
  | 'L' => some '\u2028'
  | 'P' => some '\u2029'
  | _ => none

/-- The letters that hexadecimal digits follow, and how many. -/
def escapedWidth? : Char → Option Nat
  | 'x' => some 2
  | 'u' => some 4
  | 'U' => some 8
  | _ => none

/-- The character that some hexadecimal digits number. -/
def hexChar? (digits : List Char) : Option Char :=
  (digits.mapM hexDigit?).bind fun values =>
    let code := valueInBase 16 values
    if code < 0xD800 ∨ (0xDFFF < code ∧ code ≤ 0x10FFFF) then
      some (Char.ofNat code)
    else none

/-- Between double quotation marks a backslash escapes. -/
def doublePiece? (char : Char) (rest : List Char) : Option QuotedPiece :=
  if char = '"' then some .close
  else if char = '\\' then
    match rest with
    | [] => none
    | code :: digits =>
        if isBreak code then some .join
        else
          match escapedWidth? code with
          | some width =>
              if width ≤ digits.length then
                (hexChar? (digits.take width)).map fun char =>
                  .char char (width + 1)
              else none
          | none => (escaped? code).map fun char => .char char 1
  else some (.char char 0)

/-- What the space between two words stands for where a line break before it
has been escaped, or where none has been. -/
def joinSpace (joined : Bool) (space : List Char) : List Char :=
  if joined then space.filter isBreak else foldSpace space

/-- Read on between quotation marks, after passing `more` characters.  Gives
the text and the characters that are left.  The space since the last word is
given backwards; `joined` says that an escaped line break came before it. -/
def quotedText? (piece? : Char → List Char → Option QuotedPiece) (more : Nat)
    (joined : Bool) (space : List Char) :
    List Char → Option (List Char × List Char)
  | [] => none
  | char :: rest =>
      match more with
      | more + 1 => quotedText? piece? more joined space rest
      | 0 =>
          if isSpace char then
            quotedText? piece? 0 joined (char :: space) rest
          else if (space.head?.any isBreak || (joined && space.isEmpty)) &&
              endsDocument (char :: rest) then none
          else
            let between := joinSpace joined space.reverse
            match piece? char rest with
            | none => none
            | some .close => some (between, rest)
            | some (.char char more) =>
                (quotedText? piece? more false [] rest).map
                  fun (text, left) => (between ++ char :: text, left)
            | some .join =>
                (quotedText? piece? 1 true [] rest).map
                  fun (text, left) => (between ++ text, left)

/-- Read a scalar that is plain or between quotation marks. -/
def scalar? (brackets : Bool) (floor : Nat) (cursor : Cursor) :
    Option (Scalar × Cursor) :=
  match cursor.rest with
  | '"' :: rest =>
      (quotedText? doublePiece? 0 false [] rest).map fun (text, left) =>
        (⟨String.ofList text, .quoted, none⟩, cursor.leave left false)
  | '\'' :: rest =>
      (quotedText? singlePiece? 0 false [] rest).map fun (text, left) =>
        (⟨String.ofList text, .quoted, none⟩, cursor.leave left false)
  | chars =>
      if beginsPlain brackets chars then
        (plainText? brackets floor [] chars).map fun (text, left, fresh) =>
          (⟨String.ofList text, .plain, none⟩, cursor.leave left fresh)
      else none

end Stencil
