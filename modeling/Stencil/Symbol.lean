/-
The symbols of a text in YAML notation: the signs that are written, the
scalars, and the signs that the layout stands for.

A tag is kept as octets, since escapes may spell any; what follows a zero
octet does not count.
-/
import Stencil.BlockScalar
import Stencil.Utf8

namespace Stencil

inductive Symbol where
  /-- A line that states the version of the notation. -/
  | version (major minor : Nat)
  /-- A line that states what a handle stands for in tags. -/
  | handle (name : String) (meaning : List UInt8)
  | documentStart
  | documentEnd
  /-- A sequence begins whose items have dashes in one column. -/
  | openItems
  /-- A mapping begins whose keys begin in one column. -/
  | openEntries
  /-- The column of such a sequence or mapping has been left. -/
  | closeColumn
  | openBracket
  | closeBracket
  | openBrace
  | closeBrace
  | dash
  | comma
  /-- A key follows, with a question mark before it or without. -/
  | key
  | colon
  | alias (name : String)
  | anchor (name : String)
  | tag (handle : String) (suffix : List UInt8)
  | scalar (value : Scalar)
  deriving DecidableEq, Repr

/-- The characters of names. -/
def isNameChar (char : Char) : Bool :=
  char.isAlphanum || char == '_' || char == '-'

/-- Whether the name of an anchor or an alias may end before these
characters. -/
def endsName (chars : List Char) : Bool :=
  spaceNext chars ||
    chars.head?.any (fun char =>
      char == '?' || char == ':' || char == ',' || char == ']' ||
        char == '\x7d' || char == '%' || char == '@' || char == '\x60')

/-- Read the name of an anchor or an alias. -/
def name? (chars : List Char) : Option (String × List Char) :=
  let name := chars.takeWhile isNameChar
  let left := chars.dropWhile isNameChar
  if !name.isEmpty && endsName left then some (String.ofList name, left)
  else none

/-- The characters that may stand in a tag.  Delimiters may do so only where
the tag is written in full. -/
def isTagChar (full : Bool) (char : Char) : Bool :=
  isNameChar char || char == ';' || char == '/' || char == '?' ||
    char == ':' || char == '@' || char == '&' || char == '=' ||
    char == '+' || char == '$' || char == '.' || char == '!' ||
    char == '~' || char == '*' || char == '\'' || char == '(' ||
    char == ')' || (full && (char == ',' || char == '[' || char == ']'))

/-- The octet that two hexadecimal digits spell. -/
def octet? (high low : Char) : Option Nat :=
  (hexDigit? high).bind fun high =>
    (hexDigit? low).map fun low => high * 16 + low

/-- How many octets must follow one that begins a character. -/
def octetsDue? (octet : Nat) : Option Nat :=
  if octet < 0x80 then some 0
  else if 0xC0 ≤ octet ∧ octet < 0xE0 then some 1
  else if 0xE0 ≤ octet ∧ octet < 0xF0 then some 2
  else if 0xF0 ≤ octet ∧ octet < 0xF8 then some 3
  else none

/-- Read as much of a tag as there is, while `due` octets must follow.  An
octet is escaped by a percent sign. -/
def tagText? (full : Bool) (due : Nat) :
    List Char → Option (List UInt8 × List Char)
  | [] => if due = 0 then some ([], []) else none
  | '%' :: high :: low :: rest =>
      (octet? high low).bind fun octet =>
        let due? :=
          if due = 0 then octetsDue? octet
          else if 0x80 ≤ octet ∧ octet < 0xC0 then some (due - 1)
          else none
        due?.bind fun due =>
          (tagText? full due rest).map fun (text, left) =>
            (UInt8.ofNat octet :: text, left)
  | char :: rest =>
      if due ≠ 0 ∨ char = '%' then none
      else if isTagChar full char then
        (tagText? full 0 rest).map fun (text, left) =>
          (UInt8.ofNat char.toNat :: text, left)
      else some ([], char :: rest)

/-- A text before its first zero octet. -/
def beforeZero (text : List UInt8) : List UInt8 := text.takeWhile (· != 0)

/-- Read a tag after its exclamation mark: its handle, which is empty if the
tag is in full, and what follows the handle. -/
def tag? (chars : List Char) : Option ((String × List UInt8) × List Char) :=
  match chars with
  | '<' :: rest =>
      (tagText? true 0 rest).bind fun (text, left) =>
        if text.isEmpty ∨ left.head? ≠ some '>' then none
        else some (("", beforeZero text), left.drop 1)
  | _ =>
      let word := chars.takeWhile isNameChar
      match chars.dropWhile isNameChar with
      | '!' :: rest =>
          (tagText? false 0 rest).bind fun (text, left) =>
            if text.isEmpty then none
            else
              some ((String.ofList ('!' :: word ++ ['!']), beforeZero text),
                left)
      | _ =>
          (tagText? false 0 chars).map fun (text, left) =>
            if (beforeZero text).isEmpty then (("", utf8 "!"), left)
            else (("!", beforeZero text), left)

/-- A number of at most nine digits, and what follows it. -/
def smallNumber? (chars : List Char) : Option (Nat × List Char) :=
  let digits := chars.takeWhile Char.isDigit
  if digits.isEmpty || decide (9 < digits.length) then none
  else some (digitsValue digits, chars.dropWhile Char.isDigit)

/-- Read the number of a version. -/
def version? (chars : List Char) : Option (Symbol × List Char) :=
  (smallNumber? chars).bind fun (major, rest) =>
    match rest with
    | '.' :: rest =>
        (smallNumber? rest).map fun (minor, left) =>
          (.version major minor, left)
    | _ => none

/-- Read a handle, and after a gap its meaning. -/
def handle? (chars : List Char) : Option (Symbol × List Char) :=
  match chars with
  | '!' :: rest =>
      let word := rest.takeWhile isNameChar
      let after := rest.dropWhile isNameChar
      let closed := after.head? == some '!'
      let after := if closed then after.drop 1 else after
      if (closed || word.isEmpty) && after.head?.any isGap then
        (tagText? true 0 (after.dropWhile isGap)).bind fun (text, left) =>
          if text.isEmpty || !spaceNext left then none
          else
            let name := '!' :: word ++ (if closed then ['!'] else [])
            some (.handle (String.ofList name) (beforeZero text), left)
      else none
  | _ => none

/-- Read the line of a directive after its percent sign, and give what follows
the line. -/
def directive? (chars : List Char) : Option (Symbol × List Char) :=
  let rest := (chars.dropWhile isNameChar).dropWhile isGap
  let symbol? :=
    if !spaceNext (chars.dropWhile isNameChar) then none
    else if chars.takeWhile isNameChar = ['Y', 'A', 'M', 'L'] then
      version? rest
    else if chars.takeWhile isNameChar = ['T', 'A', 'G'] then handle? rest
    else none
  symbol?.bind fun (symbol, rest) =>
    (afterLine? rest).map fun left => (symbol, left)

end Stencil
