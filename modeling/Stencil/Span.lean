/-
Spans of a text by byte offsets.  Taking a slice is checked: it gives nothing
when an offset lies beyond the text or inside a character, or when the span is
reversed.
-/

namespace Stencil

/-- The bytes from offset `start` up to, and without, offset `stop`. -/
structure Span where
  start : Nat
  stop : Nat
  deriving DecidableEq, Repr, Inhabited

/-- The number of bytes in a span. -/
def Span.size (span : Span) : Nat := span.stop - span.start

def Span.isEmpty (span : Span) : Bool := span.start == span.stop

/-- What is left of some characters after their first `count` bytes. -/
def dropBytes? : Nat → List Char → Option (List Char)
  | 0, chars => some chars
  | _ + 1, [] => none
  | count + 1, char :: chars =>
      if char.utf8Size ≤ count + 1 then
        dropBytes? (count + 1 - char.utf8Size) chars
      else none

/-- The characters that fill exactly the first `count` bytes. -/
def takeBytes? : Nat → List Char → Option (List Char)
  | 0, _ => some []
  | _ + 1, [] => none
  | count + 1, char :: chars =>
      if char.utf8Size ≤ count + 1 then
        (takeBytes? (count + 1 - char.utf8Size) chars).map (char :: ·)
      else none

/-- The number of bytes that characters take. -/
def byteWidth : List Char → Nat
  | [] => 0
  | char :: rest => char.utf8Size + byteWidth rest

theorem byteWidth_append (left right : List Char) :
    byteWidth (left ++ right) = byteWidth left + byteWidth right := by
  induction left with
  | nil => simp [byteWidth]
  | cons char rest ih => simp [byteWidth, ih, Nat.add_assoc]

/-- Dropping the width of some characters drops exactly these. -/
theorem dropBytes?_append (left right : List Char) :
    dropBytes? (byteWidth left) (left ++ right) = some right := by
  induction left with
  | nil => simp [byteWidth, dropBytes?]
  | cons char rest ih =>
      have hpos := char.utf8Size_pos
      have hwidth : byteWidth (char :: rest) =
          (char.utf8Size - 1 + byteWidth rest) + 1 := by
        simp only [byteWidth]
        omega
      have hrest : char.utf8Size - 1 + byteWidth rest + 1 - char.utf8Size =
          byteWidth rest := by
        omega
      rw [hwidth, List.cons_append, dropBytes?, if_pos (by omega), hrest, ih]

/-- Taking the width of some characters takes exactly these. -/
theorem takeBytes?_append (left right : List Char) :
    takeBytes? (byteWidth left) (left ++ right) = some left := by
  induction left with
  | nil => simp [byteWidth, takeBytes?]
  | cons char rest ih =>
      have hpos := char.utf8Size_pos
      have hwidth : byteWidth (char :: rest) =
          (char.utf8Size - 1 + byteWidth rest) + 1 := by
        simp only [byteWidth]
        omega
      have hrest : char.utf8Size - 1 + byteWidth rest + 1 - char.utf8Size =
          byteWidth rest := by
        omega
      rw [hwidth, List.cons_append, takeBytes?, if_pos (by omega), hrest, ih]
      rfl

/-- The part of a text from a byte offset to its end. -/
def sliceFrom? (text : String) (offset : Nat) : Option String :=
  (dropBytes? offset text.toList).map String.ofList

/-- The part of a text that a span covers. -/
def slice? (text : String) (span : Span) : Option String :=
  if span.start ≤ span.stop then
    (dropBytes? span.start text.toList).bind fun chars =>
      (takeBytes? span.size chars).map String.ofList
  else none

/-- The text under a span, empty where there is no such slice. -/
def slice (text : String) (span : Span) : String :=
  (slice? text span).getD ""

/-- The character that starts at a byte offset, if one does. -/
def charAt? (text : String) (offset : Nat) : Option Char :=
  (sliceFrom? text offset).bind fun after => after.toList.head?

/-- The number of line breaks in a text. -/
def lineBreaks (text : String) : Nat := text.toList.count '\n'

theorem lineBreaks_append (left right : String) :
    lineBreaks (left ++ right) = lineBreaks left + lineBreaks right := by
  simp [lineBreaks]

end Stencil
