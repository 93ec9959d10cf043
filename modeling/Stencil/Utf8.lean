/-
Text as bytes.  Decoding is total: bytes that are no text are reported one by
one, each for a longest stretch that could still have become a character.
-/

namespace Stencil

/-- The bytes of a text. -/
def utf8 (text : String) : List UInt8 :=
  text.toList.flatMap String.utf8EncodeChar

theorem utf8_append (left right : String) :
    utf8 (left ++ right) = utf8 left ++ utf8 right := by
  simp [utf8]

/-- What the first byte of a longer sequence says of the rest: how many bytes
follow, the range of the first of them, and its own share of the value. -/
structure LeadByte where
  tail : Nat
  low : UInt8
  high : UInt8
  share : Nat
  deriving DecidableEq, Repr

/-- The first bytes of well-formed sequences.  The range of the second byte
leaves out longer spellings than needed, surrogates, and values past the last
code point. -/
def leadByte? (byte : UInt8) : Option LeadByte :=
  if 0xC2 ≤ byte ∧ byte ≤ 0xDF then
    some ⟨1, 0x80, 0xBF, byte.toNat - 0xC0⟩
  else if byte = 0xE0 then some ⟨2, 0xA0, 0xBF, 0⟩
  else if byte = 0xED then some ⟨2, 0x80, 0x9F, byte.toNat - 0xE0⟩
  else if 0xE1 ≤ byte ∧ byte ≤ 0xEF then
    some ⟨2, 0x80, 0xBF, byte.toNat - 0xE0⟩
  else if byte = 0xF0 then some ⟨3, 0x90, 0xBF, 0⟩
  else if byte = 0xF4 then some ⟨3, 0x80, 0x8F, byte.toNat - 0xF0⟩
  else if 0xF1 ≤ byte ∧ byte ≤ 0xF3 then
    some ⟨3, 0x80, 0xBF, byte.toNat - 0xF0⟩
  else none

/-- The longest run of at most `count` continuation bytes, the first of them
in the given range and the others in the full one. -/
def continuation (count : Nat) (low high : UInt8) :
    List UInt8 → List UInt8
  | [] => []
  | byte :: after =>
      match count with
      | 0 => []
      | count + 1 =>
          if low ≤ byte ∧ byte ≤ high then
            byte :: continuation count 0x80 0xBF after
          else []

/-- The character that a first byte and its continuation bytes spell. -/
def LeadByte.char (lead : LeadByte) (tail : List UInt8) : Char :=
  Char.ofNat (tail.foldl
    (fun value byte => value * 64 + (byte.toNat - 0x80)) lead.share)

/-- The characters that the bytes spell.  A sequence that is broken off, or a
byte that starts none, stands as `none`, once for each. -/
def decodeUtf8 : List UInt8 → List (Option Char)
  | [] => []
  | byte :: after =>
      if byte < 0x80 then some (Char.ofNat byte.toNat) :: decodeUtf8 after
      else
        match leadByte? byte with
        | none => none :: decodeUtf8 after
        | some lead =>
            let tail := continuation lead.tail lead.low lead.high after
            (if tail.length = lead.tail then some (lead.char tail) else none)
              :: decodeUtf8 (after.drop tail.length)
termination_by bytes => bytes.length
decreasing_by
  all_goals
    simp only [List.length_drop, List.length_cons]
    omega

/-- The text that the bytes spell, if they are well formed throughout. -/
def ofUtf8? (bytes : List UInt8) : Option String :=
  ((decodeUtf8 bytes).mapM id).map String.ofList

/-- The text that the bytes spell, with a replacement character for each
sequence that is broken off and each byte that starts none. -/
def ofUtf8Lossy (bytes : List UInt8) : String :=
  String.ofList ((decodeUtf8 bytes).map (fun char? => char?.getD '\uFFFD'))

end Stencil
