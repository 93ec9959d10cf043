/-
Characters and their bytes.  Every delimiter is ASCII and no byte of a longer
encoding is, so the bytes of a text begin with a delimiter exactly where its
characters do, and every offset next to a delimiter cuts the text cleanly.
-/
import Stencil.Scan
import Stencil.Span
import Stencil.Utf8

namespace Stencil

/-- The bytes of some characters. -/
def encode (chars : List Char) : List UInt8 :=
  chars.flatMap String.utf8EncodeChar

@[simp] theorem encode_nil : encode [] = [] := rfl

theorem encode_cons (char : Char) (rest : List Char) :
    encode (char :: rest) = String.utf8EncodeChar char ++ encode rest := rfl

@[simp] theorem encode_append (left right : List Char) :
    encode (left ++ right) = encode left ++ encode right := by
  simp [encode]

theorem length_encode (chars : List Char) :
    (encode chars).length = byteWidth chars := by
  induction chars with
  | nil => rfl
  | cons char rest ih => simp [encode_cons, byteWidth, ih]

theorem length_utf8 (text : String) :
    (utf8 text).length = byteWidth text.toList :=
  length_encode text.toList

theorem length_le_byteWidth (chars : List Char) :
    chars.length ≤ byteWidth chars := by
  induction chars with
  | nil => exact Nat.le_refl 0
  | cons char rest ih =>
      have hpos := char.utf8Size_pos
      rw [List.length_cons, byteWidth]
      omega

theorem byteWidth_eq_zero {chars : List Char} (hzero : byteWidth chars = 0) :
    chars = [] := by
  have hlength := length_le_byteWidth chars
  exact List.eq_nil_of_length_eq_zero (by omega)

/-- A single byte holds an ASCII character. -/
theorem encode_cons_of_ascii {char : Char} (hascii : char.toNat < 128)
    (rest : List Char) :
    encode (char :: rest) = UInt8.ofNat char.toNat :: encode rest := by
  have hsingle : String.utf8EncodeChar char = [UInt8.ofNat char.toNat] := by
    have hle : char.val.toNat ≤ 0x7F := by
      change char.toNat ≤ 0x7F
      omega
    simp only [String.utf8EncodeChar, if_pos hle]
    rfl
  rw [encode_cons, hsingle]
  rfl

/-- No byte of a longer encoding is ASCII. -/
theorem le_of_mem_utf8EncodeChar {char : Char} (hwide : 128 ≤ char.toNat) :
    ∀ byte ∈ String.utf8EncodeChar char, 128 ≤ byte.toNat := by
  have hnot : ¬ char.val.toNat ≤ 0x7F := by
    change ¬ char.toNat ≤ 0x7F
    omega
  intro byte hbyte
  simp only [String.utf8EncodeChar, if_neg hnot] at hbyte
  split at hbyte
  · simp only [List.mem_cons, List.not_mem_nil, or_false] at hbyte
    rcases hbyte with rfl | rfl <;> simp only [UInt8.toNat_ofNat'] <;> omega
  · split at hbyte
    · simp only [List.mem_cons, List.not_mem_nil, or_false] at hbyte
      rcases hbyte with rfl | rfl | rfl <;>
        simp only [UInt8.toNat_ofNat'] <;> omega
    · simp only [List.mem_cons, List.not_mem_nil, or_false] at hbyte
      rcases hbyte with rfl | rfl | rfl | rfl <;>
        simp only [UInt8.toNat_ofNat'] <;> omega

/-- The characters of a delimiter. -/
def spell (bytes : List UInt8) : List Char :=
  bytes.map (fun byte => Char.ofNat byte.toNat)

theorem toNat_ofNat_of_ascii {value : Nat} (hascii : value < 128) :
    (Char.ofNat value).toNat = value := by
  have hvalid : value.isValidChar := Or.inl (by omega)
  rw [Char.ofNat, dif_pos hvalid]
  rfl

/-- What the bytes of a text begin with, its characters begin with. -/
theorem isPrefixOf_encode_iff {bytes : List UInt8}
    (hascii : ∀ byte ∈ bytes, byte.toNat < 128) (chars : List Char) :
    bytes.isPrefixOf (encode chars) = true ↔ spell bytes <+: chars := by
  induction bytes generalizing chars with
  | nil => simp [spell]
  | cons byte bytes ih =>
      have hbyte := hascii byte List.mem_cons_self
      have hrest := ih (fun later hlater =>
        hascii later (List.mem_cons_of_mem byte hlater))
      have hspell : spell (byte :: bytes) =
          Char.ofNat byte.toNat :: spell bytes := rfl
      have hvalue := toNat_ofNat_of_ascii hbyte
      cases chars with
      | nil => simp [hspell]
      | cons char rest =>
          rw [hspell, List.cons_prefix_cons, ← hrest rest]
          by_cases hnarrow : char.toNat < 128
          · have hsame : byte = UInt8.ofNat char.toNat ↔
                Char.ofNat byte.toNat = char := by
              constructor
              · intro heq
                rw [heq, UInt8.toNat_ofNat', Nat.mod_eq_of_lt (by omega)]
                exact Char.ofNat_toNat char
              · intro heq
                rw [← heq, hvalue]
                simp
            rw [encode_cons_of_ascii hnarrow, List.isPrefixOf_cons_cons,
              Bool.and_eq_true, beq_iff_eq, hsame]
          · have hne : Char.ofNat byte.toNat ≠ char := by
              intro heq
              rw [← heq, hvalue] at hnarrow
              exact hnarrow hbyte
            have hwide := le_of_mem_utf8EncodeChar (Nat.le_of_not_lt hnarrow)
            rw [encode_cons]
            cases hcode : String.utf8EncodeChar char with
            | nil => exact absurd hcode String.utf8EncodeChar_ne_nil
            | cons lead tail =>
                have hlead := hwide lead (by simp [hcode])
                have hbytes : byte ≠ lead := by
                  rintro rfl
                  omega
                simp [List.isPrefixOf_cons_cons, hne, hbytes]

theorem utf8Size_of_ascii {char : Char} (hascii : char.toNat < 128) :
    char.utf8Size = 1 := by
  have hlength := length_encode [char]
  rw [encode_cons_of_ascii hascii] at hlength
  simpa [byteWidth] using hlength.symm

theorem byteWidth_of_ascii {chars : List Char}
    (hascii : ∀ char ∈ chars, char.toNat < 128) :
    byteWidth chars = chars.length := by
  induction chars with
  | nil => rfl
  | cons char rest ih =>
      have hsize := utf8Size_of_ascii (hascii char List.mem_cons_self)
      have hrest := ih (fun later hlater =>
        hascii later (List.mem_cons_of_mem char hlater))
      rw [byteWidth, hsize, hrest, List.length_cons, Nat.add_comm]

/-- The slice between two cuts of a text. -/
theorem slice?_of_split {text : String} {before body after : List Char}
    (hsplit : text.toList = before ++ body ++ after) :
    slice? text ⟨byteWidth before, byteWidth before + byteWidth body⟩ =
      some (String.ofList body) := by
  have hsize : byteWidth before + byteWidth body - byteWidth before =
      byteWidth body := by
    omega
  simp only [slice?, Span.size, Nat.le_add_right, if_true, hsize, hsplit,
    List.append_assoc, dropBytes?_append, Option.bind_some,
    takeBytes?_append, Option.map_some]

/-- What is left after some bytes comes after the characters of these. -/
theorem split_of_dropBytes? {count : Nat} {chars rest : List Char}
    (hdrop : dropBytes? count chars = some rest) :
    ∃ before, chars = before ++ rest ∧ byteWidth before = count := by
  induction chars generalizing count with
  | nil =>
      cases count with
      | zero =>
          cases hdrop
          exact ⟨[], rfl, rfl⟩
      | succ count => cases hdrop
  | cons char after ih =>
      cases count with
      | zero =>
          rw [dropBytes?] at hdrop
          cases hdrop
          exact ⟨[], rfl, rfl⟩
      | succ count =>
          rw [dropBytes?] at hdrop
          split at hdrop
          · obtain ⟨before, rfl, hwidth⟩ := ih hdrop
            refine ⟨char :: before, rfl, ?_⟩
            rw [byteWidth, hwidth]
            omega
          · cases hdrop

theorem split_of_takeBytes? {count : Nat} {chars body : List Char}
    (htake : takeBytes? count chars = some body) :
    ∃ after, chars = body ++ after ∧ byteWidth body = count := by
  induction chars generalizing count body with
  | nil =>
      cases count with
      | zero =>
          cases htake
          exact ⟨[], rfl, rfl⟩
      | succ count => cases htake
  | cons char rest ih =>
      cases count with
      | zero =>
          rw [takeBytes?] at htake
          cases htake
          exact ⟨char :: rest, rfl, rfl⟩
      | succ count =>
          rw [takeBytes?] at htake
          split at htake
          · obtain ⟨others, hothers, rfl⟩ := Option.map_eq_some_iff.mp htake
            obtain ⟨after, rfl, hwidth⟩ := ih hothers
            refine ⟨after, rfl, ?_⟩
            rw [byteWidth, hwidth]
            omega
          · cases htake

/-- A slice that is there stands between two cuts of the text. -/
theorem split_of_slice? {text part : String} {span : Span}
    (hslice : slice? text span = some part) :
    ∃ before after, text.toList = before ++ part.toList ++ after ∧
      byteWidth before = span.start := by
  rw [slice?] at hslice
  split at hslice
  · obtain ⟨rest, hdrop, hpart⟩ := Option.bind_eq_some_iff.mp hslice
    obtain ⟨body, htake, rfl⟩ := Option.map_eq_some_iff.mp hpart
    obtain ⟨before, hbefore, hwidth⟩ := split_of_dropBytes? hdrop
    obtain ⟨after, rfl, _⟩ := split_of_takeBytes? htake
    refine ⟨before, after, ?_, hwidth⟩
    rw [hbefore, String.toList_ofList, List.append_assoc]
  · cases hslice

/-- Of two cuts of a text the one at the smaller offset comes first. -/
theorem append_of_byteWidth_le {first more second other : List Char}
    (hsplit : first ++ more = second ++ other)
    (hle : byteWidth first ≤ byteWidth second) :
    ∃ middle, second = first ++ middle ∧ more = middle ++ other := by
  rcases List.append_eq_append_iff.mp hsplit with hbefore | hafter
  · exact hbefore
  · obtain ⟨middle, rfl, rfl⟩ := hafter
    rw [byteWidth_append] at hle
    have hnil : middle = [] := byteWidth_eq_zero (by omega)
    subst hnil
    exact ⟨[], by simp, by simp⟩

theorem slice_of_split {text : String} {before body after : List Char}
    (hsplit : text.toList = before ++ body ++ after) :
    slice text ⟨byteWidth before, byteWidth before + byteWidth body⟩ =
      String.ofList body := by
  rw [slice, slice?_of_split hsplit]
  rfl

theorem charAt?_of_split {text : String} {before after : List Char}
    (hsplit : text.toList = before ++ after) :
    charAt? text (byteWidth before) = after.head? := by
  simp [charAt?, sliceFrom?, hsplit, dropBytes?_append]

end Stencil
