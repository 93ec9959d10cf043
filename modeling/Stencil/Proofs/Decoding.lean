/-
Decoding undoes encoding.  The first byte of a character tells how many follow
it and its own share of the value, and each byte that follows adds six bits; so
a text is read back from its bytes, and nothing in it is replaced.
-/
import Stencil.Proofs.Characters

namespace Stencil

/-- A byte that goes on with a character, for six bits of its value. -/
def sixBits (value : Nat) : UInt8 := UInt8.ofNat (value % 64 + 128)

theorem toNat_sixBits (value : Nat) :
    (sixBits value).toNat = value % 64 + 128 := by
  rw [sixBits, UInt8.toNat_ofNat', Nat.mod_eq_of_lt]
  omega

/-- Six bits more complete a value. -/
theorem add_sixBits (value : Nat) :
    value / 64 * 64 + ((sixBits value).toNat - 0x80) = value := by
  rw [toNat_sixBits]
  omega

/-- A byte in the given range goes on with a character. -/
theorem continuation_cons {count value : Nat} {low high : UInt8}
    (hlow : low.toNat ≤ value % 64 + 128)
    (hhigh : value % 64 + 128 ≤ high.toNat) (after : List UInt8) :
    continuation (count + 1) low high (sixBits value :: after) =
      sixBits value :: continuation count 0x80 0xBF after := by
  have hrange : low ≤ sixBits value ∧ sixBits value ≤ high := by
    rw [UInt8.le_iff_toNat_le, UInt8.le_iff_toNat_le, toNat_sixBits]
    exact ⟨hlow, hhigh⟩
  rw [continuation]
  simp only [if_pos hrange]

theorem continuation_zero (low high : UInt8) (bytes : List UInt8) :
    continuation 0 low high bytes = [] := by
  cases bytes <;> rfl

/-- Any six bits may follow where the range is the full one. -/
theorem continuation_cons_full (count value : Nat) (after : List UInt8) :
    continuation (count + 1) 0x80 0xBF (sixBits value :: after) =
      sixBits value :: continuation count 0x80 0xBF after := by
  have hlow : (0x80 : UInt8).toNat = 128 := rfl
  have hhigh : (0xBF : UInt8).toNat = 191 := rfl
  exact continuation_cons (by omega) (by omega) after

/-- A first byte with all the bytes that it asks for spells one character. -/
theorem decodeUtf8_sequence {byte : UInt8} {lead : LeadByte}
    (tail rest : List UInt8) (hwide : 128 ≤ byte.toNat)
    (hlead : leadByte? byte = some lead)
    (htail : continuation lead.tail lead.low lead.high (tail ++ rest) = tail)
    (hlength : tail.length = lead.tail) :
    decodeUtf8 (byte :: (tail ++ rest)) =
      some (lead.char tail) :: decodeUtf8 rest := by
  have hnot : ¬ byte < 0x80 := by
    rw [UInt8.lt_iff_toNat_lt]
    exact Nat.not_lt.mpr hwide
  rw [decodeUtf8, if_neg hnot]
  simp only [hlead, htail, if_pos hlength, List.drop_left]

/-- The first bytes of two, by their share of the value.  Smaller shares would
be longer spellings than needed. -/
theorem leadByte?_two : ∀ share < 32, 2 ≤ share →
    leadByte? (UInt8.ofNat (share + 192)) =
      some ⟨1, 0x80, 0xBF, share⟩ := by decide +kernel

/-- The first bytes of three. -/
theorem leadByte?_three : ∀ share < 16,
    leadByte? (UInt8.ofNat (share + 224)) =
      some ⟨2, if share = 0 then 0xA0 else 0x80,
        if share = 13 then 0x9F else 0xBF, share⟩ := by decide +kernel

/-- The first bytes of four, up to the last code point. -/
theorem leadByte?_four : ∀ share < 5,
    leadByte? (UInt8.ofNat (share + 240)) =
      some ⟨3, if share = 0 then 0x90 else 0x80,
        if share = 4 then 0x8F else 0xBF, share⟩ := by decide +kernel

/-- A first byte of more than one is wide. -/
theorem wide_of_share {share base : Nat} (hbase : 128 ≤ base)
    (hshare : share + base < 256) :
    128 ≤ (UInt8.ofNat (share + base)).toNat := by
  rw [UInt8.toNat_ofNat', Nat.mod_eq_of_lt hshare]
  exact Nat.le_add_left_of_le hbase

section

variable (char : Char)

theorem utf8EncodeChar_two (hlow : 128 ≤ char.toNat)
    (hhigh : char.toNat < 2048) :
    String.utf8EncodeChar char =
      [UInt8.ofNat (char.toNat / 64 + 192), sixBits char.toNat] := by
  have hshare : char.toNat / 64 % 32 = char.toNat / 64 := by omega
  have hone : ¬ char.val.toNat ≤ 127 := Nat.not_le.mpr hlow
  have htwo : char.val.toNat ≤ 2047 := Nat.le_of_lt_succ hhigh
  simp only [String.utf8EncodeChar, if_neg hone, if_pos htwo]
  rw [← hshare]
  rfl

theorem utf8EncodeChar_three (hlow : 2048 ≤ char.toNat)
    (hhigh : char.toNat < 65536) :
    String.utf8EncodeChar char =
      [UInt8.ofNat (char.toNat / 64 / 64 + 224), sixBits (char.toNat / 64),
        sixBits char.toNat] := by
  have hshare : char.toNat / 4096 % 16 = char.toNat / 64 / 64 := by omega
  have hone : ¬ char.val.toNat ≤ 127 := by
    change ¬ char.toNat ≤ 127
    omega
  have htwo : ¬ char.val.toNat ≤ 2047 := Nat.not_le.mpr hlow
  have hthree : char.val.toNat ≤ 65535 := Nat.le_of_lt_succ hhigh
  simp only [String.utf8EncodeChar, if_neg hone, if_neg htwo, if_pos hthree]
  rw [← hshare]
  rfl

theorem toNat_lt_codePoints : char.toNat < 1114112 := by
  have hvalid : char.toNat < 55296 ∨
      57343 < char.toNat ∧ char.toNat < 1114112 := char.valid
  omega

theorem utf8EncodeChar_four (hlow : 65536 ≤ char.toNat) :
    String.utf8EncodeChar char =
      [UInt8.ofNat (char.toNat / 64 / 64 / 64 + 240),
        sixBits (char.toNat / 64 / 64), sixBits (char.toNat / 64),
        sixBits char.toNat] := by
  have hlast := toNat_lt_codePoints char
  have hshare : char.toNat / 262144 % 8 = char.toNat / 64 / 64 / 64 := by
    omega
  have hsecond : char.toNat / 4096 = char.toNat / 64 / 64 := by omega
  have hone : ¬ char.val.toNat ≤ 127 := by
    change ¬ char.toNat ≤ 127
    omega
  have htwo : ¬ char.val.toNat ≤ 2047 := by
    change ¬ char.toNat ≤ 2047
    omega
  have hthree : ¬ char.val.toNat ≤ 65535 := Nat.not_le.mpr hlow
  simp only [String.utf8EncodeChar, if_neg hone, if_neg htwo, if_neg hthree]
  rw [← hshare, ← hsecond]
  rfl

variable (rest : List UInt8)

theorem decodeUtf8_one (hvalue : char.toNat < 128) :
    decodeUtf8 (String.utf8EncodeChar char ++ rest) =
      some char :: decodeUtf8 rest := by
  have hbyte := encode_cons_of_ascii hvalue []
  simp only [encode_cons, encode_nil, List.append_nil] at hbyte
  have hsmall : (UInt8.ofNat char.toNat).toNat = char.toNat := by
    rw [UInt8.toNat_ofNat', Nat.mod_eq_of_lt (by omega)]
  have hlt : UInt8.ofNat char.toNat < 0x80 := by
    rw [UInt8.lt_iff_toNat_lt, hsmall]
    exact hvalue
  rw [hbyte, List.singleton_append, decodeUtf8, if_pos hlt, hsmall,
    Char.ofNat_toNat]

theorem decodeUtf8_two (hlow : 128 ≤ char.toNat) (hhigh : char.toNat < 2048) :
    decodeUtf8 (String.utf8EncodeChar char ++ rest) =
      some char :: decodeUtf8 rest := by
  have hlead := leadByte?_two (char.toNat / 64) (by omega) (by omega)
  have hwide := @wide_of_share (char.toNat / 64) 192 (by omega) (by omega)
  rw [utf8EncodeChar_two char hlow hhigh]
  refine (decodeUtf8_sequence [sixBits char.toNat] rest hwide hlead ?_
    rfl).trans ?_
  · exact (continuation_cons_full 0 char.toNat rest).trans
      (congrArg _ (continuation_zero _ _ rest))
  · simp only [LeadByte.char, List.foldl_cons, List.foldl_nil, add_sixBits,
      Char.ofNat_toNat]

theorem decodeUtf8_three (hlow : 2048 ≤ char.toNat)
    (hhigh : char.toNat < 65536) :
    decodeUtf8 (String.utf8EncodeChar char ++ rest) =
      some char :: decodeUtf8 rest := by
  have hlead := leadByte?_three (char.toNat / 64 / 64) (by omega)
  have hwide := @wide_of_share (char.toNat / 64 / 64) 224 (by omega) (by omega)
  -- No shorter spelling would do, and no character is a surrogate.
  have hbelow :
      (if char.toNat / 64 / 64 = 0 then 0xA0 else 0x80 : UInt8).toNat ≤
        char.toNat / 64 % 64 + 128 := by
    split
    · change 160 ≤ _
      omega
    · exact Nat.le_add_left 128 _
  have habove : char.toNat / 64 % 64 + 128 ≤
      (if char.toNat / 64 / 64 = 13 then 0x9F else 0xBF : UInt8).toNat := by
    split
    · change _ ≤ 159
      have hvalid : char.toNat < 55296 ∨ 57343 < char.toNat ∧ _ := char.valid
      omega
    · change _ ≤ 191
      omega
  rw [utf8EncodeChar_three char hlow hhigh]
  refine (decodeUtf8_sequence [sixBits (char.toNat / 64),
    sixBits char.toNat] rest hwide hlead ?_ rfl).trans ?_
  · rw [List.cons_append, continuation_cons hbelow habove,
      List.singleton_append, continuation_cons_full, continuation_zero]
  · simp only [LeadByte.char, List.foldl_cons, List.foldl_nil, add_sixBits,
      Char.ofNat_toNat]

theorem decodeUtf8_four (hlow : 65536 ≤ char.toNat) :
    decodeUtf8 (String.utf8EncodeChar char ++ rest) =
      some char :: decodeUtf8 rest := by
  have hlast := toNat_lt_codePoints char
  have hlead := leadByte?_four (char.toNat / 64 / 64 / 64) (by omega)
  have hwide :=
    @wide_of_share (char.toNat / 64 / 64 / 64) 240 (by omega) (by omega)
  -- No shorter spelling would do, and no code point is past the last.
  have hbelow : (if char.toNat / 64 / 64 / 64 = 0 then 0x90 else 0x80 :
      UInt8).toNat ≤ char.toNat / 64 / 64 % 64 + 128 := by
    split
    · change 144 ≤ _
      omega
    · exact Nat.le_add_left 128 _
  have habove : char.toNat / 64 / 64 % 64 + 128 ≤
      (if char.toNat / 64 / 64 / 64 = 4 then 0x8F else 0xBF : UInt8).toNat := by
    split
    · change _ ≤ 143
      omega
    · change _ ≤ 191
      omega
  rw [utf8EncodeChar_four char hlow]
  refine (decodeUtf8_sequence [sixBits (char.toNat / 64 / 64),
    sixBits (char.toNat / 64), sixBits char.toNat] rest hwide hlead ?_
    rfl).trans ?_
  · rw [List.cons_append, continuation_cons hbelow habove, List.cons_append,
      continuation_cons_full, List.singleton_append, continuation_cons_full,
      continuation_zero]
  · simp only [LeadByte.char, List.foldl_cons, List.foldl_nil, add_sixBits,
      Char.ofNat_toNat]

theorem decodeUtf8_utf8EncodeChar :
    decodeUtf8 (String.utf8EncodeChar char ++ rest) =
      some char :: decodeUtf8 rest := by
  by_cases hone : char.toNat < 128
  · exact decodeUtf8_one char rest hone
  · by_cases htwo : char.toNat < 2048
    · exact decodeUtf8_two char rest (Nat.le_of_not_lt hone) htwo
    · by_cases hthree : char.toNat < 65536
      · exact decodeUtf8_three char rest (Nat.le_of_not_lt htwo) hthree
      · exact decodeUtf8_four char rest (Nat.le_of_not_lt hthree)

end

theorem decodeUtf8_encode (chars : List Char) :
    decodeUtf8 (encode chars) = chars.map some := by
  induction chars with
  | nil => rw [encode_nil, decodeUtf8, List.map_nil]
  | cons char rest ih =>
      rw [encode_cons, decodeUtf8_utf8EncodeChar, ih, List.map_cons]

/-- The bytes of a text are read as that text. -/
theorem ofUtf8Lossy_utf8 (text : String) : ofUtf8Lossy (utf8 text) = text := by
  have hdecoded : decodeUtf8 (utf8 text) = text.toList.map some :=
    decodeUtf8_encode text.toList
  rw [ofUtf8Lossy, hdecoded, List.map_map, ← String.toList_inj,
    String.toList_ofList]
  exact List.map_id _

end Stencil
