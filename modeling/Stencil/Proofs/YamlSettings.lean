/-
The reader of YAML notation reads flat mappings as they are listed: its entries
are those of the mapping that the text holds, and a scalar says of a setting
what the words and digits of it do.
-/
import Mathlib.Data.Nat.Digits.Defs
import Stencil.ConfigText
import Stencil.Proofs.FlatMappings
import Stencil.Proofs.SettingsReaders

namespace Stencil

theorem toList_toString (value : Nat) :
    (toString value).toList = Nat.toDigits 10 value := Nat.toList_repr

theorem digit_of_mem_toDigits {value : Nat} {char : Char}
    (hchar : char ∈ Nat.toDigits 10 value) : '0' ≤ char ∧ char ≤ '9' := by
  have hdigit := Nat.isDigit_of_mem_toDigits (by decide) (by decide) hchar
  simpa [Char.isDigit, Char.le_def] using hdigit

theorem areDigits_toDigits (value : Nat) :
    areDigits (Nat.toDigits 10 value) = true := by
  simp only [areDigits, Bool.and_eq_true, Bool.not_eq_true',
    List.isEmpty_eq_false_iff, List.all_eq_true, decide_eq_true_eq]
  exact ⟨Nat.toDigits_ne_nil, fun _ hchar => digit_of_mem_toDigits hchar⟩

theorem digitsValue_toDigits (value : Nat) :
    digitsValue (Nat.toDigits 10 value) = value := by
  have hvalue := @Nat.ofDigitChars_ten_toDigits value
  simpa only [Nat.ofDigitChars, digitsValue, Nat.mul_comm 10] using hvalue

/-- Only zero begins with the digit zero. -/
theorem toDigits_leading {value : Nat} {rest : List Char}
    (hzero : Nat.toDigits 10 value = '0' :: rest) : rest = [] := by
  induction value using Nat.strongRecOn generalizing rest with
  | ind value ih =>
      rcases Nat.lt_or_ge value 10 with hsmall | hlarge
      · rw [Nat.toDigits_of_lt_base hsmall] at hzero
        exact (List.cons.inj hzero).2.symm
      · rw [Nat.toDigits_of_base_le (by decide) hlarge] at hzero
        cases hdigits : Nat.toDigits 10 (value / 10) with
        | nil => exact absurd hdigits Nat.toDigits_ne_nil
        | cons first more =>
            rw [hdigits, List.cons_append] at hzero
            obtain ⟨rfl, -⟩ := List.cons.inj hzero
            obtain rfl := ih (value / 10) (by omega) hdigits
            have hnone := digitsValue_toDigits (value / 10)
            rw [hdigits] at hnone
            have hten : 0 = value / 10 := hnone
            omega

theorem unsigned_toString (value : Nat) :
    unsigned (toString value) = Nat.toDigits 10 value := by
  rw [unsigned, toList_toString]
  split
  · rename_i rest hplus
    have hdigit := @digit_of_mem_toDigits value '+'
      (hplus ▸ List.mem_cons_self)
    exact absurd hdigit.1 (by decide)
  · rfl

/-- A number below 2^64 is read from its digits. -/
theorem Scalar.count?_of_digits {scalar : Scalar} {value : Nat}
    (hstyle : scalar.style = .plain) (htext : scalar.text = toString value)
    (hvalue : value < word64Bound) : scalar.count? = some value := by
  have hbare : scalar.isBare "int" = true := by simp [Scalar.isBare, hstyle]
  have hread : word64? scalar.text = some value := by
    rw [word64?, htext, unsigned_toString, digitsValue_toDigits]
    exact if_pos ⟨areDigits_toDigits value, hvalue⟩
  rw [count?, if_pos hbare, htext, unsigned_toString, ← htext]
  split
  · rename_i digits hdigits
    cases toDigits_leading hdigits
  · rename_i digits hdigits
    cases toDigits_leading hdigits
  · rename_i digits hdigits
    cases toDigits_leading hdigits
  · rename_i digit digits _ _ _ hdigits
    cases toDigits_leading hdigits
  · exact hread

theorem Scalar.truth?_of_word {scalar : Scalar} {value : Bool}
    (hstyle : scalar.style = .plain) (hword : scalar.text ∈ truthWords value) :
    scalar.truth? = some value := by
  have hbare : scalar.isBare "bool" = true := by simp [Scalar.isBare, hstyle]
  rw [truth?, if_pos hbare]
  cases value with
  | true => exact if_pos hword
  | false =>
      have hother : scalar.text ∉ truthWords true := by
        intro htrue
        have happart : ∀ word ∈ truthWords false, word ∉ truthWords true := by
          decide
        exact happart _ hword htrue
      exact (if_neg hother).trans (if_pos hword)

theorem Scalar.optionalCount?_of_none {scalar : Scalar}
    (hstyle : scalar.style = .plain) (htag : scalar.tag = none)
    (hword : scalar.text = "" ∨ scalar.text ∈ nullWords) :
    scalar.optionalCount? = some none := by
  have hnull : scalar.isNull = true := by
    simpa [isNull, isNullWord, nullWords, hstyle] using hword
  rw [optionalCount?, htag]
  exact if_pos hnull

/-- Digits are no word for no value. -/
theorem toString_not_null (value : Nat) :
    toString value ∉ ["", "~", "null", "Null", "NULL"] := by
  intro hword
  have hdigits : areDigits (toString value).toList = true := by
    rw [toList_toString]
    exact areDigits_toDigits value
  have hnone : ∀ word ∈ ["", "~", "null", "Null", "NULL"],
      areDigits word.toList = false := by
    decide
  rw [hnone _ hword] at hdigits
  cases hdigits

theorem Scalar.optionalCount?_of_digits {scalar : Scalar} {value : Nat}
    (hstyle : scalar.style = .plain) (htag : scalar.tag = none)
    (htext : scalar.text = toString value) (hvalue : value < word64Bound) :
    scalar.optionalCount? = some (some value) := by
  have hnull : scalar.isNull = false := by
    have hword := toString_not_null value
    rw [← htext] at hword
    simpa [isNull, isNullWord, hstyle] using hword
  rw [optionalCount?, htag]
  simp [hnull, count?_of_digits hstyle htext hvalue]

theorem heldEntries?_flat (pairs : List (Scalar × Scalar)) :
    heldEntries? {} (pairs.map fun (key, value) =>
      (Node.scalar none key, Node.scalar none value)) =
        some (pairs.map fun (key, value) => (.scalar key, .scalar value),
          {}) := by
  induction pairs with
  | nil => rfl
  | cons pair rest ih =>
      simp [heldEntries?, Node.held?, Names.bind, ih]

/-- The entries of a mapping of scalars are these scalars. -/
theorem settingEntries?_flat (pairs : List (Scalar × Scalar)) :
    settingEntries? (some (flatMapping pairs)) =
      some (pairs.map fun (key, value) => (some key, some value)) := by
  have hheld := heldEntries?_flat pairs
  simp [settingEntries?, flatMapping, scalarEntries?, Names.bind, hheld,
    Held.scalar?, Function.comp_def]

theorem namedEntries?_flat (pairs : List (Scalar × Scalar)) :
    namedEntries? (pairs.map fun (key, value) => (some key, some value)) =
      some (pairs.map fun (key, value) => (key.text, some value)) := by
  induction pairs with
  | nil => rfl
  | cons pair rest ih =>
      rw [namedEntries?] at ih
      simp [namedEntries?, ih]

namespace SettingsReader

theorem yaml_resolves (scalar : Scalar) :
    yaml.Resolves (some scalar) scalar where
  text := rfl
  choice htag := by
    change scalar.choice? = some scalar.text
    rw [Scalar.choice?, htag]
    rfl
  truth _ _ hstyle hword := Scalar.truth?_of_word hstyle hword
  count count htag hstyle hstands := by
    cases count with
    | none => exact Scalar.optionalCount?_of_none hstyle htag hstands
    | some value =>
        exact Scalar.optionalCount?_of_digits hstyle htag hstands.2 hstands.1

/-- A text that holds a mapping of scalars lists these. -/
theorem yaml_lists {text : String} {pairs : List (Scalar × Scalar)}
    (hread : document? text = some (some (flatMapping pairs))) :
    yaml.Lists text pairs := by
  refine ⟨pairs.map fun (key, value) => (key.text, some value), ?_, ?_⟩
  · change ((document? text).bind settingEntries?).bind namedEntries? = _
    rw [hread, Option.bind_some, settingEntries?_flat, Option.bind_some,
      namedEntries?_flat]
  · rw [List.forall₂_map_left_iff, List.forall₂_same]
    exact fun pair _ => ⟨rfl, yaml_resolves pair.2⟩

theorem yaml_readsFlat : yaml.ReadsFlat := fun file returns hfile =>
  yaml_lists (file.document?_text hfile returns)

end SettingsReader

end Stencil
