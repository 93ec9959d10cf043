/-
Scalars on one line in YAML notation: how the text of one is written, plain or
between quotation marks, and that the text is what is read.
-/
import Stencil.DocumentText

namespace Stencil

/-- Whether a character may stand on a line. -/
def isInline (char : Char) : Bool :=
  isWritable char && !isBreak char && char != '\r' && char != '\u0085'

/-- What stands for one character between double quotation marks: the character,
or a backslash with a letter, or with a letter and the digits of a number. -/
inductive QuotedUnit where
  | raw (char : Char)
  | escape (letter : Char)
  | number (letter : Char) (digits : List Char)
  deriving DecidableEq, Repr

namespace QuotedUnit

def chars : QuotedUnit → List Char
  | .raw char => [char]
  | .escape letter => ['\\', letter]
  | .number letter digits => '\\' :: letter :: digits

/-- The character that a unit stands for. -/
def value? : QuotedUnit → Option Char
  | .raw char =>
      if isInline char && char != '"' && char != '\\' then some char else none
  | .escape letter => if isInline letter then escaped? letter else none
  | .number letter digits =>
      if escapedWidth? letter = some digits.length then hexChar? digits
      else none

end QuotedUnit

/-- Characters with each single quotation mark written twice. -/
def doubleMarks (chars : List Char) : List Char :=
  chars.flatMap fun char => if char = '\'' then ['\'', '\''] else [char]

/-- Whether a plain scalar may go on with these characters to its end, after a
gap or without: no comment and no colon that stands alone are among them, and
no gap ends them. -/
def goesOnPlain (gap : Bool) : List Char → Bool
  | [] => !gap
  | char :: rest =>
      isInline char && !(gap && char == '#') &&
        !(char == ':' && spaceNext rest) && goesOnPlain (isGap char) rest

/-- A scalar as it stands on a line. -/
inductive Written where
  | plain (chars : List Char)
  | single (chars : List Char)
  | double (units : List QuotedUnit)
  deriving DecidableEq, Repr

namespace Written

def chars : Written → List Char
  | .plain chars => chars
  | .single chars => '\'' :: doubleMarks chars ++ ['\'']
  | .double units => '"' :: units.flatMap QuotedUnit.chars ++ ['"']

/-- The text of a scalar. -/
def textChars : Written → List Char
  | .plain chars => chars
  | .single chars => chars
  | .double units => units.filterMap QuotedUnit.value?

def style : Written → ScalarStyle
  | .plain _ => .plain
  | .single _ => .quoted
  | .double _ => .quoted

/-- What the notation means. -/
def scalar (written : Written) : Scalar :=
  ⟨String.ofList written.textChars, written.style, none⟩

/-- A plain scalar begins with no sign of the notation, and no byte order mark;
every unit between double quotation marks stands for a character. -/
def wellFormed : Written → Bool
  | .plain chars =>
      beginsPlain false chars && chars.head? != some '\uFEFF' &&
        goesOnPlain false chars
  | .single chars => chars.all isInline
  | .double units => units.all (fun unit => unit.value?.isSome)

end Written

section

variable {piece? : Char → List Char → Option QuotedPiece}
variable {space : List Char} {char : Char}

theorem isBreak_of_isInline (hinline : isInline char = true) :
    isBreak char = false := by
  simp only [isInline, Bool.and_eq_true, Bool.not_eq_true'] at hinline
  exact hinline.1.1.2

/-- Characters that belong to the piece before them are passed. -/
theorem quotedText?_pass (joined : Bool) (passed after : List Char) :
    quotedText? piece? passed.length joined space (passed ++ after) =
      quotedText? piece? 0 joined space after := by
  induction passed with
  | nil => rfl
  | cons char rest ih =>
      rw [List.length_cons, List.cons_append, quotedText?, ih]

/-- A gap is kept for the next word. -/
theorem quotedText?_gap (hgap : isGap char = true) (after : List Char) :
    quotedText? piece? 0 false space (char :: after) =
      quotedText? piece? 0 false (char :: space) after := by
  rw [quotedText?, isSpace, hgap]
  rfl

/-- On a line the space before a word stands for itself. -/
theorem quotedText?_word (hspace : ∀ gap ∈ space, isBreak gap = false)
    (hchar : isSpace char = false) (after : List Char) :
    quotedText? piece? 0 false space (char :: after) =
      match piece? char after with
      | none => none
      | some .close => some (space.reverse, after)
      | some (.char char more) =>
          (quotedText? piece? more false [] after).map fun (text, left) =>
            (space.reverse ++ char :: text, left)
      | some .join =>
          (quotedText? piece? 1 true [] after).map fun (text, left) =>
            (space.reverse ++ text, left) := by
  have hhead : space.head?.any isBreak = false := by
    cases space with
    | nil => rfl
    | cons gap rest => exact hspace gap List.mem_cons_self
  have hkept : joinSpace false space.reverse = space.reverse := by
    apply foldSpace_of_no_breaks
    intro gap hgap
    exact hspace gap (List.mem_reverse.mp hgap)
  rw [quotedText?, hchar, hhead, hkept]
  rfl

/-- A unit between quotation marks is read as what it stands for. -/
theorem quotedText?_unit {value : Char} {passed : List Char}
    (hspace : ∀ gap ∈ space, isBreak gap = false)
    (hchar : isSpace char = false) (after : List Char)
    (hpiece : piece? char (passed ++ after) =
      some (.char value passed.length)) :
    quotedText? piece? 0 false space (char :: (passed ++ after)) =
      (quotedText? piece? 0 false [] after).map fun (text, left) =>
        (space.reverse ++ value :: text, left) := by
  rw [quotedText?_word hspace hchar, hpiece]
  simp only [quotedText?_pass]

/-- Between single quotation marks everything stands for itself. -/
theorem quotedText?_single {chars after : List Char}
    (hchars : ∀ char ∈ chars, isInline char = true)
    (hspace : ∀ gap ∈ space, isBreak gap = false)
    (hafter : after.head? ≠ some '\'') :
    quotedText? singlePiece? 0 false space
        (doubleMarks chars ++ '\'' :: after) =
      some (space.reverse ++ chars, after) := by
  induction chars generalizing space with
  | nil =>
      rw [doubleMarks, List.flatMap_nil, List.nil_append,
        quotedText?_word hspace (by decide)]
      simp [singlePiece?, hafter]
  | cons char rest ih =>
      have hrest := fun next hnext => hchars next (List.mem_cons_of_mem _ hnext)
      have hbreak := isBreak_of_isInline (hchars char List.mem_cons_self)
      rw [doubleMarks, List.flatMap_cons, List.append_assoc, ← doubleMarks]
      by_cases hmark : char = '\''
      · subst hmark
        have hunit := @quotedText?_unit singlePiece? space '\'' '\'' ['\'']
          hspace (by decide) (doubleMarks rest ++ '\'' :: after) rfl
        rw [if_pos rfl]
        refine hunit.trans ?_
        rw [ih hrest (by simp)]
        rfl
      · rw [if_neg hmark, List.singleton_append]
        by_cases hgap : isGap char = true
        · rw [quotedText?_gap hgap, ih hrest (by simpa [hbreak] using hspace)]
          simp
        · have hchar : isSpace char = false := by simp [isSpace, hgap, hbreak]
          have hunit := @quotedText?_unit singlePiece? space char char []
            hspace hchar (doubleMarks rest ++ '\'' :: after)
            (by simp [singlePiece?, hmark])
          refine hunit.trans ?_
          rw [ih hrest (by simp)]
          rfl

theorem escapedWidth?_of_escaped? {letter : Char}
    (hletter : (escaped? letter).isSome = true) :
    escapedWidth? letter = none := by
  unfold escapedWidth?
  split
  · cases hletter
  · cases hletter
  · cases hletter
  · rfl

theorem isInline_of_escapedWidth? {letter : Char} {width : Nat}
    (hwidth : escapedWidth? letter = some width) : isInline letter = true := by
  unfold escapedWidth? at hwidth
  split at hwidth
  · decide
  · decide
  · decide
  · cases hwidth

/-- A unit is a gap that is kept for the next word, or it is read at once. -/
theorem QuotedUnit.gap_or_piece {unit : QuotedUnit} {value : Char}
    (hvalue : unit.value? = some value) :
    (unit = .raw value ∧ isGap value = true) ∨
    ∃ char passed, unit.chars = char :: passed ∧ isSpace char = false ∧
      ∀ after, doublePiece? char (passed ++ after) =
        some (.char value passed.length) := by
  cases unit with
  | raw char =>
      simp only [value?, Option.ite_none_right_eq_some, Bool.and_eq_true,
        bne_iff_ne, Option.some.injEq] at hvalue
      obtain ⟨⟨⟨hinline, hclose⟩, hescape⟩, rfl⟩ := hvalue
      by_cases hgap : isGap char = true
      · exact .inl ⟨rfl, hgap⟩
      · refine .inr ⟨char, [], rfl, ?_, fun after => ?_⟩
        · simp [isSpace, hgap, isBreak_of_isInline hinline]
        · simp [doublePiece?, hclose, hescape]
  | escape letter =>
      simp only [value?, Option.ite_none_right_eq_some] at hvalue
      obtain ⟨hinline, hescaped⟩ := hvalue
      have hnumber : escapedWidth? letter = none :=
        escapedWidth?_of_escaped? (by rw [hescaped]; rfl)
      refine .inr ⟨'\\', [letter], rfl, by decide, fun after => ?_⟩
      simp [doublePiece?, isBreak_of_isInline hinline, hnumber, hescaped]
  | number letter digits =>
      simp only [value?, Option.ite_none_right_eq_some] at hvalue
      obtain ⟨hwidth, hnumber⟩ := hvalue
      have hbreak := isBreak_of_isInline (isInline_of_escapedWidth? hwidth)
      refine .inr ⟨'\\', letter :: digits, rfl, by decide, fun after => ?_⟩
      simp [doublePiece?, hbreak, hwidth, hnumber]

/-- Between double quotation marks each unit stands for its character. -/
theorem quotedText?_double {units : List QuotedUnit}
    (hunits : ∀ unit ∈ units, unit.value?.isSome = true)
    (hspace : ∀ gap ∈ space, isBreak gap = false) (after : List Char) :
    quotedText? doublePiece? 0 false space
        (units.flatMap QuotedUnit.chars ++ '"' :: after) =
      some (space.reverse ++ units.filterMap QuotedUnit.value?, after) := by
  induction units generalizing space with
  | nil =>
      rw [List.flatMap_nil, List.nil_append,
        quotedText?_word hspace (by decide)]
      simp [doublePiece?]
  | cons unit rest ih =>
      have hrest := fun next hnext => hunits next (List.mem_cons_of_mem _ hnext)
      obtain ⟨value, hvalue⟩ :=
        Option.isSome_iff_exists.mp (hunits unit List.mem_cons_self)
      rw [List.flatMap_cons, List.append_assoc, List.filterMap_cons, hvalue]
      rcases unit.gap_or_piece hvalue with
        ⟨rfl, hgap⟩ | ⟨char, passed, hchars, hchar, hpiece⟩
      · have hbreak : isBreak value = false := by
          simp only [isGap, Bool.or_eq_true, beq_iff_eq] at hgap
          rcases hgap with rfl | rfl <;> rfl
        rw [QuotedUnit.chars, List.singleton_append, quotedText?_gap hgap,
          ih hrest (by simpa [hbreak] using hspace)]
        simp
      · rw [hchars, List.cons_append,
          quotedText?_unit hspace hchar _ (hpiece _), ih hrest (by simp)]
        rfl

/-- Space comes next in a longer text only if it does in the text. -/
theorem spaceNext_append {chars : List Char} (after : List Char)
    (hchars : spaceNext chars = false) :
    spaceNext (chars ++ after) = false := by
  cases chars with
  | nil => cases hchars
  | cons char rest => exact hchars

/-- A plain scalar is read up to its end, whatever comes after it. -/
theorem plainText?_append {floor : Nat} {chars : List Char}
    (hspace : ∀ gap ∈ space, isBreak gap = false)
    (hchars : goesOnPlain (!space.isEmpty) chars = true) (after : List Char) :
    plainText? false floor space (chars ++ after) =
      (plainText? false floor [] after).map fun (text, left, fresh) =>
        (space.reverse ++ chars ++ text, left, fresh) := by
  induction chars generalizing space with
  | nil =>
      have hnil : space = [] := by simpa [goesOnPlain] using hchars
      simp [hnil]
  | cons char rest ih =>
      simp only [goesOnPlain, Bool.and_eq_true, Bool.not_eq_true'] at hchars
      obtain ⟨⟨⟨hinline, hcomment⟩, hcolon⟩, hrest⟩ := hchars
      have hbreak := isBreak_of_isInline hinline
      have hany : space.any isBreak = false := by simpa using hspace
      rw [List.cons_append, plainText?]
      by_cases hgap : isGap char = true
      · rw [isSpace, hgap, hany]
        simp only [Bool.true_or, Bool.and_false, Bool.false_and,
          Bool.false_eq_true, if_true, if_false]
        rw [ih (by simpa [hbreak] using hspace) (by simpa [hgap] using hrest)]
        simp
      · have hchar : isSpace char = false := by simp [isSpace, hgap, hbreak]
        have hstays : (!space.isEmpty &&
            endsAfterSpace false floor space (char :: (rest ++ after))) =
              false := by
          rw [endsAfterSpace, hany]
          simpa using hcomment
        have hword : endsPlain false (char :: (rest ++ after)) = false := by
          by_cases hsign : char = ':'
          · have hnext : spaceNext rest = false := by simpa [hsign] using hcolon
            simp [endsPlain, spaceNext_append after hnext]
          · simp [endsPlain, hsign]
        have hkept : foldSpace space.reverse = space.reverse := by
          apply foldSpace_of_no_breaks
          intro gap hmem
          exact hspace gap (List.mem_reverse.mp hmem)
        rw [hchar, hstays, hword, hkept]
        simp only [Bool.false_and, Bool.false_eq_true, if_false]
        rw [ih (by simp) (by simpa [hgap] using hrest)]
        simp [Function.comp_def]

end

/-- What the first character of a plain scalar is not. -/
theorem beginsPlain_cons {char : Char} {rest : List Char}
    (hbegins : beginsPlain false (char :: rest) = true) :
    isIndicator char = false ∧ isSpace char = false ∧
      (char = '-' ∨ char = '?' ∨ char = ':' → spaceNext rest = false) := by
  rw [beginsPlain] at hbegins
  split at hbegins
  · rename_i hdash
    rw [beq_iff_eq] at hdash
    subst hdash
    exact ⟨by decide, by decide, fun _ => by simpa using hbegins⟩
  · rename_i hdash
    split at hbegins
    · rename_i hsign
      rw [Bool.or_eq_true, beq_iff_eq, beq_iff_eq] at hsign
      have hnext : spaceNext rest = false := by simpa using hbegins
      rcases hsign with rfl | rfl
      · exact ⟨by decide, by decide, fun _ => hnext⟩
      · exact ⟨by decide, by decide, fun _ => hnext⟩
    · rename_i hsign
      simp only [beq_iff_eq, Bool.or_eq_true, not_or] at hdash hsign
      simp only [Bool.and_eq_true, Bool.not_eq_true'] at hbegins
      refine ⟨hbegins.1, hbegins.2, ?_⟩
      rintro (h | h | h)
      · exact absurd h hdash
      · exact absurd h hsign.1
      · exact absurd h hsign.2

theorem beginsPlain_append {chars : List Char} (after : List Char)
    (hbegins : beginsPlain false chars = true) :
    beginsPlain false (chars ++ after) = true := by
  cases chars with
  | nil => cases hbegins
  | cons char rest =>
      obtain ⟨hindicator, hspace, hsign⟩ := beginsPlain_cons hbegins
      rw [List.cons_append, beginsPlain]
      by_cases hdash : char = '-' ∨ char = '?' ∨ char = ':'
      · have hnext := spaceNext_append after (hsign hdash)
        rcases hdash with rfl | rfl | rfl <;> simp [hnext]
      · simp only [not_or] at hdash
        simp [hdash, hindicator, hspace]

theorem isInline_of_goesOnPlain {chars : List Char} {gap : Bool}
    (hchars : goesOnPlain gap chars = true) :
    ∀ char ∈ chars, isInline char = true := by
  induction chars generalizing gap with
  | nil => exact fun _ hchar => absurd hchar List.not_mem_nil
  | cons first rest ih =>
      simp only [goesOnPlain, Bool.and_eq_true] at hchars
      intro char hchar
      rcases List.mem_cons.mp hchar with rfl | hrest
      · exact hchars.1.1.1
      · exact ih hchars.2 char hrest

/-- Printable characters of ASCII stay on a line. -/
theorem isInline_of_printable {char : Char} (hlow : 0x20 ≤ char.toNat)
    (hhigh : char.toNat ≤ 0x7E) : isInline char = true := by
  have hne : ∀ other : Char, other.toNat < 0x20 ∨ 0x7E < other.toNat →
      char ≠ other := by
    rintro other hother rfl
    omega
  simp [isInline, isBreak, isWritable, hlow, hhigh, hne '\n' (by decide),
    hne '\u2028' (by decide), hne '\u2029' (by decide), hne '\r' (by decide),
    hne '\u0085' (by decide)]

theorem isInline_of_hexDigit? {digit : Char}
    (hdigit : (hexDigit? digit).isSome = true) : isInline digit = true := by
  have hrange : ('0' ≤ digit ∧ digit ≤ '9') ∨ ('a' ≤ digit ∧ digit ≤ 'f') ∨
      ('A' ≤ digit ∧ digit ≤ 'F') := by
    unfold hexDigit? at hdigit
    split at hdigit
    · exact .inl ‹_›
    · split at hdigit
      · exact .inr (.inl ‹_›)
      · split at hdigit
        · exact .inr (.inr ‹_›)
        · cases hdigit
  simp only [Char.le_def, UInt32.le_iff_toNat_le] at hrange
  rcases hrange with hrange | hrange | hrange
  · exact isInline_of_printable (Nat.le_trans (by decide) hrange.1)
      (Nat.le_trans hrange.2 (by decide))
  · exact isInline_of_printable (Nat.le_trans (by decide) hrange.1)
      (Nat.le_trans hrange.2 (by decide))
  · exact isInline_of_printable (Nat.le_trans (by decide) hrange.1)
      (Nat.le_trans hrange.2 (by decide))

theorem isSome_hexDigit?_of_mapM {digits : List Char} {values : List Nat}
    (hvalues : digits.mapM hexDigit? = some values) :
    ∀ digit ∈ digits, (hexDigit? digit).isSome = true := by
  induction digits generalizing values with
  | nil => exact fun _ hdigit => absurd hdigit List.not_mem_nil
  | cons first rest ih =>
      rw [List.mapM_cons] at hvalues
      cases hfirst : hexDigit? first with
      | none => simp [hfirst] at hvalues
      | some value =>
          cases hrest : rest.mapM hexDigit? with
          | none => simp [hfirst, hrest] at hvalues
          | some others =>
              intro digit hdigit
              rcases List.mem_cons.mp hdigit with rfl | hlater
              · rw [hfirst]
                rfl
              · exact ih hrest digit hlater

theorem QuotedUnit.inline {unit : QuotedUnit}
    (hunit : unit.value?.isSome = true) :
    ∀ char ∈ unit.chars, isInline char = true := by
  obtain ⟨value, hvalue⟩ := Option.isSome_iff_exists.mp hunit
  cases unit with
  | raw first =>
      simp only [value?, Option.ite_none_right_eq_some, Bool.and_eq_true]
        at hvalue
      intro char hchar
      rw [List.mem_singleton.mp hchar]
      exact hvalue.1.1.1
  | escape letter =>
      simp only [value?, Option.ite_none_right_eq_some] at hvalue
      intro char hchar
      simp only [chars, List.mem_cons, List.not_mem_nil, or_false] at hchar
      rcases hchar with rfl | rfl
      · decide
      · exact hvalue.1
  | number letter digits =>
      simp only [value?, Option.ite_none_right_eq_some] at hvalue
      obtain ⟨hwidth, hnumber⟩ := hvalue
      obtain ⟨values, hvalues, -⟩ := Option.bind_eq_some_iff.mp hnumber
      have hdigits := isSome_hexDigit?_of_mapM hvalues
      intro char hchar
      simp only [chars, List.mem_cons] at hchar
      rcases hchar with rfl | rfl | hchar
      · decide
      · exact isInline_of_escapedWidth? hwidth
      · exact isInline_of_hexDigit? (hdigits char hchar)

/-- A scalar stays on its line. -/
theorem Written.inline {written : Written}
    (hwritten : written.wellFormed = true) :
    ∀ char ∈ written.chars, isInline char = true := by
  cases written with
  | plain chars =>
      simp only [wellFormed, Bool.and_eq_true] at hwritten
      exact isInline_of_goesOnPlain hwritten.2
  | single chars =>
      simp only [wellFormed, List.all_eq_true] at hwritten
      intro char hchar
      simp only [Written.chars, doubleMarks, List.mem_append, List.mem_cons,
        List.mem_flatMap, List.not_mem_nil, or_false] at hchar
      rcases hchar with (rfl | ⟨inner, hinner, hchar⟩) | rfl
      · decide
      · split at hchar
        · simp at hchar
          subst hchar
          decide
        · rw [List.mem_singleton.mp hchar]
          exact hwritten inner hinner
      · decide
  | double units =>
      simp only [wellFormed, List.all_eq_true] at hwritten
      intro char hchar
      simp only [Written.chars, List.mem_append, List.mem_cons,
        List.mem_flatMap, List.not_mem_nil, or_false] at hchar
      rcases hchar with (rfl | ⟨unit, hunit, hchar⟩) | rfl
      · decide
      · exact QuotedUnit.inline (hwritten unit hunit) char hchar
      · decide

end Stencil
