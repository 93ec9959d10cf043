/-
The lines of a text that lists settings: blank ones, comments, and entries with
a key and perhaps a value, all in one column.  Reading goes from one entry to
the next, whatever stands between them.
-/
import Stencil.Outline
import Stencil.Proofs.CursorSkips

namespace Stencil

/-- A comment, if there is one. -/
def commentChars : Option (List Char) → List Char
  | none => []
  | some text => '#' :: text

/-- What may end a line: a gap, and after it a comment. -/
structure LineTail where
  gap : List Char
  comment : Option (List Char)
  deriving DecidableEq, Repr

def LineTail.chars (tail : LineTail) : List Char :=
  tail.gap ++ commentChars tail.comment

def LineTail.wellFormed (tail : LineTail) : Bool :=
  tail.gap.all isGap && tail.comment.all fun text =>
    !tail.gap.isEmpty && text.all isInline

/-- An entry as it stands on a line: a key, perhaps a gap, the colon, and
perhaps a gap and a value. -/
structure EntryLine where
  key : Written
  gap : List Char
  value : Option (List Char × Written)
  tail : LineTail
  deriving DecidableEq, Repr

namespace EntryLine

/-- What follows the colon of an entry, up to the tail. -/
def valueChars (entry : EntryLine) : List Char :=
  match entry.value with
  | none => []
  | some (gap, value) => gap ++ value.chars

def chars (entry : EntryLine) : List Char :=
  entry.key.chars ++ (entry.gap ++
    (':' :: (entry.valueChars ++ entry.tail.chars)))

/-- The gap before a value is not empty, and the colon comes soon enough. -/
def wellFormed (entry : EntryLine) : Bool :=
  entry.key.wellFormed && entry.gap.all isGap &&
    decide (byteWidth (entry.key.chars ++ entry.gap) ≤ keyReach) &&
    entry.value.all (fun (gap, value) =>
      !gap.isEmpty && gap.all isGap && value.wellFormed) &&
    entry.tail.wellFormed

/-- What an entry says: a scalar for a key and one for a value, which is empty
where none is written. -/
def pair (entry : EntryLine) : Scalar × Scalar :=
  (entry.key.scalar,
    (entry.value.map fun (_, value) => value.scalar).getD { text := "" })

end EntryLine

/-- A line with nothing on it but perhaps a comment. -/
structure Remark where
  indent : Nat
  comment : Option (List Char)
  deriving DecidableEq, Repr

def Remark.chars (remark : Remark) : List Char :=
  List.replicate remark.indent ' ' ++ commentChars remark.comment

def Remark.wellFormed (remark : Remark) : Bool :=
  remark.comment.all fun text => text.all isInline

inductive SettingsLine where
  | bare (remark : Remark)
  | entry (entry : EntryLine)
  deriving DecidableEq, Repr

def SettingsLine.chars (indent : Nat) : SettingsLine → List Char
  | .bare remark => remark.chars
  | .entry shown => List.replicate indent ' ' ++ shown.chars

/-- In the first column no entry looks like the beginning or the end of a
document. -/
def SettingsLine.wellFormed (indent : Nat) : SettingsLine → Bool
  | .bare remark => remark.wellFormed
  | .entry shown =>
      shown.wellFormed && (indent != 0 || !endsDocument shown.chars)

/-- Lines, each after a line feed. -/
def fedLines (lines : List (List Char)) : List Char :=
  lines.flatMap ('\n' :: ·)

@[simp] theorem fedLines_nil : fedLines [] = [] := rfl

@[simp] theorem fedLines_cons (line : List Char) (rest : List (List Char)) :
    fedLines (line :: rest) = '\n' :: (line ++ fedLines rest) := by
  simp [fedLines]

namespace Cursor

/-- Whether some lines come next, the first of them from its beginning. -/
def Awaits (cursor : Cursor) : List (List Char) → Prop
  | [] => (cursor.skip false).rest = []
  | first :: rest => ∃ line, cursor.skip false =
      skip ⟨first ++ fedLines rest, line, 0, true⟩ false

section

variable {line column : Nat} {fresh : Bool} {left : List Char}

theorem awaits_of_skip_eq {first second : Cursor} {lines : List (List Char)}
    (hskip : first.skip false = second.skip false)
    (hsecond : second.Awaits lines) : first.Awaits lines := by
  cases lines with
  | nil => exact (congrArg Cursor.rest hskip).trans hsecond
  | cons next rest =>
      obtain ⟨line, hline⟩ := hsecond
      exact ⟨line, hskip.trans hline⟩

theorem awaits_fedLines (lines : List (List Char)) :
    (⟨fedLines lines, line, column, fresh⟩ : Cursor).Awaits lines := by
  cases lines with
  | nil => rfl
  | cons first rest =>
      refine ⟨line + 1, ?_⟩
      simp [skip, skipFrom, isBreak]

theorem skipFrom_comment {text : List Char}
    (htext : ∀ char ∈ text, isBreak char = false) :
    skipFrom false true line column fresh (text ++ left) =
      skipFrom false true line (column + text.length) fresh left := by
  induction text generalizing column with
  | nil => rfl
  | cons char rest ih =>
      have hchar := htext char List.mem_cons_self
      have hrest := fun next hnext => htext next (List.mem_cons_of_mem _ hnext)
      simp [skipFrom, hchar, ih hrest, Nat.add_assoc, Nat.add_comm 1]

/-- A comment goes on to the end of its line. -/
theorem awaits_comment {comment : Option (List Char)}
    (hcomment : ∀ text ∈ comment, ∀ char ∈ text, isBreak char = false)
    (lines : List (List Char)) :
    (⟨commentChars comment ++ fedLines lines, line, column, fresh⟩ :
      Cursor).Awaits lines := by
  cases comment with
  | none => exact awaits_fedLines lines
  | some text =>
      have hskip : skip ⟨commentChars (some text) ++ fedLines lines, line,
          column, fresh⟩ false = skipFrom false true line
            (column + 1 + text.length) fresh (fedLines lines) := by
        rw [← skipFrom_comment (hcomment text rfl)]
        simp [skip, commentChars, skipFrom, isBreak]
      cases lines with
      | nil => exact congrArg Cursor.rest hskip
      | cons first rest =>
          refine ⟨line + 1, hskip.trans ?_⟩
          simp [skip, skipFrom, isBreak]

theorem skip_spaces (count : Nat) :
    skip ⟨List.replicate count ' ' ++ left, line, column, fresh⟩ false =
      skip ⟨left, line, column + count, fresh⟩ false := by
  induction count generalizing column with
  | zero => rfl
  | succ count ih =>
      have hmore := @ih (column + 1)
      rw [Nat.add_assoc, Nat.add_comm 1] at hmore
      rw [← hmore]
      simp [skip, List.replicate_succ, skipFrom, isBreak]

/-- A gap is skipped where no entry may begin. -/
theorem skip_gap {gap : List Char} (hgap : ∀ char ∈ gap, isGap char = true) :
    skip ⟨gap ++ left, line, column, false⟩ false =
      skip ⟨left, line, column + gap.length, false⟩ false := by
  induction gap generalizing column with
  | nil => rfl
  | cons char rest ih =>
      have hmore := @ih (column + 1)
        (fun next hnext => hgap next (List.mem_cons_of_mem _ hnext))
      rw [Nat.add_assoc, Nat.add_comm 1] at hmore
      have hchar := hgap char List.mem_cons_self
      simp only [isGap, Bool.or_eq_true, beq_iff_eq] at hchar
      rw [List.length_cons, ← hmore]
      rcases hchar with rfl | rfl <;> simp [skip, skipFrom, isBreak]

theorem isBreak_of_remark {remark : Remark}
    (hremark : remark.wellFormed = true) :
    ∀ text ∈ remark.comment, ∀ char ∈ text, isBreak char = false := by
  intro text htext char hchar
  have hcomment := (Option.all_eq_true _ _).mp hremark text htext
  exact isBreak_of_isInline (List.all_eq_true.mp hcomment char hchar)

/-- A line with nothing on it is skipped. -/
theorem Awaits.of_remark {cursor : Cursor} {remark : Remark}
    {rest : List (List Char)} (hremark : remark.wellFormed = true)
    (hcursor : cursor.Awaits (remark.chars :: rest)) : cursor.Awaits rest := by
  obtain ⟨line, hline⟩ := hcursor
  simp only [Remark.chars, List.append_assoc, skip_spaces] at hline
  exact awaits_of_skip_eq hline
    (awaits_comment (isBreak_of_remark hremark) rest)

/-- What ends a line is skipped. -/
theorem awaits_tail {tail : LineTail} (htail : tail.wellFormed = true)
    (lines : List (List Char)) :
    (⟨tail.chars ++ fedLines lines, line, column, false⟩ : Cursor).Awaits
      lines := by
  simp only [LineTail.wellFormed, Bool.and_eq_true, List.all_eq_true,
    Option.all_eq_true] at htail
  have hskip := @skip_gap line column (commentChars tail.comment ++
    fedLines lines) tail.gap htail.1
  rw [← List.append_assoc] at hskip
  refine awaits_of_skip_eq hskip (awaits_comment ?_ lines)
  intro text htext char hchar
  exact isBreak_of_isInline ((htail.2 text htext).2 char hchar)

/-- Skipping stops at what is no space and no comment. -/
theorem skip_of_shown {char : Char} (hspace : isSpace char = false)
    (hcomment : char ≠ '#') (hmark : char ≠ '\uFEFF') (later : List Char) :
    skip ⟨char :: later, line, column, fresh⟩ false =
      ⟨char :: later, line, column, fresh⟩ := by
  simp only [isSpace, isGap, Bool.or_eq_false_iff, beq_eq_false_iff_ne]
    at hspace
  simp [skip, skipFrom, hspace, hcomment, hmark]

theorem Awaits.of_indented {cursor : Cursor} {indent : Nat} {char : Char}
    {later : List Char} {rest : List (List Char)}
    (hspace : isSpace char = false) (hcomment : char ≠ '#')
    (hmark : char ≠ '\uFEFF')
    (hcursor : cursor.Awaits
      ((List.replicate indent ' ' ++ (char :: later)) :: rest)) :
    ∃ line, cursor.skip false =
      ⟨char :: (later ++ fedLines rest), line, indent, true⟩ := by
  obtain ⟨line, hline⟩ := hcursor
  rw [List.append_assoc, skip_spaces, Nat.zero_add] at hline
  exact ⟨line, hline.trans (skip_of_shown hspace hcomment hmark _)⟩

end

end Cursor

section

variable {floor : Nat}

/-- Whether the scalar of an entry ends before a line: there is nothing on it,
a comment, or something that is not indented enough. -/
def EndsBefore (floor : Nat) (line : List Char) : Prop :=
  ∃ indent shown, line = List.replicate indent ' ' ++ shown ∧
    (shown = [] ∨ ∃ char later, shown = char :: later ∧
      isSpace char = false ∧ (char = '#' ∨ indent < floor))

/-- The space goes on up to where a scalar ends. -/
theorem space_of_fedLines {lines : List (List Char)}
    (hlines : ∀ line ∈ lines, EndsBefore floor line) :
    ∃ space left, fedLines lines = space ++ left ∧
      (∀ char ∈ space, char = ' ' ∨ char = '\n') ∧
      (left = [] ∨ space.any isBreak = true ∧
        ∃ char rest, left = char :: rest ∧ isSpace char = false ∧
          (char = '#' ∨ lineFill space.reverse < floor)) := by
  induction lines with
  | nil => exact ⟨[], [], rfl, by simp, .inl rfl⟩
  | cons line rest ih =>
      obtain ⟨indent, shown, rfl, hshown⟩ := hlines line List.mem_cons_self
      have hindent : ∀ char ∈ '\n' :: List.replicate indent ' ',
          char = ' ' ∨ char = '\n' := by
        intro char hchar
        rcases List.mem_cons.mp hchar with hfeed | hblank
        · exact .inr hfeed
        · exact .inl (List.eq_of_mem_replicate hblank)
      rcases hshown with rfl | ⟨char, later, rfl, hchar, hends⟩
      · obtain ⟨space, left, hrest, hspace, hleft⟩ :=
          ih fun next hnext => hlines next (List.mem_cons_of_mem _ hnext)
        refine ⟨'\n' :: List.replicate indent ' ' ++ space, left,
          by simp [hrest], ?_, hleft.imp_right ?_⟩
        · intro char hchar
          exact (List.mem_append.mp hchar).elim (hindent char) (hspace char)
        · rintro ⟨hbreak, char, later, rfl, hchar, hends⟩
          have hfill := @lineFill_append space.reverse
            ('\n' :: List.replicate indent ' ').reverse
            (List.any_reverse.trans hbreak)
          rw [← List.reverse_append] at hfill
          exact ⟨by simp [hbreak], char, later, rfl, hchar, hfill ▸ hends⟩
      · refine ⟨'\n' :: List.replicate indent ' ',
          char :: (later ++ fedLines rest), by simp, hindent,
          .inr ⟨by simp [isBreak], char, _, rfl, hchar, ?_⟩⟩
        rwa [lineFill_indent]

/-- A value ends before what ends its line. -/
theorem endsScalar_tail {tail : LineTail} (htail : tail.wellFormed = true)
    {lines : List (List Char)}
    (hlines : ∀ line ∈ lines, EndsBefore floor line) :
    EndsScalar floor (tail.chars ++ fedLines lines) := by
  obtain ⟨gap, comment⟩ := tail
  simp only [LineTail.wellFormed, Bool.and_eq_true, List.all_eq_true] at htail
  obtain ⟨hgap, hcomment⟩ := htail
  obtain ⟨hskips, hflat⟩ := skips_gap hgap
  cases comment with
  | some text =>
      have hspace : gap ≠ [] := by
        rintro rfl
        cases hcomment
      have hends := @endsScalar_of_space floor gap
        ('#' :: (text ++ fedLines lines)) hskips
        (.inr ⟨'#', _, rfl, by decide, .inl ⟨hspace, .inl rfl⟩⟩)
      simpa [LineTail.chars, commentChars] using hends
  | none =>
      obtain ⟨space, left, hrest, hspace, hleft⟩ := space_of_fedLines hlines
      have hends : EndsScalar floor (gap ++ space ++ left) := by
        refine endsScalar_of_space ?_ (hleft.imp_right ?_)
        · rw [skips_append, hskips, skips_blank hspace, Bool.true_and]
        · rintro ⟨hbreak, char, later, rfl, hchar, hstop⟩
          have hany : (gap ++ space).any isBreak = true := by simp [hbreak]
          have hfill := @lineFill_append space.reverse gap.reverse
            (List.any_reverse.trans hbreak)
          rw [← List.reverse_append] at hfill
          refine ⟨char, later, rfl, hchar, .inl ⟨?_, hstop.imp_right ?_⟩⟩
          · rintro hnil
            rw [hnil] at hany
            cases hany
          · exact fun hlt => ⟨hany, hfill ▸ hlt⟩
      simpa [LineTail.chars, commentChars, hrest] using hends

end

end Stencil
