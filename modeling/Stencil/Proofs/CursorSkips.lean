/-
Where a scalar on a line is left.  A plain one may take the space and the line
breaks after it along, but skipping from there comes to the same place as
skipping from right after its last word.
-/
import Stencil.Proofs.WrittenScalars

namespace Stencil

namespace Cursor

section

variable {taken left : List Char} {line column : Nat} {fresh : Bool}

/-- On a line the column counts the characters. -/
theorem pass_inline (htaken : ∀ char ∈ taken, isBreak char = false) :
    pass taken.length ⟨taken ++ left, line, column, fresh⟩ =
      ⟨left, line, column + taken.length, fresh⟩ := by
  induction taken generalizing column with
  | nil => rfl
  | cons char rest ih =>
      have hstep : step ⟨char :: (rest ++ left), line, column, fresh⟩ =
          ⟨rest ++ left, line, column + 1, fresh⟩ := by
        rw [step]
        exact if_neg (by simp [htaken char List.mem_cons_self])
      rw [List.cons_append, List.length_cons, pass, hstep,
        ih (fun next hnext => htaken next (List.mem_cons_of_mem _ hnext)),
        Nat.add_assoc, Nat.add_comm 1]

theorem pass_add (first second : Nat) (cursor : Cursor) :
    pass (first + second) cursor = pass second (pass first cursor) := by
  induction first generalizing cursor with
  | zero => rw [Nat.zero_add, pass]
  | succ first ih => rw [Nat.succ_add, pass, ih, pass]

/-- Where the characters lead to does not depend on whether an entry may begin
there. -/
theorem pass_fresh (count : Nat) {rest : List Char} {first second : Bool} :
    { pass count ⟨rest, line, column, first⟩ with fresh := fresh } =
      { pass count ⟨rest, line, column, second⟩ with fresh := fresh } := by
  induction count generalizing rest line column with
  | zero => rfl
  | succ count ih =>
      cases rest with
      | nil => exact ih
      | cons char rest =>
          simp only [pass, step]
          split
          · exact ih
          · exact ih

/-- Whether all of some space is skipped: tabs are where no entry may begin. -/
def skips (fresh : Bool) : List Char → Bool
  | [] => true
  | char :: rest =>
      (char == ' ' || (char == '\t' && !fresh) || isBreak char) &&
        skips (fresh || isBreak char) rest

/-- Skipping goes on from where space has been passed. -/
theorem skip_pass {space : List Char} (hspace : skips fresh space = true) :
    skip { pass space.length ⟨space ++ left, line, column, fresh⟩ with
      fresh := fresh || space.any isBreak } false =
      skip ⟨space ++ left, line, column, fresh⟩ false := by
  induction space generalizing line column fresh with
  | nil => simp [pass]
  | cons char rest ih =>
      simp only [skips, Bool.and_eq_true] at hspace
      obtain ⟨hchar, hrest⟩ := hspace
      have hstep : ∃ line' column',
          step ⟨char :: (rest ++ left), line, column, fresh⟩ =
            ⟨rest ++ left, line', column', fresh⟩ ∧
          skip ⟨char :: (rest ++ left), line, column, fresh⟩ false =
            skip ⟨rest ++ left, line', column', fresh || isBreak char⟩
              false := by
        by_cases hbreak : isBreak char = true
        · exact ⟨line + 1, 0, by simp [step, hbreak],
            by simp [skip, skipFrom, hbreak]⟩
        · have hcomment : char ≠ '#' := by
            rintro rfl
            simp [isBreak] at hchar
          refine ⟨line, column + 1, by simp [step, hbreak], ?_⟩
          simp only [hbreak, Bool.or_false] at hchar
          simp [skip, skipFrom, hbreak, hcomment, hchar]
      obtain ⟨line', column', hmoved, hskipped⟩ := hstep
      have hmore := @ih line' column' (fresh || isBreak char) hrest
      rw [List.cons_append, hskipped, ← hmore, List.length_cons, pass, hmoved]
      simp only [List.any_cons, Bool.or_assoc]
      rw [pass_fresh]

theorem leave_inline {cursor : Cursor} (hrest : cursor.rest = taken ++ left)
    (htaken : ∀ char ∈ taken, isBreak char = false) :
    cursor.leave left fresh =
      ⟨left, cursor.line, cursor.column + taken.length, fresh⟩ := by
  obtain ⟨rest, line, column, old⟩ := cursor
  obtain rfl : rest = taken ++ left := hrest
  simp [leave, pass_inline htaken]

/-- Leaving a line and the space after it, and skipping from there, is skipping
from the end of the line. -/
theorem skip_leave {cursor : Cursor} {space : List Char}
    (hrest : cursor.rest = taken ++ (space ++ left))
    (htaken : ∀ char ∈ taken, isBreak char = false)
    (hspace : skips false space = true) :
    (cursor.leave left (space.any isBreak)).skip false =
      skip ⟨space ++ left, cursor.line, cursor.column + taken.length, false⟩
        false := by
  obtain ⟨rest, line, column, old⟩ := cursor
  obtain rfl : rest = taken ++ (space ++ left) := hrest
  have hcount : (taken ++ (space ++ left)).length - left.length =
      taken.length + space.length := by
    simp only [List.length_append]
    omega
  have hskip := @skip_pass left line (column + taken.length) false space hspace
  rw [Bool.false_or] at hskip
  rw [← hskip, leave, hcount, pass_add, pass_inline htaken, pass_fresh]

end

end Cursor

/-- Whether a scalar ends before these characters: no quotation mark, and
nothing that a plain scalar would take in but space. -/
def EndsScalar (floor : Nat) (after : List Char) : Prop :=
  after.head? ≠ some '\'' ∧ ∃ space left, after = space ++ left ∧
    Cursor.skips false space = true ∧
      plainText? false floor [] after = some ([], left, space.any isBreak)

theorem scalar?_of_beginsPlain {floor : Nat} {cursor : Cursor}
    (hbegins : beginsPlain false cursor.rest = true) :
    scalar? false floor cursor =
      (plainText? false floor [] cursor.rest).map fun (text, left, fresh) =>
        (⟨String.ofList text, .plain, none⟩, cursor.leave left fresh) := by
  rw [scalar?]
  split
  · rename_i hrest
    rw [hrest] at hbegins
    exact absurd (beginsPlain_cons hbegins).1 (by decide)
  · rename_i hrest
    rw [hrest] at hbegins
    exact absurd (beginsPlain_cons hbegins).1 (by decide)
  · rw [if_pos hbegins]

/-- A scalar on a line is read as what it means, and skipping goes on as if from
its end. -/
theorem Written.read {written : Written} {floor : Nat} {cursor : Cursor}
    {after : List Char} (hwritten : written.wellFormed = true)
    (hrest : cursor.rest = written.chars ++ after)
    (hafter : EndsScalar floor after) :
    ∃ next, scalar? false floor cursor = some (written.scalar, next) ∧
      next.skip false =
        Cursor.skip ⟨after, cursor.line,
          cursor.column + written.chars.length, false⟩ false := by
  have hinline : ∀ char ∈ written.chars, isBreak char = false :=
    fun char hchar => isBreak_of_isInline (written.inline hwritten char hchar)
  have hleave := @Cursor.leave_inline _ _ false cursor hrest hinline
  cases written with
  | plain chars =>
      obtain ⟨-, space, left, rfl, hspace, hends⟩ := hafter
      simp only [wellFormed, Bool.and_eq_true] at hwritten
      obtain ⟨⟨hbegins, -⟩, hplain⟩ := hwritten
      refine ⟨cursor.leave left (space.any isBreak), ?_,
        Cursor.skip_leave hrest hinline hspace⟩
      have hread : plainText? false floor [] cursor.rest =
          some (chars, left, space.any isBreak) := by
        have htext := @plainText?_append [] floor chars
          (fun gap hgap => absurd hgap List.not_mem_nil) hplain (space ++ left)
        rw [hrest, Written.chars, htext, hends]
        simp
      have hfirst : beginsPlain false cursor.rest = true := by
        rw [hrest]
        exact beginsPlain_append _ hbegins
      rw [scalar?_of_beginsPlain hfirst, hread]
      rfl
  | single chars =>
      refine ⟨_, ?_, congrArg (Cursor.skip · false) hleave⟩
      simp only [wellFormed, List.all_eq_true] at hwritten
      have hread := quotedText?_single hwritten
        (fun gap hgap => absurd hgap List.not_mem_nil) hafter.1
      simp only [scalar?, hrest, Written.chars, List.cons_append,
        List.append_assoc, List.nil_append, hread]
      rfl
  | double units =>
      refine ⟨_, ?_, congrArg (Cursor.skip · false) hleave⟩
      simp only [wellFormed, List.all_eq_true] at hwritten
      have hread := quotedText?_double hwritten
        (fun gap hgap => absurd hgap List.not_mem_nil) after
      simp only [scalar?, hrest, Written.chars, List.cons_append,
        List.append_assoc, List.nil_append, hread]
      rfl

section

variable {floor : Nat} {space left : List Char}

/-- Space after a word is kept for the next one. -/
theorem plainText?_space {before : List Char}
    (hspace : Cursor.skips (before.any isBreak) space = true) :
    plainText? false floor before (space ++ left) =
      plainText? false floor (space.reverse ++ before) left := by
  induction space generalizing before with
  | nil => rfl
  | cons char rest ih =>
      simp only [Cursor.skips, Bool.and_eq_true, Bool.or_eq_true, beq_iff_eq,
        Bool.not_eq_true'] at hspace
      obtain ⟨hchar, hrest⟩ := hspace
      have hgap : isSpace char = true := by
        simp only [isSpace, isGap, Bool.or_eq_true, beq_iff_eq]
        rcases hchar with (hblank | htab) | hbreak
        · exact .inl (.inl hblank)
        · exact .inl (.inr htab.1)
        · exact .inr hbreak
      have htab : (char == '\t' && before.any isBreak) = false := by
        rcases hchar with (rfl | htab) | hbreak
        · rfl
        · rw [htab.2, Bool.and_false]
        · have hne : char ≠ '\t' := by
            rintro rfl
            simp [isBreak] at hbreak
          simp [hne]
      have hmore := @ih (char :: before)
        (by rwa [List.any_cons, Bool.or_comm])
      rw [List.cons_append, plainText?, hgap, htab, List.reverse_cons,
        List.append_assoc]
      exact hmore

/-- A scalar ends after space before a comment, before a line that is not
indented enough, and before a colon that stands alone. -/
theorem endsScalar_of_space (hspace : Cursor.skips false space = true)
    (hleft : left = [] ∨ ∃ char rest, left = char :: rest ∧
      isSpace char = false ∧
        (space ≠ [] ∧ (char = '#' ∨ (space.any isBreak = true ∧
          lineFill space.reverse < floor)) ∨
        char = ':' ∧ spaceNext rest = true)) :
    EndsScalar floor (space ++ left) := by
  refine ⟨?_, space, left, rfl, hspace, ?_⟩
  · cases space with
    | nil =>
        rcases hleft with rfl | ⟨char, rest, rfl, -, ⟨hnil, -⟩ | ⟨rfl, -⟩⟩
        · simp
        · exact absurd rfl hnil
        · simp
    | cons char rest =>
        intro hhead
        obtain rfl : char = '\'' := Option.some.inj hhead
        simp [Cursor.skips, isBreak] at hspace
  · have hread := @plainText?_space floor space left [] hspace
    rw [hread, List.append_nil]
    rcases hleft with rfl | ⟨char, rest, rfl, hchar, hends⟩
    · simp [plainText?]
    · have hstop : (!space.reverse.isEmpty &&
          endsAfterSpace false floor space.reverse (char :: rest)) = true ∨
            endsPlain false (char :: rest) = true := by
        rcases hends with ⟨hspace, rfl | ⟨hbreak, hfill⟩⟩ | ⟨rfl, hrest⟩
        · exact .inl (by simp [hspace, endsAfterSpace])
        · exact .inl (by simp [hspace, endsAfterSpace, hbreak, hfill])
        · exact .inr (by simp [endsPlain, hrest])
      rw [plainText?, hchar, List.any_reverse]
      rcases hstop with hstop | hstop
      · rw [hstop]
        rfl
      · rw [hstop]
        simp

theorem skips_gap {gap : List Char} (hgap : ∀ char ∈ gap, isGap char = true) :
    Cursor.skips false gap = true ∧ gap.any isBreak = false := by
  induction gap with
  | nil => exact ⟨rfl, rfl⟩
  | cons char rest ih =>
      have hrest := ih fun next hnext =>
        hgap next (List.mem_cons_of_mem _ hnext)
      have hchar := hgap char List.mem_cons_self
      simp only [isGap, Bool.or_eq_true, beq_iff_eq] at hchar
      rcases hchar with rfl | rfl
      · exact ⟨hrest.1, hrest.2⟩
      · exact ⟨hrest.1, hrest.2⟩

theorem skips_append {fresh : Bool} {more : List Char} :
    Cursor.skips fresh (space ++ more) =
      (Cursor.skips fresh space &&
        Cursor.skips (fresh || space.any isBreak) more) := by
  induction space generalizing fresh with
  | nil => simp [Cursor.skips]
  | cons char rest ih => simp [Cursor.skips, ih, Bool.and_assoc, Bool.or_assoc]

theorem skips_blank {fresh : Bool}
    (hspace : ∀ char ∈ space, char = ' ' ∨ char = '\n') :
    Cursor.skips fresh space = true := by
  induction space generalizing fresh with
  | nil => rfl
  | cons char rest ih =>
      have hrest := fun next hnext => hspace next (List.mem_cons_of_mem _ hnext)
      rcases hspace char List.mem_cons_self with rfl | rfl
      · simp [Cursor.skips, ih hrest]
      · simp [Cursor.skips, isBreak, ih hrest]

/-- A key ends before its colon. -/
theorem endsScalar_colon {gap : List Char}
    (hgap : ∀ char ∈ gap, isGap char = true) (hleft : spaceNext left = true) :
    EndsScalar floor (gap ++ ':' :: left) :=
  endsScalar_of_space (skips_gap hgap).1
    (.inr ⟨':', left, rfl, by decide, .inr ⟨rfl, hleft⟩⟩)

theorem lineFill_append {more : List Char} (hspace : space.any isBreak = true) :
    lineFill (space ++ more) = lineFill space := by
  induction space with
  | nil => cases hspace
  | cons char rest ih =>
      by_cases hbreak : isBreak char = true
      · simp [lineFill, hbreak]
      · have hrest : rest.any isBreak = true := by simpa [hbreak] using hspace
        simpa [lineFill, hbreak] using ih hrest

theorem lineFill_indent (indent : Nat) :
    lineFill ('\n' :: List.replicate indent ' ').reverse = indent := by
  induction indent with
  | zero => simp [lineFill, isBreak]
  | succ indent ih =>
      rw [List.reverse_cons, List.reverse_replicate] at ih ⊢
      simp [lineFill, List.replicate_succ, isBreak]

end

end Stencil
