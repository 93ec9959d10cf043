/-
The line table as a history of marks.  Replaying the operations on a page, the
latest first, gives the marks that stand: those made before any exit, and not
cleared since.  The table holds for every completed output line the last mark
that belongs to it, and nothing else.
-/
import Stencil.Proofs.Frozen
import Stencil.Proofs.LineCount

namespace Stencil

/-- A mark: the output line that it belongs to, and the source line that it
names. -/
structure LineMark where
  line : Nat
  source : Nat
  deriving DecidableEq, Repr

/-- The marks that stand after an operation that has its effect and leaves the
page on an output line: a mark belongs to the line in progress when its text
has just been written. -/
def PageOp.leaves (op : PageOp) (line : Nat) (marks : List LineMark) :
    List LineMark :=
  match op with
  | .markLine source => ⟨line, source⟩ :: marks
  | .clear => []
  | .print _ | .println _ | .printForced _ | .plain _ | .plainLine _
  | .openTag | .closeTag | .requestExit => marks

/-- The marks that stand after operations on a page; in both lists the latest
comes first.  Once an exit has been requested nothing is marked or cleared. -/
def Page.standing (start : Page) : List PageOp → List LineMark
  | [] => []
  | op :: earlier =>
      if .requestExit ∈ earlier then start.standing earlier
      else
        op.leaves (lineBreaks (start.applyAll (op :: earlier).reverse).output)
          (start.standing earlier)

/-- The source line of the last mark that belongs to an output line. -/
def lastMark (marks : List LineMark) (line : Nat) : Option Nat :=
  (marks.find? (·.line == line)).map LineMark.source

theorem lastMark_cons (mark : LineMark) (marks : List LineMark)
    (line : Nat) :
    lastMark (mark :: marks) line =
      if mark.line = line then some mark.source else lastMark marks line := by
  rw [lastMark, List.find?_cons]
  by_cases hline : mark.line = line
  · simp [hline]
  · simp only [beq_false_of_ne hline, if_neg hline, lastMark]

theorem lastMark_eq_none {marks : List LineMark} {line : Nat}
    (hbehind : ∀ mark ∈ marks, mark.line < line) :
    lastMark marks line = none := by
  rw [lastMark, Option.map_eq_none_iff, List.find?_eq_none]
  intro mark hmark
  have hlt := hbehind mark hmark
  simp only [beq_iff_eq]
  omega

/-- The table that marks give when so many output lines are completed. -/
def replayTable (marks : List LineMark) : Nat → List Nat
  | 0 => []
  | line + 1 =>
      match lastMark marks line with
      | none => replayTable marks line
      | some source => recordLine (replayTable marks line) line source

/-- A mark on a line that is not completed does not appear. -/
theorem replayTable_cons (mark : LineMark) (marks : List LineMark)
    {lines : Nat} (hlines : lines ≤ mark.line) :
    replayTable (mark :: marks) lines = replayTable marks lines := by
  induction lines with
  | zero => rfl
  | succ line ih =>
      have hother : mark.line ≠ line := by omega
      rw [replayTable, replayTable, lastMark_cons, if_neg hother,
        ih (by omega)]

/-- How a table that marks give is read: its entries are the marks, it covers
all that belong to a completed line, and it ends with one. -/
structure ReadsAs (lineMap : List Nat) (marks : List LineMark)
    (lines : Nat) : Prop where
  entry : ∀ line, line < lineMap.length →
    lineMap[line]? = some ((lastMark marks line).getD 0)
  covers : ∀ line, line < lines → lastMark marks line ≠ none →
    line < lineMap.length
  tight : ∀ line, lineMap.length = line + 1 →
    line < lines ∧ lastMark marks line ≠ none

theorem ReadsAs.length_le {lineMap : List Nat} {marks : List LineMark}
    {lines : Nat} (hreads : ReadsAs lineMap marks lines) :
    lineMap.length ≤ lines := by
  cases hlength : lineMap.length with
  | zero => exact Nat.zero_le lines
  | succ line => exact (hreads.tight line hlength).1

/-- Completing a line that no mark belongs to adds nothing to the table. -/
theorem ReadsAs.skip {lineMap : List Nat} {marks : List LineMark}
    {lines : Nat} (hreads : ReadsAs lineMap marks lines)
    (hnone : lastMark marks lines = none) :
    ReadsAs lineMap marks (lines + 1) where
  entry := hreads.entry
  covers line hline hmarked := by
    have hne : line ≠ lines := by
      rintro rfl
      exact hmarked hnone
    exact hreads.covers line (by omega) hmarked
  tight line hlength := by
    obtain ⟨hline, hmarked⟩ := hreads.tight line hlength
    exact ⟨by omega, hmarked⟩

/-- An entry past the end of a table is read back; before it stands what stood
there, or else 0. -/
theorem getElem?_recordLine_of_le {lineMap : List Nat} {line index : Nat}
    (hlength : lineMap.length ≤ line) (source : Nat) (hindex : index ≤ line) :
    (recordLine lineMap line source)[index]? =
      some (if index = line then source else lineMap[index]?.getD 0) := by
  rw [recordLine_of_length_le hlength]
  rcases Nat.lt_or_ge index lineMap.length with hold | hnew
  · rw [List.getElem?_append_left hold, List.getElem?_eq_getElem hold,
      if_neg (by omega), Option.getD_some]
  · rw [List.getElem?_append_right hnew, List.getElem?_eq_none hnew]
    by_cases hline : index = line
    · rw [if_pos hline, hline, List.getElem?_append_right (by simp)]
      simp
    · rw [if_neg hline, List.getElem?_append_left (by simp; omega),
        List.getElem?_replicate, if_pos (by omega), Option.getD_none]

/-- Completing a line records the last mark that belongs to it. -/
theorem ReadsAs.record {lineMap : List Nat} {marks : List LineMark}
    {lines source : Nat} (hreads : ReadsAs lineMap marks lines)
    (hsource : lastMark marks lines = some source) :
    ReadsAs (recordLine lineMap lines source) marks (lines + 1) := by
  have hle := hreads.length_le
  have hlength : (recordLine lineMap lines source).length = lines + 1 := by
    rw [length_recordLine]
    omega
  refine ⟨?_, ?_, ?_⟩
  · intro line hline
    rw [getElem?_recordLine_of_le hle source (by omega)]
    by_cases hlast : line = lines
    · rw [if_pos hlast, hlast, hsource, Option.getD_some]
    · rw [if_neg hlast]
      rcases Nat.lt_or_ge line lineMap.length with hold | hpadded
      · rw [hreads.entry line hold, Option.getD_some]
      · have hnone : lastMark marks line = none := by
          by_contra hmarked
          have hcovered := hreads.covers line (by omega) hmarked
          omega
        rw [hnone, List.getElem?_eq_none hpadded]
  · intro line hline _
    omega
  · intro line hline
    have hsame : line = lines := by omega
    rw [hsame, hsource]
    exact ⟨Nat.lt_succ_self lines, Option.some_ne_none source⟩

theorem readsAs_replayTable (marks : List LineMark) (lines : Nat) :
    ReadsAs (replayTable marks lines) marks lines := by
  induction lines with
  | zero => exact ⟨nofun, nofun, nofun⟩
  | succ line ih =>
      rw [replayTable]
      split
      · rename_i hnone
        exact ih.skip hnone
      · rename_i source hsource
        exact ih.record hsource

/-- A page whose table and pending mark are what marks give. -/
structure Page.Replayed (marks : List LineMark) (page : Page) : Prop where
  table : page.lineMap = replayTable marks page.line
  pending : page.pendingMark = lastMark marks page.line
  behind : ∀ mark ∈ marks, mark.line ≤ page.line

variable {marks : List LineMark} {page : Page}

theorem Page.Replayed.put (hreplayed : page.Replayed marks) (char : Char) :
    (page.put char).Replayed marks := by
  rw [Page.put]
  split
  · refine ⟨?_, ?_, ?_⟩
    · cases hlast : lastMark marks page.line with
      | none | some source =>
          simp [endLine, replayTable, hreplayed.pending, hreplayed.table,
            hlast]
    · refine (lastMark_eq_none ?_).symm
      exact fun mark hmark => Nat.lt_succ_of_le (hreplayed.behind mark hmark)
    · exact fun mark hmark => Nat.le_succ_of_le (hreplayed.behind mark hmark)
  · exact ⟨hreplayed.table, hreplayed.pending, hreplayed.behind⟩

theorem Page.replayed_steady (marks : List LineMark) :
    Page.Steady (Page.Replayed marks) where
  put _ char hreplayed := hreplayed.put char
  bodies _ _ hreplayed := { hreplayed with }
  request _ hreplayed := { hreplayed with }
  notice _ _ hreplayed := { hreplayed with }

theorem Page.unlessExited_of_running (hexiting : page.exiting = false)
    (hexited : page.exited = false) (change : Page → Page) :
    page.unlessExited change = change page := by
  simp [unlessExited, checkExit, hexiting, hexited]

/-- What an operation does before any exit is what it leaves of the marks. -/
theorem Page.Replayed.apply (hreplayed : page.Replayed marks)
    (hexiting : page.exiting = false) (hexited : page.exited = false)
    (op : PageOp) :
    (page.apply op).2.Replayed
      (op.leaves (page.apply op).2.line marks) := by
  have hsteady := replayed_steady marks
  cases op with
  | markLine source =>
      -- The text of the mark may itself complete lines, with the older marks.
      have hpushed := hsteady.push hreplayed
        (page.lineMarker ++ toString source)
      rw [Page.apply, markLine, unlessExited_of_running hexiting hexited,
        PageOp.leaves]
      generalize page.push (page.lineMarker ++ toString source) = pushed
        at hpushed
      refine ⟨?_, ?_, ?_⟩
      · rw [replayTable_cons _ _ (Nat.le_refl _)]
        exact hpushed.table
      · rw [lastMark_cons, if_pos rfl]
      · intro mark hmark
        rcases List.mem_cons.mp hmark with rfl | hmark
        · exact Nat.le_refl _
        · exact hpushed.behind mark hmark
  | clear =>
      rw [Page.apply, clear, unlessExited_of_running hexiting hexited]
      exact ⟨rfl, rfl, fun _ hmark => absurd hmark List.not_mem_nil⟩
  | print | println | printForced | plain | plainLine | openTag | closeTag
  | requestExit => exact hsteady.apply hreplayed rfl

/-- Once an exit has been requested, no operation changes what the marks
give. -/
theorem Page.Replayed.apply_of_exiting (hreplayed : page.Replayed marks)
    (hexiting : page.exiting = true) (op : PageOp) :
    (page.apply op).2.Replayed marks := by
  have hsteady := replayed_steady marks
  cases op with
  | markLine source =>
      rw [Page.apply, markLine, unlessExited_of_exiting hexiting]
      exact hsteady.notice page hexiting hreplayed
  | clear =>
      rw [Page.apply, clear, unlessExited_of_exiting hexiting]
      exact hsteady.notice page hexiting hreplayed
  | print | println | printForced | plain | plainLine | openTag | closeTag
  | requestExit => exact hsteady.apply hreplayed rfl

theorem Page.exiting_push (page : Page) (text : String) :
    (page.push text).exiting = page.exiting := by
  rw [push_eq]

theorem Page.exiting_checkExit (page : Page) :
    page.checkExit.exiting = page.exiting := by
  rw [checkExit]
  split <;> rfl

theorem Page.exiting_unlessExited (page : Page) {change : Page → Page}
    (hchange : ∀ page : Page, (change page).exiting = page.exiting) :
    (page.unlessExited change).exiting = page.exiting := by
  simp only [unlessExited]
  split
  · exact page.exiting_checkExit
  · rw [hchange, exiting_checkExit]

theorem Page.exiting_print (page : Page) (text : String) :
    (page.print text).exiting = page.exiting :=
  page.exiting_unlessExited fun page => page.exiting_push text

theorem Page.exiting_println (page : Page) (text : String) :
    (page.println text).exiting = page.exiting :=
  page.exiting_unlessExited fun page =>
    ((page.push text).exiting_push "\n").trans (page.exiting_push text)

theorem Page.exiting_capture (page : Page) (text : String) :
    (page.capture text).exiting = page.exiting := by
  rw [capture]
  split
  · rfl
  · split <;> rfl

/-- Only the request itself makes a page exit. -/
theorem Page.exiting_apply_eq (page : Page) (op : PageOp) :
    (page.apply op).2.exiting = (page.exiting || op == .requestExit) := by
  cases op with
  | requestExit => simp [apply, requestExit]
  | print text => simp [apply, exiting_print]
  | println text => simp [apply, exiting_println]
  | printForced text =>
      simp [apply, printForced, exiting_checkExit, exiting_push]
  | plain text =>
      simp only [apply, plain]
      split
      · simp [exiting_print]
      · simp [exiting_capture]
  | plainLine text =>
      simp only [apply, plainLine]
      split
      · simp [exiting_println]
      · simp [exiting_capture]
  | openTag => simp [apply, openTag]
  | closeTag => simp [apply, closeTag_eq]
  | markLine source =>
      have hmark : (page.markLine source).exiting = page.exiting :=
        page.exiting_unlessExited fun page => page.exiting_push _
      simp [apply, hmark]
  | clear =>
      have hclear : page.clear.exiting = page.exiting :=
        page.exiting_unlessExited fun _ => rfl
      simp [apply, hclear]

theorem Page.exiting_applyAll_iff (page : Page) (ops : List PageOp) :
    (page.applyAll ops).exiting = true ↔
      page.exiting = true ∨ .requestExit ∈ ops := by
  induction ops generalizing page with
  | nil => simp [applyAll]
  | cons op rest ih =>
      rw [applyAll_cons, ih, exiting_apply_eq, Bool.or_eq_true, or_assoc,
        beq_iff_eq, List.mem_cons, @eq_comm _ op]

/-- After any history, given with the latest operation first, the page holds
what the marks that stand give. -/
theorem Page.replayed_standing (scope : Scope) (lineMarker : String)
    (history : List PageOp) :
    ((Page.blank scope lineMarker).applyAll history.reverse).Replayed
      ((Page.blank scope lineMarker).standing history) := by
  induction history with
  | nil => exact ⟨rfl, rfl, fun _ hmark => absurd hmark List.not_mem_nil⟩
  | cons op earlier ih =>
      have hlast : (Page.blank scope lineMarker).applyAll
          (op :: earlier).reverse =
          (((Page.blank scope lineMarker).applyAll
            earlier.reverse).apply op).2 := by
        rw [List.reverse_cons, applyAll_append]
        rfl
      have hline := (Page.counted_stable.keeps.applyAll
        (Page.Counted.blank scope lineMarker) (op :: earlier).reverse).line
      have hrequested := (Page.blank scope lineMarker).exiting_applyAll_iff
        earlier.reverse
      have hnoticed := exiting_of_exited_stable.keeps.applyAll
        (nofun : (Page.blank scope lineMarker).exited = true → _)
        earlier.reverse
      -- Both sides now speak of the page before the latest operation.
      rw [standing, ← hline, hlast]
      generalize (Page.blank scope lineMarker).applyAll earlier.reverse = page
        at ih hrequested hnoticed ⊢
      simp only [blank, Bool.false_eq_true, false_or, List.mem_reverse]
        at hrequested
      split
      · rename_i hmem
        exact ih.apply_of_exiting (hrequested.mpr hmem) op
      · rename_i hmem
        have hexiting : ¬page.exiting = true := mt hrequested.mp hmem
        exact ih.apply (eq_false_of_ne_true hexiting)
          (eq_false_of_ne_true (mt hnoticed hexiting)) op

/-- The table of a page tells of its completed lines what marks say of them.
-/
structure Page.Tells (page : Page) (marks : List LineMark) : Prop where
  /-- A completed line has the last mark that belongs to it. -/
  marked : ∀ line source, line < lineBreaks page.output →
    lastMark marks line = some source → page.lineMap[line]? = some source
  /-- A line without a mark has 0 where a later completed line has one. -/
  padded : ∀ line later, line < later → later < lineBreaks page.output →
    lastMark marks line = none → lastMark marks later ≠ none →
    page.lineMap[line]? = some 0
  /-- The table ends with the greatest completed line that has a mark. -/
  length : ∀ line, line < lineBreaks page.output →
    lastMark marks line ≠ none →
    (∀ later, line < later → later < lineBreaks page.output →
      lastMark marks later = none) →
    page.lineMap.length = line + 1
  /-- The table is empty where no completed line has a mark. -/
  empty : (∀ line, line < lineBreaks page.output →
    lastMark marks line = none) → page.lineMap = []
  /-- A mark on a line that is not completed does not appear. -/
  completed : page.lineMap.length ≤ lineBreaks page.output

theorem Page.Replayed.tells (hreplayed : page.Replayed marks)
    (hline : page.line = lineBreaks page.output) : page.Tells marks := by
  have hreads := readsAs_replayTable marks (lineBreaks page.output)
  rw [← hline, ← hreplayed.table, hline] at hreads
  refine ⟨?_, ?_, ?_, ?_, hreads.length_le⟩
  · intro line source hcompleted hmarked
    have hcovered := hreads.covers line hcompleted (by simp [hmarked])
    rw [hreads.entry line hcovered, hmarked, Option.getD_some]
  · intro line later hlater hcompleted hnone hmarked
    have hcovered := hreads.covers later hcompleted hmarked
    rw [hreads.entry line (by omega), hnone, Option.getD_none]
  · intro line hcompleted hmarked hlast
    have hcovered := hreads.covers line hcompleted hmarked
    obtain ⟨top, htop⟩ := Nat.exists_eq_add_one_of_ne_zero
      (show page.lineMap.length ≠ 0 by omega)
    obtain ⟨hwithin, htopMarked⟩ := hreads.tight top htop
    rcases Nat.lt_or_ge line top with hlt | hge
    · exact absurd (hlast top hlt hwithin) htopMarked
    · omega
  · intro hnone
    cases hmap : page.lineMap with
    | nil => rfl
    | cons first rest =>
        have hlength : page.lineMap.length = rest.length + 1 := by
          rw [hmap, List.length_cons]
        obtain ⟨hwithin, hmarked⟩ := hreads.tight rest.length hlength
        exact absurd (hnone rest.length hwithin) hmarked

/-- Whatever operations a blank page has seen, its table is the history of its
marks. -/
theorem Page.lineMap_tells_marks (scope : Scope) (lineMarker : String)
    (ops : List PageOp) :
    ((Page.blank scope lineMarker).applyAll ops).Tells
      ((Page.blank scope lineMarker).standing ops.reverse) := by
  have hreplayed := replayed_standing scope lineMarker ops.reverse
  rw [List.reverse_reverse] at hreplayed
  have hcounted := Page.counted_stable.keeps.applyAll
    (Page.Counted.blank scope lineMarker) ops
  exact hreplayed.tells hcounted.line

/-- Markers that each complete a line, a mark that is cleared, text in a tag,
and a line completed by force after the exit. -/
example :
    ((Page.blank [] "\n// ").applyAll
      [.markLine 9, .clear, .print "a\n", .markLine 2, .markLine 3,
        .openTag, .plain "b\n", .closeTag, .markLine 5, .requestExit,
        .markLine 7, .printForced "\n"]).lineMap = [0, 0, 2, 3, 5] := by
  decide +kernel

end Stencil
