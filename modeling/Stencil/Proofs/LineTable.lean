/-
Where the entries of the line table come from.  Whatever source line the table
gives for an output line, that output line is complete and holds the mark of
the source line: the part of the marker after its last line break, and the
number.
-/
import Mathlib.Data.List.Induction
import Mathlib.Data.List.Infix
import Stencil.BoundedSink
import Stencil.Proofs.PageInvariant

namespace Stencil

/-- The lines of a text that a line break ends. -/
def completedLines (chars : List Char) : List (List Char) :=
  (chars.splitOn '\n').dropLast

/-- What stands after the last line break of a text. -/
def lineInProgress (chars : List Char) : List Char :=
  (chars.splitOn '\n').getLastD []

theorem splitOn_break (chars : List Char) :
    chars.splitOn '\n' = completedLines chars ++ [lineInProgress chars] := by
  have hne := List.splitOn_ne_nil '\n' chars
  have hlast := List.dropLast_concat_getLast hne
  rw [completedLines, lineInProgress, List.getLastD_eq_getLast?,
    List.getLast?_eq_some_getLast hne, Option.getD_some, hlast]

theorem completedLines_concat_break (chars : List Char) :
    completedLines (chars ++ ['\n']) =
      completedLines chars ++ [lineInProgress chars] := by
  rw [completedLines, List.splitOn_append_cons_self, List.splitOn_nil,
    List.dropLast_concat, splitOn_break]

theorem lineInProgress_concat_break (chars : List Char) :
    lineInProgress (chars ++ ['\n']) = [] := by
  rw [lineInProgress, List.splitOn_append_cons_self, List.splitOn_nil,
    List.getLastD_concat]

theorem splitOn_concat {char : Char} (hchar : char ≠ '\n')
    (chars : List Char) :
    ∃ lines last, chars.splitOn '\n' = lines ++ [last] ∧
      (chars ++ [char]).splitOn '\n' = lines ++ [last ++ [char]] := by
  induction chars with
  | nil =>
      refine ⟨[], [], rfl, ?_⟩
      exact List.splitOn_eq_singleton (by simpa using hchar.symm)
  | cons first rest ih =>
      obtain ⟨lines, last, hrest, hconcat⟩ := ih
      rw [List.cons_append, List.splitOn_cons_eq_if_modifyHead,
        List.splitOn_cons_eq_if_modifyHead, hrest, hconcat]
      by_cases hbreak : first = '\n'
      · exact ⟨[] :: lines, last, by simp [hbreak], by simp [hbreak]⟩
      · cases lines with
        | nil => exact ⟨[], first :: last, by simp [hbreak], by simp [hbreak]⟩
        | cons line lines =>
            exact ⟨(first :: line) :: lines, last, by simp [hbreak],
              by simp [hbreak]⟩

theorem completedLines_concat {char : Char} (hchar : char ≠ '\n')
    (chars : List Char) :
    completedLines (chars ++ [char]) = completedLines chars := by
  obtain ⟨lines, last, hchars, hconcat⟩ := splitOn_concat hchar chars
  rw [completedLines, completedLines, hchars, hconcat, List.dropLast_concat,
    List.dropLast_concat]

theorem lineInProgress_concat {char : Char} (hchar : char ≠ '\n')
    (chars : List Char) :
    lineInProgress (chars ++ [char]) = lineInProgress chars ++ [char] := by
  obtain ⟨lines, last, hchars, hconcat⟩ := splitOn_concat hchar chars
  rw [lineInProgress, lineInProgress, hchars, hconcat, List.getLastD_concat,
    List.getLastD_concat]

theorem lineInProgress_append_of_not_mem {tail : List Char}
    (htail : '\n' ∉ tail) (chars : List Char) :
    lineInProgress (chars ++ tail) = lineInProgress chars ++ tail := by
  induction tail using List.reverseRecOn with
  | nil => simp
  | append_singleton tail char ih =>
      rw [List.mem_append, not_or, List.mem_singleton] at htail
      rw [← List.append_assoc, lineInProgress_concat (Ne.symm htail.2),
        ih htail.1, List.append_assoc]

/-- Text before it leaves the last line of a text at the end. -/
theorem lineInProgress_suffix (chars tail : List Char) :
    lineInProgress tail <:+ lineInProgress (chars ++ tail) := by
  induction tail using List.reverseRecOn with
  | nil => exact List.nil_suffix
  | append_singleton tail char ih =>
      rw [← List.append_assoc]
      by_cases hbreak : char = '\n'
      · rw [hbreak, lineInProgress_concat_break, lineInProgress_concat_break]
      · rw [lineInProgress_concat hbreak, lineInProgress_concat hbreak]
        obtain ⟨earlier, hearlier⟩ := ih
        exact ⟨earlier, by rw [← hearlier, List.append_assoc]⟩

theorem break_not_mem_digits (value : Nat) :
    '\n' ∉ (toString value).toList := by
  intro hmem
  have hrepr : (toString value).toList = Nat.toDigits 10 value :=
    Nat.toList_repr
  rw [hrepr] at hmem
  have hdigit := Nat.isDigit_of_mem_toDigits (by decide) (by decide) hmem
  exact absurd hdigit (by decide)

/-- What a mark leaves on the output line in progress. -/
def markText (lineMarker : String) (source : Nat) : List Char :=
  lineInProgress lineMarker.toList ++ (toString source).toList

theorem markText_suffix (chars : List Char) (lineMarker : String)
    (source : Nat) :
    markText lineMarker source <:+
      lineInProgress (chars ++ (lineMarker ++ toString source).toList) := by
  rw [String.toList_append, ← List.append_assoc,
    lineInProgress_append_of_not_mem (break_not_mem_digits source)]
  obtain ⟨earlier, hearlier⟩ := lineInProgress_suffix chars lineMarker.toList
  exact ⟨earlier, by rw [markText, ← List.append_assoc, hearlier]⟩

/-- An output line is complete and holds the mark of a source line. -/
def Marked (lineMarker output : String) (line source : Nat) : Prop :=
  ∃ text, (completedLines output.toList)[line]? = some text ∧
    markText lineMarker source <:+: text

/-- A page whose table and pending mark are borne out by its output. -/
structure Page.Traced (lineMarker : String) (page : Page) : Prop where
  marker : page.lineMarker = lineMarker
  line : page.line = (completedLines page.output.toList).length
  pending : ∀ source, page.pendingMark = some source →
    markText lineMarker source <:+: lineInProgress page.output.toList
  table : ∀ line source, page.lineMap[line]? = some source → 0 < source →
    Marked lineMarker page.output line source

theorem Marked.mono {lineMarker output later : String} {line source : Nat}
    (hmarked : Marked lineMarker output line source)
    (hlines : completedLines output.toList <+:
      completedLines later.toList) : Marked lineMarker later line source := by
  obtain ⟨text, hline, hmark⟩ := hmarked
  obtain ⟨rest, hrest⟩ := hlines
  refine ⟨text, ?_, hmark⟩
  have hlt := (List.getElem?_eq_some_iff.mp hline).1
  rw [← hrest, List.getElem?_append_left hlt]
  exact hline

/-- A new table differs from the old one only where the line was recorded, and
in its padding. -/
theorem getElem?_recordLine {lineMap : List Nat} {line source index found : Nat}
    (hfound : (recordLine lineMap line source)[index]? = some found) :
    (index = line ∧ found = source) ∨ lineMap[index]? = some found ∨
      found = 0 := by
  rw [recordLine, List.getElem?_set] at hfound
  split at hfound
  · rename_i hline
    split at hfound
    · cases hfound
      exact Or.inl ⟨hline.symm, rfl⟩
    · cases hfound
  · rw [List.getElem?_append] at hfound
    split at hfound
    · exact Or.inr (Or.inl hfound)
    · rw [List.getElem?_replicate] at hfound
      split at hfound
      · cases hfound
        exact Or.inr (Or.inr rfl)
      · cases hfound

variable {lineMarker : String} {page : Page}

theorem Page.Traced.blank (scope : Scope) :
    (Page.blank scope lineMarker).Traced lineMarker where
  marker := rfl
  line := rfl
  pending := by
    intro source hpending
    cases hpending
  table := by
    intro line source htable
    cases htable

/-- A line break completes the line in progress, with its mark. -/
theorem Page.Traced.endLine (htraced : page.Traced lineMarker) :
    ({ page with output := page.output.push '\n' } : Page).endLine.Traced
      lineMarker := by
  have hlines : completedLines (page.output.push '\n').toList =
      completedLines page.output.toList ++
        [lineInProgress page.output.toList] := by
    rw [String.toList_push, completedLines_concat_break]
  have hkeep : ∀ line source, Marked lineMarker page.output line source →
      Marked lineMarker (page.output.push '\n') line source := by
    intro line source hmarked
    exact hmarked.mono (hlines ▸ List.prefix_append _ _)
  refine ⟨htraced.marker, ?_, ?_, ?_⟩
  · change page.line + 1 = (completedLines (page.output.push '\n').toList).length
    rw [hlines, List.length_append, List.length_singleton, htraced.line]
  · intro source hpending
    cases hpending
  · intro line source htable hpos
    change Marked lineMarker (page.output.push '\n') line source
    simp only [Page.endLine] at htable
    split at htable
    · exact hkeep line source (htraced.table line source htable hpos)
    · rename_i mark hmark
      rcases getElem?_recordLine htable with hnew | hold | hzero
      · obtain ⟨rfl, rfl⟩ := hnew
        refine ⟨lineInProgress page.output.toList, ?_,
          htraced.pending source hmark⟩
        rw [hlines, htraced.line, List.getElem?_concat_length]
      · exact hkeep line source (htraced.table line source hold hpos)
      · omega

theorem Page.Traced.put (htraced : page.Traced lineMarker) (char : Char) :
    (page.put char).Traced lineMarker := by
  simp only [Page.put]
  split
  · rename_i hbreak
    rw [hbreak]
    exact htraced.endLine
  · rename_i hchar
    refine ⟨htraced.marker, ?_, ?_, ?_⟩
    · simp only [String.toList_push, completedLines_concat hchar]
      exact htraced.line
    · intro source hpending
      simp only [String.toList_push, lineInProgress_concat hchar]
      exact List.infix_append_of_infix_left (htraced.pending source hpending)
    · intro line source htable hpos
      refine (htraced.table line source htable hpos).mono ?_
      rw [String.toList_push, completedLines_concat hchar]

/-- A mark is pending once the line in progress ends with its text. -/
theorem Page.Traced.mark (htraced : page.Traced lineMarker) (source : Nat)
    (hpushed : (page.push (page.lineMarker ++ toString source)).Traced
      lineMarker) :
    ({ page.push (page.lineMarker ++ toString source) with
      pendingMark := some source } : Page).Traced lineMarker := by
  refine ⟨hpushed.marker, hpushed.line, ?_, hpushed.table⟩
  intro pending hpending
  cases hpending
  change markText lineMarker source <:+:
    lineInProgress (page.push (page.lineMarker ++ toString source)).output.toList
  rw [Page.output_push, htraced.marker, String.toList_append]
  exact (markText_suffix page.output.toList lineMarker source).isInfix

/-- Nothing that an operation does leaves a page whose table its output does
not bear out. -/
theorem Page.traced_stable (lineMarker : String) :
    Page.Stable (Page.Traced lineMarker) where
  put _ char htraced := htraced.put char
  mark _ source htraced hpushed := htraced.mark source hpushed
  clear page htraced := by
    refine ⟨htraced.marker, rfl, ?_, ?_⟩
    · intro source hpending
      cases hpending
    · intro line source htable
      cases htable
  bodies _ _ htraced := { htraced with }
  request _ htraced := { htraced with }
  notice _ _ htraced := { htraced with }

/-- Every operation leaves a page whose table its output bears out. -/
theorem Page.traced_keeps (lineMarker : String) :
    Page.Keeps (Page.Traced lineMarker) :=
  (Page.traced_stable lineMarker).keeps

/-- What the table of a page tells, the output bears out: after any operations
on a blank page, and for the template after any pass that ends. -/
theorem Compiler.sourceLineFor_marked {μ σ : Type} [Sink σ] :
    (∀ (scope : Scope) (lineMarker : String) (ops : List PageOp)
        (line source : Nat), 0 < source →
      ((Page.blank scope lineMarker).applyAll ops).lineMap[line]? =
        some source →
      Marked lineMarker ((Page.blank scope lineMarker).applyAll ops).output
        line source) ∧
    ∀ (compiler : Compiler μ) (template : Template) (request : Request σ)
        (memory : μ) (line source : Nat),
      (compiler.render template request memory).outcome ≠ .stuck →
      (compiler.render template request memory).template.sourceLineFor line =
        some source →
      Marked compiler.config.lineMarker
        (compiler.render template request memory).template.output
        line source := by
  constructor
  · intro scope lineMarker ops line source hpos hentry
    have htraced := (Page.traced_keeps lineMarker).applyAll
      (Page.Traced.blank scope) ops
    exact htraced.table line source hentry hpos
  · intro compiler template request memory line source hends hsource
    obtain ⟨page, htraced, htemplate⟩ :=
      (Page.traced_keeps compiler.config.lineMarker).render compiler template
        request memory (Page.Traced.blank compiler.scope) hends
    rw [htemplate] at hsource ⊢
    obtain ⟨hentry, hpos⟩ := Option.filter_eq_some_iff.mp hsource
    exact htraced.table line source hentry (by simpa using hpos)

namespace LineTableWitness

/-- The marker starts a line of its own, and each expression is marked. -/
def compiler : Compiler Unit where
  evaluator _ _ := .done
  dialect :=
    { expr := fun directive =>
        .act (.markLine directive.line) fun _ =>
          .act (.println directive.text) fun _ => .done }
  config := { lineMarker := "-\n// " }

def template : Template := .named ⟨"", 0⟩ "page" "a\n$\x7bx\x7d"

def report : Report Unit BoundedSink := compiler.render template {} ()

theorem marked_lines :
    report.template.sourceLineFor 2 = some 2 ∧
    Marked "-\n// " report.template.output 2 2 ∧
    Marked "// " ((Page.blank [] "// ").applyAll
      [.println "a", .markLine 7, .println "b"]).output 1 7 := by
  have hsource : report.template.sourceLineFor 2 = some 2 := by
    decide +kernel
  have hmarked := @Compiler.sourceLineFor_marked Unit BoundedSink _
  refine ⟨hsource, ?_, ?_⟩
  · exact hmarked.2 compiler template {} () 2 2 (by decide +kernel) hsource
  · exact hmarked.1 [] "// " [.println "a", .markLine 7, .println "b"] 1 7
      (by decide) (by decide +kernel)

end LineTableWitness

end Stencil
