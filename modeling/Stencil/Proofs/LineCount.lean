/-
The counter, the table and the output in step.  A page counts exactly the line
breaks of its output, and its table has no entry for a line that is not
completed; so nothing is looked up past the completed lines of a page.
-/
import Stencil.Proofs.LineTable

namespace Stencil

theorem length_completedLines (chars : List Char) :
    (completedLines chars).length = chars.count '\n' := by
  induction chars using List.reverseRecOn with
  | nil => rfl
  | append_singleton chars char ih =>
      by_cases hbreak : char = '\n'
      · rw [hbreak, completedLines_concat_break, List.length_append, ih,
          List.count_append]
        rfl
      · rw [completedLines_concat hbreak, ih, List.count_append,
          List.count_singleton, beq_false_of_ne hbreak]
        rfl

/-- An entry past the end of a table is padded with 0. -/
theorem recordLine_of_length_le {lineMap : List Nat} {line : Nat}
    (hlength : lineMap.length ≤ line) (source : Nat) :
    recordLine lineMap line source =
      lineMap ++ (List.replicate (line - lineMap.length) 0 ++ [source]) := by
  have hpadding : line + 1 - lineMap.length = line - lineMap.length + 1 := by
    omega
  rw [recordLine, hpadding, List.replicate_succ', List.set_append_right _ _
    hlength, List.set_append_right _ _ (by simp)]
  simp

/-- A page whose counter and table agree with its output. -/
structure Page.Counted (page : Page) : Prop where
  line : page.line = lineBreaks page.output
  table : page.lineMap.length ≤ page.line

theorem Page.Counted.blank (scope : Scope) (lineMarker : String) :
    (Page.blank scope lineMarker).Counted where
  line := rfl
  table := Nat.le_refl 0

theorem Page.Counted.put {page : Page} (hcounted : page.Counted)
    (char : Char) : (page.put char).Counted where
  line := by
    rw [line_put, output_put, hcounted.line, lineBreaks, lineBreaks,
      String.toList_push, List.count_append, List.count_singleton]
    by_cases hbreak : char = '\n'
    · rw [if_pos hbreak, if_pos (beq_iff_eq.mpr hbreak)]
    · rw [if_neg hbreak, if_neg (by simpa using hbreak)]
  table := by
    have htable := hcounted.table
    simp only [Page.put]
    split
    · simp only [endLine]
      split
      · omega
      · -- The entry is for the very line that is being completed.
        rw [length_recordLine]
        omega
    · exact htable

theorem Page.counted_stable : Page.Stable Page.Counted where
  put _ char hcounted := hcounted.put char
  mark _ _ _ hpushed := { hpushed with }
  clear _ _ := ⟨rfl, Nat.le_refl 0⟩
  bodies _ _ hcounted := { hcounted with }
  request _ hcounted := { hcounted with }
  notice _ _ hcounted := { hcounted with }

/-- The table of a counted page tells of no line that is not completed. -/
theorem Page.Counted.sourceLineFor_withPage {page : Page}
    (hcounted : page.Counted) (template : Template) {line : Nat}
    (hline : (completedLines page.output.toList).length ≤ line) :
    (template.withPage page).sourceLineFor line = none := by
  have htable := hcounted.table
  rw [hcounted.line, lineBreaks, ← length_completedLines] at htable
  have hnone : page.lineMap[line]? = none :=
    List.getElem?_eq_none (htable.trans hline)
  simp only [Template.sourceLineFor, Template.withPage, hnone,
    Option.filter_none]

/-- The table has entries for completed lines only: after any operations on a
blank page, and for the template after any pass that ends. -/
theorem Compiler.lineMap_within_output {μ σ : Type} [Sink σ] :
    (∀ (scope : Scope) (lineMarker : String) (ops : List PageOp),
      ((Page.blank scope lineMarker).applyAll ops).line =
        lineBreaks ((Page.blank scope lineMarker).applyAll ops).output ∧
      ((Page.blank scope lineMarker).applyAll ops).lineMap.length ≤
        lineBreaks ((Page.blank scope lineMarker).applyAll ops).output) ∧
    ∀ (compiler : Compiler μ) (template : Template) (request : Request σ)
        (memory : μ),
      (compiler.render template request memory).outcome ≠ .stuck →
      (compiler.render template request memory).template.lineMap.length ≤
        (completedLines (compiler.render template request
          memory).template.output.toList).length ∧
      ∀ line,
        (completedLines (compiler.render template request
          memory).template.output.toList).length ≤ line →
        (compiler.render template request memory).template.sourceLineFor
          line = none := by
  constructor
  · intro scope lineMarker ops
    have hcounted := Page.counted_stable.keeps.applyAll
      (Page.Counted.blank scope lineMarker) ops
    exact ⟨hcounted.line, hcounted.line ▸ hcounted.table⟩
  · intro compiler template request memory hends
    obtain ⟨page, hcounted, htemplate⟩ :=
      Page.counted_stable.keeps.render compiler template request memory
        (Page.Counted.blank compiler.scope compiler.config.lineMarker) hends
    rw [htemplate]
    constructor
    · change page.lineMap.length ≤ (completedLines page.output.toList).length
      rw [length_completedLines, ← lineBreaks, ← hcounted.line]
      exact hcounted.table
    · intro line hline
      exact hcounted.sourceLineFor_withPage template hline

namespace LineCountWitness

/-- Every expression is marked twice, the second time on a line that is never
completed; a message ends the pass with a fault. -/
def compiler : Compiler Unit where
  evaluator _ _ := .done
  dialect :=
    { expr := fun directive =>
        .act (.markLine directive.line) fun _ =>
          .act (.println directive.text) fun _ =>
            .act (.markLine 9) fun _ => .done }
  config := { lineMarker := "\n-" }

def template : Template := .named ⟨"", 0⟩ "page" "a\n$\x7bx\x7d&\x7bm\x7d"

def report : Report Unit BoundedSink := compiler.render template {} ()

theorem failed_within_output :
    report.outcome = .failed (.unimplementedDirective .message 2) ∧
    report.template.output = "a\n\n-2x\n\n-9" ∧
    report.template.lineMap = [0, 0, 2] ∧
    report.template.lineMap.length ≤
      (completedLines report.template.output.toList).length ∧
    report.template.sourceLineFor 4 = none := by
  have houtcome : report.outcome =
      .failed (.unimplementedDirective .message 2) := by decide +kernel
  have hwithin := (@Compiler.lineMap_within_output Unit BoundedSink _).2
    compiler template {} () (by rw [← report, houtcome]; simp)
  refine ⟨houtcome, by decide +kernel, by decide +kernel, hwithin.1, ?_⟩
  exact hwithin.2 4 (by decide +kernel)

end LineCountWitness

end Stencil
