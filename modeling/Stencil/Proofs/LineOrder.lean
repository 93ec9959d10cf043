/-
The line table in the order of the source.  Where handlers mark only the line
of their own directive, the source lines that a page tells of never go back,
and each of them is the line of a directive of the source.
-/
import Stencil.BoundedSink
import Stencil.Proofs.Asking
import Stencil.Proofs.ExitPolicies
import Stencil.Proofs.LineCount
import Stencil.Proofs.Truncation

namespace Stencil

/-- The source lines that a page tells of, in the order of its output: those
in its table, and that of the line in progress. -/
def Page.marks (page : Page) : List Nat :=
  (page.lineMap ++ page.pendingMark.toList).filter (fun source => 0 < source)

/-- The source line that an operation marks, if it is one. -/
def PageOp.marked : PageOp → List Nat
  | .markLine source => [source].filter (fun source => 0 < source)
  | .print _ | .println _ | .printForced _ | .plain _ | .plainLine _
  | .openTag | .closeTag | .clear | .requestExit => []

variable {page : Page} {added : List Nat}

/-- A completed line keeps its mark; only the padding of the table is new. -/
theorem Page.Counted.marks_endLine (hcounted : page.Counted) :
    page.endLine.marks = page.marks := by
  cases hpending : page.pendingMark with
  | none => simp [endLine, marks, hpending]
  | some source =>
      simp [endLine, marks, hpending,
        recordLine_of_length_le hcounted.table, List.filter_append]

theorem Page.Counted.marks_put (hcounted : page.Counted) (char : Char) :
    (page.put char).marks = page.marks := by
  rw [Page.put]
  split
  · exact hcounted.marks_endLine
  · rfl

/-- Pushing a text loses no mark and makes none. -/
theorem Page.Counted.marks_push (hcounted : page.Counted) (text : String) :
    (page.push text).marks = page.marks := by
  rw [push]
  induction text.toList generalizing page with
  | nil => rfl
  | cons char rest ih =>
      rw [List.foldl_cons, ih (hcounted.put char), hcounted.marks_put]

theorem Page.marks_checkExit (page : Page) :
    page.checkExit.marks = page.marks := by
  rw [checkExit]
  split <;> rfl

theorem Page.marks_capture (page : Page) (text : String) :
    (page.capture text).marks = page.marks := by
  rw [capture]
  split
  · rfl
  · split <;> rfl

theorem Page.Counted.marks_unlessExited (hcounted : page.Counted)
    {change : Page → Page}
    (hchange : ∀ page : Page, page.Counted →
      (change page).marks.Sublist (page.marks ++ added)) :
    (page.unlessExited change).marks.Sublist (page.marks ++ added) := by
  have hnoticed := hchange page.checkExit
    (counted_stable.checkExit hcounted)
  rw [marks_checkExit] at hnoticed
  simp only [unlessExited]
  split
  · rw [marks_checkExit]
    exact List.sublist_append_left _ _
  · exact hnoticed

theorem Page.Counted.marks_print (hcounted : page.Counted) (text : String) :
    (page.print text).marks.Sublist (page.marks ++ []) := by
  apply hcounted.marks_unlessExited
  intro page hcounted
  rw [hcounted.marks_push, List.append_nil]

theorem Page.Counted.marks_println (hcounted : page.Counted) (text : String) :
    (page.println text).marks.Sublist (page.marks ++ []) := by
  apply hcounted.marks_unlessExited
  intro page hcounted
  rw [(counted_stable.push hcounted text).marks_push, hcounted.marks_push,
    List.append_nil]

/-- An operation adds at most what it marks, and that at the end. -/
theorem Page.Counted.marks_apply (hcounted : page.Counted) (op : PageOp) :
    (page.apply op).2.marks.Sublist (page.marks ++ op.marked) := by
  cases op with
  | print text => exact hcounted.marks_print text
  | println text => exact hcounted.marks_println text
  | printForced text =>
      simp [apply, printForced, marks_checkExit, hcounted.marks_push,
        PageOp.marked]
  | plain text =>
      simp only [apply, plain]
      split
      · exact hcounted.marks_print text
      · simp [marks_capture, PageOp.marked]
  | plainLine text =>
      simp only [apply, plainLine]
      split
      · exact hcounted.marks_println text
      · simp [marks_capture, PageOp.marked]
  | markLine source =>
      apply hcounted.marks_unlessExited
      intro page hcounted
      -- The new mark takes the place of one that is still pending.
      have hpushed := hcounted.marks_push
        (page.lineMarker ++ toString source)
      rw [← hpushed]
      simp only [marks, PageOp.marked, List.filter_append,
        Option.toList_some]
      exact (List.sublist_append_left _ _).append (List.Sublist.refl _)
  | openTag | requestExit => exact List.sublist_append_left _ _
  | closeTag =>
      simp only [apply, closeTag]
      split
      · exact List.sublist_append_left _ _
      · exact List.sublist_append_left _ _
  | clear =>
      apply hcounted.marks_unlessExited
      intro page _
      exact List.nil_sublist _

theorem Page.Counted.marks_applyAll (hcounted : page.Counted)
    (ops : List PageOp) :
    (page.applyAll ops).marks.Sublist
      (page.marks ++ ops.flatMap PageOp.marked) := by
  induction ops generalizing page with
  | nil => exact List.sublist_append_left _ _
  | cons op rest ih =>
      have hrest := ih (counted_stable.keeps page op hcounted)
      rw [applyAll_cons, List.flatMap_cons, ← List.append_assoc]
      exact hrest.trans
        ((hcounted.marks_apply op).append (List.Sublist.refl _))

theorem Page.Reachable.counted (hreachable : page.Reachable) :
    page.Counted := by
  obtain ⟨scope, lineMarker, ops, rfl⟩ := hreachable
  exact counted_stable.keeps.applyAll (Counted.blank scope lineMarker) ops

/-- The line of the directive that an occasion is about, and 0 for the two
hooks. -/
def Occasion.line (occasion : Occasion) : Nat :=
  (occasion.directive?.map Directive.line).getD 0

/-- The line of the directive that an effect asks about. -/
def Effect.line? (effect : Effect) : Option Nat :=
  effect.directive?.map Directive.line

/-- The lines of the directives that effects ask about, in order. -/
def askedLines (effects : List Effect) : List Nat :=
  effects.filterMap Effect.line?

theorem askedLines_cons (effect : Effect) (rest : List Effect) :
    askedLines (effect :: rest) =
      effect.line?.toList ++ askedLines rest := by
  cases hline : effect.line? with
  | none => simp [askedLines, hline]
  | some line => simp [askedLines, hline]

/-- Handlers that mark only the line of the directive that they are asked
about; hooks mark no line. -/
def Dialect.MarksOwnLine {μ : Type} (dialect : Dialect μ) (σ : Type) : Prop :=
  ∀ occasion (host : Host μ σ), host.page.Reachable →
    ∀ source, .markLine source ∈ (dialect.handler occasion).pageOps host →
      source = occasion.line

theorem PageOp.mem_marked {op : PageOp} {source : Nat}
    (hsource : source ∈ op.marked) : op = .markLine source ∧ 0 < source := by
  cases op with
  | markLine line =>
      rw [marked, List.mem_filter, List.mem_singleton] at hsource
      obtain ⟨rfl, hpos⟩ := hsource
      exact ⟨rfl, by simpa using hpos⟩
  | print | println | printForced | plain | plainLine | openTag | closeTag
  | clear | requestExit => cases hsource

section

variable {μ σ : Type} [Sink σ] {compiler : Compiler μ}

/-- An effect marks no line but that of its directive. -/
theorem Dialect.MarksOwnLine.marked_subset
    (hown : compiler.dialect.MarksOwnLine σ) (effect : Effect)
    {host : Host μ σ} (hreachable : host.page.Reachable) :
    (compiler.pageOps effect host).flatMap PageOp.marked ⊆
      effect.line?.toList := by
  intro source hsource
  obtain ⟨op, hop, hmarked⟩ := List.mem_flatMap.mp hsource
  obtain ⟨rfl, hpos⟩ := PageOp.mem_marked hmarked
  cases effect with
  | literal text => simp [Compiler.pageOps] at hop
  | evaluate code line template =>
      have hscripted := Script.isScripted_of_mem_pageOps _ _ 0 host _ hop
      cases hscripted
  | ask occasion =>
      have hline := hown occasion host hreachable source hop
      rw [Occasion.line] at hline
      change source ∈ (occasion.directive?.map Directive.line).toList
      cases hdirective : occasion.directive? with
      | none =>
          rw [hdirective] at hline
          exact absurd hline (Nat.ne_of_gt hpos)
      | some directive =>
          rw [hdirective] at hline
          exact List.mem_singleton.mpr hline

/-- Marks of one line alone never go back. -/
theorem pairwise_le_of_subset {marked : List Nat} {line? : Option Nat}
    (hmarked : marked ⊆ line?.toList) : marked.Pairwise (· ≤ ·) := by
  apply List.pairwise_of_forall_mem_list
  intro first hfirst second hsecond
  have hone := Option.mem_toList.mp (hmarked hfirst)
  have hother := Option.mem_toList.mp (hmarked hsecond)
  exact Nat.le_of_eq (Option.mem_unique hone hother)

/-- The marks that effects add, in order, are lines of the directives that they
ask about; where those never go back, neither do the marks. -/
theorem Dialect.MarksOwnLine.marks_follow
    (hown : compiler.dialect.MarksOwnLine σ) (effects : List Effect)
    (pass : Pass μ σ) (hreachable : pass.host.page.Reachable) :
    ∃ marked : List Nat,
      (compiler.follow effects pass).2.host.page.marks.Sublist
        (pass.host.page.marks ++ marked) ∧
      marked ⊆ askedLines effects ∧
      ((askedLines effects).Pairwise (· ≤ ·) →
        marked.Pairwise (· ≤ ·)) := by
  induction effects generalizing pass with
  | nil =>
      exact ⟨[], List.sublist_append_left _ _, List.nil_subset _, id⟩
  | cons effect rest ih =>
      have hnow := hown.marked_subset effect hreachable
      have hsteady := pairwise_le_of_subset hnow
      have hmarks := hreachable.counted.marks_applyAll
        (compiler.pageOps effect pass.host)
      have hkept := hreachable.applyAll (compiler.pageOps effect pass.host)
      rw [← compiler.page_perform effect pass] at hmarks hkept
      rw [Compiler.follow_cons, askedLines_cons]
      generalize (compiler.pageOps effect pass.host).flatMap
        PageOp.marked = now at hnow hsteady hmarks
      by_cases hdone : (compiler.perform effect pass).1 = .done
      · obtain ⟨next, hnext⟩ := exists_of_done hdone
        rw [hnext] at hmarks hkept ⊢
        obtain ⟨later, hlater, hsubset, hordered⟩ := ih next hkept
        refine ⟨now ++ later, ?_, ?_, ?_⟩
        · rw [← List.append_assoc]
          exact hlater.trans (hmarks.append (List.Sublist.refl later))
        · exact List.append_subset.mpr
            ⟨List.subset_append_of_subset_left _ hnow,
              List.subset_append_of_subset_right _ hsubset⟩
        · intro hlines
          obtain ⟨_, hrest, hcross⟩ := List.pairwise_append.mp hlines
          refine List.pairwise_append.mpr ⟨hsteady, hordered hrest, ?_⟩
          intro first hfirst second hsecond
          exact hcross first (hnow hfirst) second (hsubset hsecond)
      · rw [andThen_of_ne_done hdone]
        exact ⟨now, hmarks, List.subset_append_of_subset_left _ hnow,
          fun _ => hsteady⟩

/-- A pass asks about the directives for the dialect on their lines. -/
theorem Config.askedLines_effects (config : Config) (template : String)
    (afterComment : Bool) (lexemes : List Lexeme) :
    askedLines (config.effects template afterComment lexemes) =
      (lexemes.filter (·.token.isDialectal)).map Lexeme.line := by
  have hdirectives := congrArg (List.map Directive.line)
    (config.directives_effects template afterComment lexemes)
  rw [List.map_filterMap, List.map_map] at hdirectives
  exact hdirectives

/-- The hooks are on no line. -/
theorem askedLines_between (taken : List Effect) :
    askedLines (between taken) = askedLines taken := by
  have hdirectives := congrArg (List.map Directive.line)
    (directives_between taken)
  rw [List.map_filterMap, List.map_filterMap] at hdirectives
  exact hdirectives

/-- Spans that are laid out start on lines that never go back. -/
theorem pairwise_line_layOut (before : List Char) (pieces : List Piece) :
    ((layOut before pieces).map Lexeme.line).Pairwise (· ≤ ·) := by
  induction pieces generalizing before with
  | nil => exact List.Pairwise.nil
  | cons piece rest ih =>
      rw [layOut, List.map_cons, List.pairwise_cons]
      refine ⟨?_, ih _⟩
      intro line hline
      obtain ⟨lexeme, hlexeme, rfl⟩ := List.mem_map.mp hline
      obtain ⟨earlier, later, _, _, rfl⟩ := mem_layOut hlexeme
      simp only [Piece.lexeme, List.count_append]
      omega

/-- The lines of the directives for the dialect, in the order of the source. -/
def dialectalLines (source : String) : List Nat :=
  ((Lexer.ofSource source).drain.filter (·.token.isDialectal)).map Lexeme.line

theorem pairwise_dialectalLines (source : String) :
    (dialectalLines source).Pairwise (· ≤ ·) := by
  have hall := pairwise_line_layOut [] (pieces source)
  rw [← Lexer.drain_ofSource] at hall
  exact hall.sublist (List.filter_sublist.map Lexeme.line)

/-- Every span of a source starts after a part of the source, on the line that
the line breaks in that part give. -/
theorem Lexer.before_of_mem_drain {source : String} {lexeme : Lexeme}
    (hlexeme : lexeme ∈ (ofSource source).drain) :
    ∃ before after, source = before ++ after ∧
      slice? source ⟨0, lexeme.span.start⟩ = some before ∧
      lexeme.line = 1 + lineBreaks before := by
  obtain ⟨before, ahead, piece, hsource, rfl⟩ := split_of_mem_drain hlexeme
  refine ⟨String.ofList before, String.ofList ahead, ?_, ?_, ?_⟩
  · rw [← String.ofList_append, ← hsource, String.ofList_toList]
  · have hslice := @slice?_of_split source [] before _ hsource
    simpa [byteWidth, Piece.lexeme] using hslice
  · simp [Piece.lexeme, lineBreaks]

/-- What is left of the marks of a pass, in the order of the output, is in the
order of the directives that it asked about. -/
theorem Compiler.marks_render (compiler : Compiler μ)
    (template : Template) (request : Request σ) (memory : μ)
    (hown : compiler.dialect.MarksOwnLine σ)
    (hends : (compiler.render template request memory).outcome ≠ .stuck) :
    ∃ marked : List Nat,
      ((compiler.render template request memory).template.lineMap.filter
        (fun source => 0 < source)).Sublist marked ∧
      marked ⊆ dialectalLines template.source ∧
      marked.Pairwise (· ≤ ·) := by
  obtain ⟨taken, htakes, hreport⟩ :=
    compiler.render_follow template request memory
  obtain ⟨rest, heffects⟩ := htakes.isPrefix_of_cons
  have hlines : dialectalLines template.source =
      askedLines taken ++ askedLines rest := by
    rw [dialectalLines, ← compiler.config.askedLines_effects template.name
      false, ← heffects]
    exact List.filterMap_append
  have hordered := pairwise_dialectalLines template.source
  rw [hlines] at hordered ⊢
  obtain ⟨marked, hmarks, hsubset, hpairwise⟩ :=
    hown.marks_follow (between taken)
      (compiler.start template request memory)
      (compiler.reachable_start template request memory)
  rw [askedLines_between] at hsubset hpairwise
  refine ⟨marked, ?_, ?_, ?_⟩
  · rw [hreport] at hends ⊢
    rw [Report.template_ofPart _ _ hends]
    refine List.Sublist.trans ?_ hmarks
    rw [Page.marks, List.filter_append]
    exact List.sublist_append_left _ _
  · exact List.subset_append_of_subset_left _ hsubset
  · exact hpairwise (List.pairwise_append.mp hordered).1

/-- Where handlers mark only the line of the directive that they are asked
about, the source lines in the table of a pass never go back, and each is the
line of a directive that is left to the dialect. -/
theorem Compiler.lineMap_ascends (compiler : Compiler μ)
    (template : Template) (request : Request σ) (memory : μ)
    (hown : compiler.dialect.MarksOwnLine σ)
    (hends : (compiler.render template request memory).outcome ≠ .stuck) :
    ((compiler.render template request memory).template.lineMap.filter
      (fun source => 0 < source)).Pairwise (· ≤ ·) ∧
    ∀ source ∈ (compiler.render template request memory).template.lineMap,
      0 < source →
      source ≤ 1 + lineBreaks template.source ∧
      ∃ directive ∈ (Lexer.ofSource template.source).drain,
        directive.token.isDialectal = true ∧ directive.line = source ∧
        ∃ before,
          slice? template.source ⟨0, directive.span.start⟩ = some before ∧
          source = 1 + lineBreaks before := by
  obtain ⟨marked, hsublist, hsubset, hordered⟩ :=
    compiler.marks_render template request memory hown hends
  refine ⟨hordered.sublist hsublist, ?_⟩
  intro source hsource hpos
  have hmarked := hsublist.subset
    (List.mem_filter.mpr ⟨hsource, decide_eq_true hpos⟩)
  obtain ⟨directive, hdirective, rfl⟩ := List.mem_map.mp (hsubset hmarked)
  obtain ⟨hmem, hdialectal⟩ := List.mem_filter.mp hdirective
  obtain ⟨before, after, hsplit, hslice, hline⟩ :=
    Lexer.before_of_mem_drain hmem
  refine ⟨?_, directive, hmem, hdialectal, rfl, before, hslice, hline⟩
  rw [hline, hsplit, lineBreaks_append]
  omega

end

namespace LineOrderWitness

/-- An expression is marked before and after its line, a message clears the
page, an action requests an exit, and a tag ends the pass with a fault. -/
def compiler : Compiler Unit where
  evaluator _ _ := .done
  dialect :=
    { head := .act (.markLine 0) fun _ => .done
      expr := fun directive =>
        .act (.markLine directive.line) fun _ =>
          .act (.println directive.text) fun _ =>
            .act (.markLine directive.line) fun _ => .done
      message := fun _ => .act .clear fun _ => .done
      action := fun _ _ => .act .requestExit fun _ => .done }

theorem marksOwnLine : compiler.dialect.MarksOwnLine BoundedSink := by
  intro occasion host _ source hsource
  cases occasion with
  | head | expr =>
      simp [compiler, Dialect.handler, Handler.pageOps] at hsource
      exact hsource
  | message | action | startTag | endTag | finish =>
      simp [compiler, Dialect.handler, Handler.pageOps] at hsource

def template : Template :=
  .named ⟨"", 0⟩ "page"
    "$\x7ba\x7d\n&\x7bc\x7d$\x7bb\x7d\n$\x7bd\x7d\n@\x7bq\x7d$\x7be\x7d#\x7bt\x7d"

def report : Report Unit BoundedSink := compiler.render template {} ()

theorem ascending_table :
    report.outcome = .failed (.unimplementedDirective .startTag 4) ∧
    report.template.lineMap = [2, 2, 3, 3] ∧
    (report.template.lineMap.filter
      (fun source => 0 < source)).Pairwise (· ≤ ·) ∧
    ∃ directive ∈ (Lexer.ofSource template.source).drain,
      directive.token.isDialectal = true ∧ directive.line = 3 := by
  have houtcome : report.outcome =
      .failed (.unimplementedDirective .startTag 4) := by decide +kernel
  have htable : report.template.lineMap = [2, 2, 3, 3] := by decide +kernel
  obtain ⟨hordered, hlines⟩ := compiler.lineMap_ascends template
    ({} : Request BoundedSink) () marksOwnLine
    (by rw [← report, houtcome]; simp)
  refine ⟨houtcome, htable, hordered, ?_⟩
  rw [← report, htable] at hlines
  obtain ⟨_, directive, hmem, hdialectal, hline, _⟩ :=
    hlines 3 (by simp) (by decide)
  exact ⟨directive, hmem, hdialectal, hline⟩

end LineOrderWitness

end Stencil
