/-
The lines that a lexer and a pass tell of.  A lexer keeps its line up to date
from span to span; after calls of any kind it is what a count of the line
breaks before the span gives.  So are the lines of the directives and scripts
that a pass hands over, and of the faults that point at them.
-/
import Stencil.Proofs.Asking
import Stencil.Proofs.LexerCalls
import Stencil.Proofs.RecoveredFaults

namespace Stencil

/-- The line of a source, counted from 1, on which a byte offset lies. -/
def lineAt (source : String) (offset : Nat) : Nat :=
  1 + ((utf8 source).take offset).count Byte.lineFeed

/-- No byte of a longer character is a line break. -/
theorem count_encode (chars : List Char) :
    (encode chars).count Byte.lineFeed = chars.count '\n' := by
  induction chars with
  | nil => rfl
  | cons char rest ih =>
      by_cases hascii : char.toNat < 128
      · have hsame : UInt8.ofNat char.toNat = Byte.lineFeed ↔ char = '\n' :=
          ofNat_toNat_eq_iff hascii '\n' (by decide)
        rw [encode_cons_of_ascii hascii, List.count_cons, List.count_cons, ih]
        simp only [beq_iff_eq, hsame]
      · have hwide := le_of_mem_utf8EncodeChar (Nat.le_of_not_lt hascii)
        have hchar : char ≠ '\n' := by
          rintro rfl
          exact hascii (by decide)
        have hnone : (String.utf8EncodeChar char).count Byte.lineFeed = 0 := by
          apply List.count_eq_zero_of_not_mem
          intro hbreak
          exact absurd (hwide _ hbreak) (by decide)
        rw [encode_cons, List.count_append, hnone, ih, Nat.zero_add,
          List.count_cons_of_ne hchar]

theorem lineAt_of_split {text : String} {before after : List Char}
    (hsplit : text.toList = before ++ after) :
    lineAt text (byteWidth before) = 1 + before.count '\n' := by
  rw [lineAt, utf8_of_split hsplit, ← length_encode, List.take_left,
    count_encode]

theorem Lexer.Stands.line_eq {lexer : Lexer} {seen body gap ahead : List Char}
    (hstands : lexer.Stands seen body gap ahead) :
    lexer.line = lineAt lexer.source lexer.last.start := by
  have hsplit : lexer.source.toList = seen ++ (body ++ gap ++ ahead) := by
    simpa using hstands.source
  rw [hstands.last, lineAt_of_split hsplit]
  exact hstands.line

theorem Lexer.line_eq_of_mem_drain {source : String} {lexeme : Lexeme}
    (hlexeme : lexeme ∈ (ofSource source).drain) :
    lexeme.line = lineAt source lexeme.span.start := by
  obtain ⟨before, ahead, piece, hsource, rfl⟩ := split_of_mem_drain hlexeme
  exact (lineAt_of_split hsource).symm

/-- A span with its line counted anew, from the beginning of the source. -/
def Lexeme.recount (source : String) (lexeme : Lexeme) : Lexeme :=
  { lexeme with line := lineAt source lexeme.span.start }

/-- The spans of some kinds in a source, their lines counted anew. -/
def recounted (source : String) (kinds : Token → Bool) : List Lexeme :=
  ((Lexer.ofSource source).drain.filter (kinds ·.token)).map
    (Lexeme.recount source)

/-- Counting anew changes no line. -/
theorem recounted_eq (source : String) (kinds : Token → Bool) :
    recounted source kinds =
      (Lexer.ofSource source).drain.filter (kinds ·.token) := by
  refine (List.map_congr_left ?_).trans (List.map_id _)
  intro lexeme hlexeme
  have hline := Lexer.line_eq_of_mem_drain (List.mem_filter.mp hlexeme).1
  rw [Lexeme.recount, ← hline, id]

/-- The line that an effect evaluates a script on. -/
def Effect.scriptLine? : Effect → Option Nat
  | .evaluate _ line _ => some line
  | .literal _ | .ask _ => none

/-- The faults of events point at lines on which scripts were evaluated, each
at most once and in their order. -/
theorem lines_of_faults (events : List Event) :
    ((events.filterMap Event.fault?).filterMap Fault.line?).Sublist
      (((journal events).filter Effect.isScript).filterMap
        Effect.scriptLine?) := by
  induction events with
  | nil => exact List.Sublist.refl _
  | cons event rest ih =>
      cases event with
      | literal text => exact ih
      | asked occasion => exact ih
      | script code line template ending =>
          cases ending with
          | settled => exact ih.cons line
          | stuck => exact ih.cons line
          | failed error => exact ih.cons_cons line
          | overdue limit => exact ih.cons_cons line

/-- The faults that a directive itself makes for its handler. -/
def Directive.Raises (directive : Directive) (fault : Fault) : Prop :=
  fault = directive.unimplemented ∨ ∃ message, fault = directive.fail message

theorem Directive.Raises.line? {directive : Directive} {fault : Fault}
    (hraises : directive.Raises fault) :
    fault.line? = some directive.line := by
  rcases hraises with rfl | ⟨message, rfl⟩
  · rfl
  · rfl

/-- The lines that a pass tells of.  Each is the line of its source on which
the body starts that it is about. -/
structure Compiler.TrueLines {μ σ : Type} [Sink σ] (compiler : Compiler μ)
    (template : Template) (request : Request σ) (memory : μ)
    (report : Report μ σ) : Prop where
  directives : (journal report.events).filterMap Effect.directive? <+:
    (recounted template.source Token.isDialectal).map Lexeme.directive
  scripts : (journal report.events).filter Effect.isScript <+:
    (recounted template.source (· == .script)).map
      (compiler.config.evaluation template.name)
  /-- Every script ran in a context with the line that the journal tells. -/
  contexts : ∀ earlier code line name ending later,
    report.events = earlier ++ .script code line name ending :: later →
    ∃ before host,
      compiler.follow (journal earlier)
        (compiler.start template request memory) = (.done, before) ∧
      (compiler.evaluator code ⟨name, line, before.host.page.scope⟩).run
        compiler.config.scriptTimeoutMs 0 before.host = (ending, host)
  recovered : (report.faults.filterMap Fault.line?).Sublist
    ((recounted template.source (· == .script)).map Lexeme.line)
  failed : ∀ fault, report.outcome = .failed fault →
    ∃ earlier occasion,
      journal report.events = earlier ++ [.ask occasion] ∧
      ∀ directive, occasion.directive? = some directive →
        directive.Raises fault →
        ∃ lexeme ∈ recounted template.source Token.isDialectal,
          lexeme.directive = directive ∧ fault.line? = some lexeme.line

section

variable {μ σ : Type} [Sink σ] (compiler : Compiler μ) (template : Template)
  (request : Request σ) (memory : μ)

/-- The faults that a pass recovers from point at its scripts. -/
theorem Compiler.recovered_lines {report : Report μ σ}
    (hrender : compiler.render template request memory = report) :
    (report.faults.filterMap Fault.line?).Sublist
      (((journal report.events).filter Effect.isScript).filterMap
        Effect.scriptLine?) := by
  obtain ⟨_, _, _, _, last, hfaults, _⟩ :=
    compiler.render_noted template request memory hrender
  have hsink : (last.map Fault.sink).toList.filterMap Fault.line? = [] := by
    cases last with
    | none => rfl
    | some error => rfl
  rw [hfaults]
  by_cases hlistening : request.listening = true
  · rw [if_pos hlistening, List.filterMap_append, hsink, List.append_nil]
    exact lines_of_faults report.events
  · rw [if_neg hlistening]
    exact List.nil_sublist _

/-- The fault that ends a pass comes from the occasion asked about last. -/
theorem Compiler.asked_of_failed {fault : Fault}
    (hfailed : (compiler.render template request memory).outcome =
      .failed fault) :
    ∃ earlier occasion,
      journal (compiler.render template request memory).events =
        earlier ++ [.ask occasion] := by
  obtain ⟨taken, htakes, hreport⟩ :=
    compiler.render_follow template request memory
  obtain ⟨earlier, occasion, _, _, _, _, _, hjournal⟩ :=
    (follows_of_report htakes hreport).failed fault hfailed
  exact ⟨earlier, occasion, hjournal⟩

theorem Compiler.trueLines_render :
    compiler.TrueLines template request memory
      (compiler.render template request memory) := by
  obtain ⟨taken, htakes, hevents, hjournal, _⟩ :=
    compiler.render_noted template request memory rfl
  have hdirectives := compiler.directives_of_takes htakes hjournal
  have hscripts := compiler.scripts_of_takes htakes hjournal
  rw [← recounted_eq template.source Token.isDialectal] at hdirectives
  rw [← recounted_eq template.source (· == .script)] at hscripts
  refine
    { directives := hdirectives
      scripts := hscripts
      contexts := ?_
      recovered := ?_
      failed := ?_ }
  · intro earlier code line name ending later hsplit
    obtain ⟨before, host, hbefore, hrun, _⟩ :=
      compiler.follow_script (hevents.trans hsplit)
    exact ⟨before, host, hbefore, hrun⟩
  · have hlines := (hscripts.filterMap Effect.scriptLine?).sublist
    rw [List.filterMap_map] at hlines
    have hall : Effect.scriptLine? ∘ compiler.config.evaluation template.name =
        some ∘ Lexeme.line := rfl
    rw [hall, List.filterMap_eq_map] at hlines
    exact (compiler.recovered_lines template request memory rfl).trans hlines
  · intro fault hfailed
    obtain ⟨earlier, occasion, hasked⟩ :=
      compiler.asked_of_failed template request memory hfailed
    refine ⟨earlier, occasion, hasked, ?_⟩
    intro directive hdirective hraises
    have hmem : directive ∈ (journal
        (compiler.render template request memory).events).filterMap
          Effect.directive? := by
      rw [hasked, List.filterMap_append, List.mem_append]
      exact Or.inr (List.mem_filterMap.mpr
        ⟨_, List.mem_singleton_self _, hdirective⟩)
    obtain ⟨lexeme, hlexeme, rfl⟩ := List.mem_map.mp
      (hdirectives.subset hmem)
    exact ⟨lexeme, hlexeme, rfl, hraises.line?⟩

/-- The line of a lexer after calls of any kind on it and on its copies, and
every line that a pass over the source tells of, is what a count of the line
breaks from the beginning of the source gives. -/
theorem Compiler.tells_source_lines :
    (∀ calls, ∀ lexer ∈ callAll [.ofSource template.source] calls,
      lexer.line = lineAt template.source lexer.last.start) ∧
    compiler.TrueLines template request memory
      (compiler.render template request memory) := by
  constructor
  · intro calls lexer hlexer
    obtain ⟨hsource, _, _, _, _, hstands⟩ :=
      Lexer.placed_callAll template.source calls lexer hlexer
    rw [← hsource]
    exact hstands.line_eq
  · exact compiler.trueLines_render template request memory

end

namespace SourceLinesWitness

/-- Every script fails. -/
def compiler : Compiler Unit where
  evaluator _ _ := .fail (.message "no")
  dialect := {}

/-- A line break in a comment, and an expression that is never closed. -/
def template : Template :=
  .named ⟨"", 0⟩ "page" "a\n*\x7bc\n\x7d*\n%\x7bs\x7d%\n$\x7bx\n"

/-- The first lexer is copied in the comment, and starts again after the end
of input; the copy goes on to the expression. -/
def calls : List (Nat × LexerCall) :=
  [(0, .next), (0, .next?), (0, .clone), (0, .next), (0, .next), (0, .next),
    (0, .next?), (0, .next), (0, .next), (1, .next?), (1, .next), (1, .next),
    (0, .reset), (1, .next)]

def report : Report Unit BoundedSink := compiler.render template {} ()

theorem unclosed_expression :
    (∃ lexer, (callAll [.ofSource template.source] calls)[1]? = some lexer ∧
      lexer.last = ⟨17, 19⟩ ∧ lexer.line = 5) ∧
    report.outcome = .failed (.unimplementedDirective .expr 5) ∧
    report.faults = [.evaluation "page" 4 (.message "no")] ∧
    compiler.TrueLines template ({} : Request BoundedSink) () report := by
  have hcopy : ((callAll [.ofSource template.source] calls)[1]?).map
      Lexer.last = some ⟨17, 19⟩ := by decide +kernel
  obtain ⟨lexer, hlexer, hlast⟩ := Option.map_eq_some_iff.mp hcopy
  obtain ⟨hlines, htrue⟩ := compiler.tells_source_lines template
    ({} : Request BoundedSink) ()
  have hline := hlines calls lexer (List.mem_of_getElem? hlexer)
  rw [hlast] at hline
  refine ⟨⟨lexer, hlexer, hlast, ?_⟩, by decide +kernel, by decide +kernel,
    htrue⟩
  rw [hline]
  decide +kernel

end SourceLinesWitness

end Stencil
