/-
A lexer over one template source.  It is pulled span by span, and always
describes the span that it completed last.  A span is reported when its closing
delimiter is seen; one that is never closed runs to the end of the source.
-/
import Stencil.Scan
import Stencil.Span
import Stencil.Utf8

namespace Stencil

/-- A source, the place that the scan has reached, and the span completed
last. -/
structure Lexer where
  source : String
  state : ScanState
  /-- The offset at which the span in progress starts. -/
  cursor : Nat
  /-- The bytes of the source from `cursor` on. -/
  ahead : List UInt8
  /-- The span completed last; empty before the first. -/
  last : Span
  /-- The line, counted from 1, on which `last` starts. -/
  line : Nat
  /-- Set once `next?` has given the end of input. -/
  exhausted : Bool
  deriving DecidableEq, Repr

/-- A lexer at the start of a source. -/
def Lexer.ofSource (source : String) : Lexer where
  source := source
  state := .initial
  cursor := 0
  ahead := utf8 source
  last := ⟨0, 0⟩
  line := 1
  exhausted := false

/-- Go back to the start of the source. -/
def Lexer.reset (lexer : Lexer) : Lexer := .ofSource lexer.source

/-- From the start of the span completed last to the start of the one in
progress.  The line breaks in between bring the line up to date. -/
def Lexer.passed (lexer : Lexer) : Span := ⟨lexer.last.start, lexer.cursor⟩

/-- Complete the span in progress and give its kind.  At the end of the
source every call gives the end of input, with an empty span. -/
def Lexer.next (lexer : Lexer) : Token × Lexer :=
  let found := lexer.state.scan lexer.cursor lexer.ahead
  (found.mode,
    { lexer with
      state := found.next
      cursor := found.stop + found.skip
      ahead := found.ahead.drop found.skip
      last := ⟨lexer.cursor, found.stop⟩
      line := lexer.line + lineBreaks (slice lexer.source lexer.passed) })

/-- The text of the span completed last. -/
def Lexer.text (lexer : Lexer) : String := slice lexer.source lexer.last

/-- The character right after the span completed last.  For a directive this
is the first one of its closing delimiter. -/
def Lexer.nextChar (lexer : Lexer) : Option Char :=
  charAt? lexer.source lexer.last.stop

/-- A completed span: its kind, its place, its text, and the character that
follows it. -/
structure Lexeme where
  token : Token
  span : Span
  line : Nat
  text : String
  nextChar : Option Char
  deriving DecidableEq, Repr

/-- Describe the span completed last, which was of the given kind. -/
def Lexer.lexeme (lexer : Lexer) (token : Token) : Lexeme :=
  ⟨token, lexer.last, lexer.line, lexer.text, lexer.nextChar⟩

/-- A bound on the spans still to come before the end of input. -/
def Lexer.remaining (lexer : Lexer) : Nat :=
  lexer.ahead.length + if lexer.state.mode = .eof then 0 else 1

theorem Lexer.next_token (lexer : Lexer) :
    lexer.next.1 = lexer.state.mode :=
  ScanState.scan_mode lexer.state lexer.cursor lexer.ahead

/-- Until the end of input is reported, every span brings it closer. -/
theorem Lexer.next_remaining_lt (lexer : Lexer)
    (hmore : lexer.next.1 ≠ .eof) :
    lexer.next.2.remaining < lexer.remaining := by
  rw [next_token] at hmore
  have hnow : lexer.remaining = lexer.ahead.length + 1 := by
    simp [remaining, hmore]
  have hafter : lexer.next.2.remaining ≤ lexer.next.2.ahead.length + 1 := by
    unfold remaining
    split <;> omega
  cases ScanState.scan_boundary lexer.state lexer.cursor lexer.ahead with
  | inl hend =>
      have hdone : lexer.next.2.remaining = 0 := by
        simp [remaining, next, hend.1, hend.2, ScanState.enter]
      omega
  | inr hdelimiter =>
      obtain ⟨_, hskip, hpos, hle⟩ := hdelimiter
      have hahead : lexer.next.2.ahead.length < lexer.ahead.length := by
        simp only [next, List.length_drop]
        omega
      omega

/-- Pull the lexer as a sequence that ends: every completed span in order, the
end of input included, and then nothing. -/
def Lexer.next? (lexer : Lexer) : Option (Token × Lexer) :=
  if lexer.exhausted then none
  else
    let (token, lexer) := lexer.next
    some (token, { lexer with exhausted := token == .eof })

/-- A bound on what `next?` still gives. -/
def Lexer.pending (lexer : Lexer) : Nat :=
  if lexer.exhausted then 0 else lexer.remaining + 1

theorem Lexer.next?_pending_lt {lexer later : Lexer} {token : Token}
    (hnext : lexer.next? = some (token, later)) :
    later.pending < lexer.pending := by
  unfold next? at hnext
  split at hnext
  · cases hnext
  · rename_i hopen
    simp only [Option.some.injEq, Prod.mk.injEq] at hnext
    obtain ⟨htoken, hlater⟩ := hnext
    subst hlater
    by_cases heof : lexer.next.1 = .eof
    · simp [pending, hopen, heof]
    · have hlt := lexer.next_remaining_lt heof
      simp only [pending, hopen, beq_iff_eq, heof]
      simpa [remaining] using hlt

/-- All that `next?` still gives. -/
def Lexer.drain (lexer : Lexer) : List Lexeme :=
  match hnext : lexer.next? with
  | none => []
  | some (token, later) =>
      have := next?_pending_lt hnext
      later.lexeme token :: later.drain
termination_by lexer.pending

end Stencil
