/-
The marker table and the scan state.  One step looks at a byte and at the two
bytes after it; it either stays inside the span in progress or finds the
delimiter that ends it.  Every delimiter byte is ASCII, so no boundary falls
inside an encoded character.
-/
import Stencil.Token

namespace Stencil

namespace Byte

def lineFeed : UInt8 := 0x0A
def hash : UInt8 := 0x23
def dollar : UInt8 := 0x24
def percent : UInt8 := 0x25
def ampersand : UInt8 := 0x26
def star : UInt8 := 0x2A
def slash : UInt8 := 0x2F
def atSign : UInt8 := 0x40
def openBrace : UInt8 := 0x7B
def closeBrace : UInt8 := 0x7D

end Byte

open Byte

/-- A delimiter that opens a directive, and the kind of span it opens. -/
structure Opener where
  bytes : List UInt8
  mode : Token
  deriving DecidableEq, Repr

/-- The opening markers.  Where two fit the same place the earlier one wins,
so the longer spelling stands before the shorter. -/
def openers : List Opener :=
  [⟨[percent, openBrace], .script⟩,
    ⟨[openBrace, percent], .script⟩,
    ⟨[dollar, openBrace], .expr⟩,
    ⟨[hash, openBrace, slash], .endTag⟩,
    ⟨[hash, openBrace], .startTag⟩,
    ⟨[ampersand, openBrace], .message⟩,
    ⟨[atSign, atSign, openBrace], .absAction⟩,
    ⟨[atSign, openBrace], .action⟩,
    ⟨[star, openBrace], .comment⟩]

/-- The opening marker that the given bytes begin with, if any. -/
def opener? (ahead : List UInt8) : Option Opener :=
  openers.find? (fun opener => opener.bytes.isPrefixOf ahead)

/-- The delimiters that return from a kind of span to literal text. -/
def Token.closers : Token → List (List UInt8)
  | .eof | .plain => []
  | .script => [[closeBrace, percent], [percent, closeBrace]]
  | .comment => [[closeBrace, star]]
  | .expr | .startTag | .endTag | .message | .action | .absAction =>
      [[closeBrace]]

/-- The closing delimiter of a kind that the given bytes begin with. -/
def Token.closer? (mode : Token) (ahead : List UInt8) :
    Option (List UInt8) :=
  mode.closers.find? (fun closer => closer.isPrefixOf ahead)

/-- The kind of the span in progress, and how many braces are open in it. -/
structure ScanState where
  mode : Token
  depth : Nat
  deriving DecidableEq, Repr

/-- The start of a span: no brace is open yet. -/
def ScanState.enter (mode : Token) : ScanState := ⟨mode, 0⟩

/-- A source starts as literal text. -/
def ScanState.initial : ScanState := .enter .plain

instance : Inhabited ScanState := ⟨.initial⟩

/-- Count a byte of a nesting body: an opening brace goes one level down, a
closing brace one level up, and never above the level of the body. -/
def ScanState.nest (state : ScanState) (byte : UInt8) : ScanState :=
  if byte = openBrace then { state with depth := state.depth + 1 }
  else if byte = closeBrace then { state with depth := state.depth - 1 }
  else state

/-- What one byte does to a scan. -/
inductive Step where
  /-- The byte belongs to the span in progress. -/
  | advance (state : ScanState)
  /-- A delimiter of `skip` bytes starts at the byte: the span ends before it
  and the next one starts after it, in state `next`. -/
  | switch (next : ScanState) (skip : Nat)
  deriving DecidableEq, Repr

/-- The step inside an expression or a start tag.  A closing brace ends the
body only where none is open; in a start tag a slash before a closing brace
ends it at any depth, and that brace then closes an empty end tag. -/
def ScanState.nestingStep (state : ScanState) (byte : UInt8)
    (after : List UInt8) : Step :=
  if byte = closeBrace ∧ state.depth = 0 then .switch (.enter .plain) 1
  else if state.mode = .startTag ∧ byte = slash ∧
      after.head? = some closeBrace then .switch (.enter .endTag) 1
  else .advance (state.nest byte)

/-- One step of the scan at `byte`, with the bytes after it as look-ahead.
At most two of those are looked at. -/
def ScanState.step (state : ScanState) (byte : UInt8)
    (after : List UInt8) : Step :=
  match state.mode with
  | .plain =>
      match opener? (byte :: after) with
      | some opener => .switch (.enter opener.mode) opener.bytes.length
      | none => .advance state
  | .expr | .startTag => state.nestingStep byte after
  | mode =>
      match mode.closer? (byte :: after) with
      | some closer => .switch (.enter .plain) closer.length
      | none => .advance state

/-- A list shorter than what is kept of another fits that as it fits all. -/
theorem isPrefixOf_take {pattern : List UInt8} {count : Nat}
    (hshort : pattern.length ≤ count) (bytes : List UInt8) :
    pattern.isPrefixOf (bytes.take count) = pattern.isPrefixOf bytes := by
  induction pattern generalizing count bytes with
  | nil => simp
  | cons first rest ih =>
      cases count with
      | zero => simp at hshort
      | succ count =>
          cases bytes with
          | nil => simp
          | cons byte after =>
              have hrest : rest.length ≤ count := by simpa using hshort
              simp [List.isPrefixOf, ih hrest]

/-- Two tests that agree on a list find the same in it. -/
theorem find?_of_agree {α : Type} {first second : α → Bool} (list : List α)
    (hagree : ∀ item ∈ list, first item = second item) :
    list.find? first = list.find? second := by
  induction list with
  | nil => rfl
  | cons head rest ih =>
      have hhead := hagree head List.mem_cons_self
      have hrest := ih (fun item hitem =>
        hagree item (List.mem_cons_of_mem head hitem))
      simp only [List.find?_cons, hhead, hrest]

theorem openers_length_le :
    ∀ opener ∈ openers, opener.bytes.length ≤ 3 := by decide

theorem Token.closers_length_le :
    ∀ (mode : Token), ∀ closer ∈ mode.closers, closer.length ≤ 3 := by
  intro mode
  cases mode <;> decide

/-- Two bytes of look-ahead are enough for a step. -/
theorem ScanState.step_take (state : ScanState) (byte : UInt8)
    (after : List UInt8) :
    state.step byte (after.take 2) = state.step byte after := by
  have htake : byte :: after.take 2 = (byte :: after).take 3 := rfl
  have hopener : opener? (byte :: after.take 2) = opener? (byte :: after) := by
    rw [htake]
    apply find?_of_agree
    intro opener hmem
    exact isPrefixOf_take (openers_length_le opener hmem) (byte :: after)
  have hcloser : state.mode.closer? (byte :: after.take 2) =
      state.mode.closer? (byte :: after) := by
    rw [htake]
    apply find?_of_agree
    intro closer hmem
    exact isPrefixOf_take (Token.closers_length_le _ closer hmem)
      (byte :: after)
  have hnesting : state.nestingStep byte (after.take 2) =
      state.nestingStep byte after := by
    cases after <;> rfl
  unfold step
  split
  · rw [hopener]
  · exact hnesting
  · exact hnesting
  · rw [hcloser]

/-- The look-ahead of a step when at most two bytes are known. -/
def lookAhead : Option UInt8 → Option UInt8 → List UInt8
  | none, _ => []
  | some second, none => [second]
  | some second, some third => [second, third]

theorem openers_length_pos :
    ∀ opener ∈ openers, 0 < opener.bytes.length := by decide

theorem openers_mode_ne_eof :
    ∀ opener ∈ openers, opener.mode ≠ .eof := by decide

theorem Token.closers_length_pos :
    ∀ (mode : Token), ∀ closer ∈ mode.closers, 0 < closer.length := by
  intro mode
  cases mode <;> decide

/-- Staying inside a span never changes its kind. -/
theorem ScanState.step_advance_mode {state next : ScanState} {byte : UInt8}
    {after : List UInt8} (hstep : state.step byte after = .advance next) :
    next.mode = state.mode := by
  have hnest : (state.nest byte).mode = state.mode := by
    unfold nest
    split
    · rfl
    · split <;> rfl
  unfold step at hstep
  split at hstep
  · split at hstep
    · cases hstep
    · cases hstep
      rfl
  · unfold nestingStep at hstep
    split at hstep
    · cases hstep
    · split at hstep
      · cases hstep
      · cases hstep
        exact hnest
  · unfold nestingStep at hstep
    split at hstep
    · cases hstep
    · split at hstep
      · cases hstep
      · cases hstep
        exact hnest
  · split at hstep
    · cases hstep
    · cases hstep
      rfl

/-- A delimiter is never empty, and never leads to the end of input. -/
theorem ScanState.step_switch {state next : ScanState} {byte : UInt8}
    {after : List UInt8} {skip : Nat}
    (hstep : state.step byte after = .switch next skip) :
    0 < skip ∧ next.mode ≠ .eof := by
  have hnesting : state.nestingStep byte after = .switch next skip →
      0 < skip ∧ next.mode ≠ .eof := by
    intro hnest
    unfold nestingStep at hnest
    split at hnest
    · cases hnest
      simp [enter]
    · split at hnest
      · cases hnest
        simp [enter]
      · cases hnest
  unfold step at hstep
  split at hstep
  · split at hstep
    · rename_i opener hfound
      cases hstep
      have hmem : opener ∈ openers := List.mem_of_find?_eq_some hfound
      exact ⟨openers_length_pos opener hmem, openers_mode_ne_eof opener hmem⟩
    · cases hstep
  · exact hnesting hstep
  · exact hnesting hstep
  · split at hstep
    · rename_i closer hfound
      cases hstep
      have hmem := List.mem_of_find?_eq_some hfound
      exact ⟨Token.closers_length_pos _ closer hmem, by simp [enter]⟩
    · cases hstep

/-- Where the span in progress ends, and how the scan goes on from there. -/
structure Boundary where
  /-- The kind of the span that ends here. -/
  mode : Token
  /-- The offset of the first byte after the span. -/
  stop : Nat
  /-- The state in which the next span starts. -/
  next : ScanState
  /-- The width of the delimiter between the two spans. -/
  skip : Nat
  /-- The bytes from `stop` on. -/
  ahead : List UInt8
  deriving DecidableEq, Repr

/-- Scan from the offset `cursor` to the next delimiter, or to the end of the
input.  The end is a boundary of width zero. -/
def ScanState.scan (state : ScanState) (cursor : Nat) :
    List UInt8 → Boundary
  | [] => ⟨state.mode, cursor, .enter .eof, 0, []⟩
  | byte :: after =>
      match state.step byte after with
      | .advance state => state.scan (cursor + 1) after
      | .switch next skip => ⟨state.mode, cursor, next, skip, byte :: after⟩

/-- A span keeps the kind in which it was entered. -/
theorem ScanState.scan_mode (state : ScanState) (cursor : Nat)
    (ahead : List UInt8) : (state.scan cursor ahead).mode = state.mode := by
  induction ahead generalizing state cursor with
  | nil => rfl
  | cons byte after ih =>
      unfold scan
      split
      · rename_i next hstep
        rw [ih, step_advance_mode hstep]
      · rfl

/-- A boundary is either the end of the input or a delimiter: a delimiter is
not empty, stands in the input, and leads to a kind other than end of input. -/
theorem ScanState.scan_boundary (state : ScanState) (cursor : Nat)
    (ahead : List UInt8) :
    ((state.scan cursor ahead).next = .enter .eof ∧
        (state.scan cursor ahead).ahead = []) ∨
      ((state.scan cursor ahead).next.mode ≠ .eof ∧
        0 < (state.scan cursor ahead).skip ∧
        0 < (state.scan cursor ahead).ahead.length ∧
        (state.scan cursor ahead).ahead.length ≤ ahead.length) := by
  induction ahead generalizing state cursor with
  | nil => exact Or.inl ⟨rfl, rfl⟩
  | cons byte after ih =>
      unfold scan
      split
      · rename_i next _
        cases ih next (cursor + 1) with
        | inl hend => exact Or.inl hend
        | inr hdelimiter =>
            obtain ⟨hmode, hskip, hpos, hle⟩ := hdelimiter
            exact Or.inr ⟨hmode, hskip, hpos,
              Nat.le_trans hle (Nat.le_succ after.length)⟩
      · rename_i next skip hstep
        obtain ⟨hskip, hmode⟩ := step_switch hstep
        exact Or.inr ⟨hmode, hskip, by simp, Nat.le_refl _⟩

/-- The steps of a scan over the given bytes that changed its state, each with
its offset, and the last state.  The bytes of a delimiter are passed over:
`pending` counts those that are still to pass. -/
def ScanState.history (state : ScanState) (cursor pending : Nat) :
    List UInt8 → List (Nat × Step) × ScanState
  | [] => ([], state)
  | byte :: after =>
      match pending with
      | pending + 1 => state.history (cursor + 1) pending after
      | 0 =>
          match state.step byte after with
          | .advance next =>
              let (later, last) := next.history (cursor + 1) 0 after
              if next = state then (later, last)
              else ((cursor, .advance next) :: later, last)
          | .switch next skip =>
              let (later, last) := next.history (cursor + 1) (skip - 1) after
              ((cursor, .switch next skip) :: later, last)

end Stencil
