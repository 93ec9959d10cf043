/-
Lexers under calls of every kind, in any order, before the first span and
after the end of input, on a lexer and on its copies.  After each call the last
span, what was passed after it and the rest of the source stand one after the
other in the source; so no offset falls inside a character, and no call takes a
slice that is not there.
-/
import Stencil.Proofs.Pieces

namespace Stencil

/-- A call on a lexer. -/
inductive LexerCall where
  /-- Complete a span, also after the end of input. -/
  | next
  /-- Complete a span, but none after the end of input. -/
  | next?
  | reset
  /-- Make one more lexer that stands where this one does. -/
  | clone
  | text
  | span
  | line
  | nextChar
  deriving DecidableEq, Repr

/-- The lexer after a call on it. -/
def Lexer.after (lexer : Lexer) : LexerCall → Lexer
  | .next => lexer.next.2
  | .next? => (lexer.next?.map Prod.snd).getD lexer
  | .reset => lexer.reset
  | .clone | .text | .span | .line | .nextChar => lexer

/-- The slices of the source that a call takes.  Completing a span counts the
line breaks in what was passed since the start of the one before. -/
def Lexer.slices (lexer : Lexer) : LexerCall → List (Option String)
  | .next => [slice? lexer.source lexer.passed]
  | .next? =>
      if lexer.exhausted then [] else [slice? lexer.source lexer.passed]
  | .text => [slice? lexer.source lexer.last]
  | .nextChar => [sliceFrom? lexer.source lexer.last.stop]
  | .reset | .clone | .span | .line => []

/-- Several lexers after a call on the one at a place; a copy goes to the end.
A call on no lexer changes none. -/
def callOn (lexers : List Lexer) (place : Nat) (call : LexerCall) :
    List Lexer :=
  match lexers[place]? with
  | none => lexers
  | some lexer =>
      lexers.set place (lexer.after call) ++
        if call = .clone then [lexer] else []

/-- Several lexers after calls one after the other. -/
def callAll (lexers : List Lexer) (calls : List (Nat × LexerCall)) :
    List Lexer :=
  calls.foldl (fun lexers call => callOn lexers call.1 call.2) lexers

/-- What a call keeps of one lexer, it keeps of all of them. -/
theorem forall_callOn {property : Lexer → Prop}
    (hkeeps : ∀ lexer call, property lexer → property (lexer.after call))
    {lexers : List Lexer} (hlexers : ∀ lexer ∈ lexers, property lexer)
    (place : Nat) (call : LexerCall) :
    ∀ lexer ∈ callOn lexers place call, property lexer := by
  rw [callOn]
  split
  · exact hlexers
  · rename_i called hcalled
    have hproperty := hlexers called (List.mem_of_getElem? hcalled)
    intro lexer hlexer
    rcases List.mem_append.mp hlexer with hlexer | hcopy
    · rcases List.mem_or_eq_of_mem_set hlexer with hother | rfl
      · exact hlexers lexer hother
      · exact hkeeps called call hproperty
    · split at hcopy
      · rw [List.mem_singleton.mp hcopy]
        exact hproperty
      · cases hcopy

theorem forall_callAll {property : Lexer → Prop}
    (hkeeps : ∀ lexer call, property lexer → property (lexer.after call))
    (calls : List (Nat × LexerCall)) {lexers : List Lexer}
    (hlexers : ∀ lexer ∈ lexers, property lexer) :
    ∀ lexer ∈ callAll lexers calls, property lexer := by
  induction calls generalizing lexers with
  | nil => exact hlexers
  | cons call rest ih =>
      exact ih (forall_callOn hkeeps hlexers call.1 call.2)

/-- Where a lexer stands in its source: after the text that it has seen before
its last span, the body of that span, and the gap that it has passed since. -/
structure Lexer.Stands (lexer : Lexer) (seen body gap ahead : List Char) :
    Prop where
  source : lexer.source.toList = seen ++ body ++ gap ++ ahead
  last : lexer.last = ⟨byteWidth seen, byteWidth (seen ++ body)⟩
  cursor : lexer.cursor = byteWidth (seen ++ body ++ gap)
  bytes : lexer.ahead = encode ahead
  line : lexer.line = 1 + seen.count '\n'

section

variable {lexer : Lexer} {seen body gap ahead : List Char}

theorem Lexer.stands_ofSource (source : String) :
    (Lexer.ofSource source).Stands [] [] [] source.toList where
  source := rfl
  last := rfl
  cursor := rfl
  bytes := rfl
  line := rfl

theorem Lexer.Stands.at (hstands : lexer.Stands seen body gap ahead) :
    lexer.At (seen ++ body ++ gap) ahead where
  source := hstands.source
  cursor := hstands.cursor
  bytes := hstands.bytes
  line := by
    refine ⟨seen, body ++ gap, by rw [List.append_assoc], ?_, hstands.line⟩
    rw [hstands.last]

/-- Completing a span moves on by the body that the scan cuts off and by the
delimiter after it. -/
theorem Lexer.Stands.next (hstands : lexer.Stands seen body gap ahead) :
    lexer.next.2.Stands (seen ++ body ++ gap) (lexer.state.cut ahead).body
      (lexer.state.cut ahead).delimiter (lexer.state.cut ahead).rest := by
  obtain ⟨hlexeme, _, hat⟩ := hstands.at.next
  rw [← List.append_assoc] at hat
  refine ⟨hat.source, ?_, hat.cursor, hat.bytes, congrArg Lexeme.line hlexeme⟩
  rw [byteWidth_append (seen ++ body ++ gap)]
  exact congrArg Lexeme.span hlexeme

end

/-- A lexer that stands somewhere in its source. -/
def Lexer.Placed (lexer : Lexer) : Prop :=
  ∃ seen body gap ahead, lexer.Stands seen body gap ahead

theorem Lexer.placed_ofSource (source : String) :
    (Lexer.ofSource source).Placed :=
  ⟨_, _, _, _, stands_ofSource source⟩

theorem Lexer.Placed.next? {lexer later : Lexer} {token : Token}
    (hplaced : lexer.Placed) (hnext : lexer.next? = some (token, later)) :
    later.Placed := by
  obtain ⟨seen, body, gap, ahead, hstands⟩ := hplaced
  rw [Lexer.next?] at hnext
  split at hnext
  · cases hnext
  · cases hnext
    have hlater := hstands.next
    exact ⟨_, _, _, _, hlater.source, hlater.last, hlater.cursor,
      hlater.bytes, hlater.line⟩

theorem Lexer.Placed.after {lexer : Lexer} (hplaced : lexer.Placed)
    (call : LexerCall) : (lexer.after call).Placed := by
  cases call with
  | next =>
      obtain ⟨seen, body, gap, ahead, hstands⟩ := hplaced
      exact ⟨_, _, _, _, hstands.next⟩
  | next? =>
      rw [Lexer.after]
      cases hnext : lexer.next? with
      | none => exact hplaced
      | some found => exact hplaced.next? hnext
  | reset => exact placed_ofSource lexer.source
  | clone | text | span | line | nextChar => exact hplaced

theorem Lexer.source_after (lexer : Lexer) (call : LexerCall) :
    (lexer.after call).source = lexer.source := by
  cases call with
  | next? =>
      rw [after, next?]
      split
      · rfl
      · rfl
  | next | reset | clone | text | span | line | nextChar => rfl

/-- Every lexer that calls on one lexer lead to stands in the source of that
one. -/
theorem Lexer.placed_callAll (source : String)
    (calls : List (Nat × LexerCall)) :
    ∀ lexer ∈ callAll [ofSource source] calls,
      lexer.source = source ∧ lexer.Placed := by
  refine forall_callAll ?_ calls ?_
  · rintro lexer call ⟨rfl, hplaced⟩
    exact ⟨lexer.source_after call, hplaced.after call⟩
  · intro lexer hlexer
    rw [List.mem_singleton.mp hlexer]
    exact ⟨rfl, placed_ofSource source⟩

theorem utf8ByteSize_ofList (chars : List Char) :
    (String.ofList chars).utf8ByteSize = byteWidth chars := by
  induction chars with
  | nil => rfl
  | cons char rest ih =>
      rw [String.ofList_cons, String.utf8ByteSize_append,
        String.utf8ByteSize_singleton, ih, byteWidth]

/-- The width of the characters before a cut is a position between two
characters. -/
theorem isValid_of_split {text : String} {before after : List Char}
    (hsplit : text.toList = before ++ after) :
    String.Pos.Raw.IsValid text ⟨byteWidth before⟩ := by
  rw [String.Pos.Raw.isValid_iff_exists_append]
  refine ⟨String.ofList before, String.ofList after, ?_, ?_⟩
  · rw [← String.ofList_append, ← hsplit, String.ofList_toList]
  · rw [← utf8ByteSize_ofList before]
    rfl

theorem utf8_of_split {text : String} {before after : List Char}
    (hsplit : text.toList = before ++ after) :
    utf8 text = encode before ++ encode after := by
  rw [← encode_append, ← hsplit]
  rfl

/-- The offsets of a lexer: in order, within the source, and each between two
characters of it.  The scan goes on right where the span in progress starts. -/
structure Lexer.Sound (lexer : Lexer) : Prop where
  forward : lexer.last.start ≤ lexer.last.stop
  apart : lexer.last.stop ≤ lexer.cursor
  aligned : lexer.ahead = (utf8 lexer.source).drop lexer.cursor
  within : lexer.cursor ≤ (utf8 lexer.source).length
  start : String.Pos.Raw.IsValid lexer.source ⟨lexer.last.start⟩
  stop : String.Pos.Raw.IsValid lexer.source ⟨lexer.last.stop⟩
  cursor : String.Pos.Raw.IsValid lexer.source ⟨lexer.cursor⟩

section

variable {lexer : Lexer} {seen body gap ahead : List Char}

theorem Lexer.Stands.sound (hstands : lexer.Stands seen body gap ahead) :
    lexer.Sound := by
  obtain ⟨hsource, hlast, hcursor, hbytes, _⟩ := hstands
  have hutf8 := utf8_of_split hsource
  have hstart : lexer.source.toList = seen ++ (body ++ gap ++ ahead) := by
    simpa using hsource
  have hstop : lexer.source.toList = seen ++ body ++ (gap ++ ahead) := by
    simpa using hsource
  refine ⟨?_, ?_, ?_, ?_, ?_, ?_, ?_⟩
  · simp only [hlast, byteWidth_append]
    omega
  · simp only [hlast, hcursor, byteWidth_append]
    omega
  · rw [hutf8, hcursor, ← length_encode, List.drop_left, hbytes]
  · rw [hutf8, hcursor, List.length_append, length_encode]
    exact Nat.le_add_right _ _
  · rw [hlast]
    exact isValid_of_split hstart
  · rw [hlast]
    exact isValid_of_split hstop
  · rw [hcursor]
    exact isValid_of_split hsource

/-- Whatever slice a call takes is there. -/
theorem Lexer.Stands.none_not_mem_slices
    (hstands : lexer.Stands seen body gap ahead) (call : LexerCall) :
    none ∉ lexer.slices call := by
  obtain ⟨hsource, hlast, hcursor, _, _⟩ := hstands
  have hpassed : slice? lexer.source lexer.passed =
      some (String.ofList (body ++ gap)) := by
    have hspan : lexer.passed = ⟨byteWidth seen,
        byteWidth seen + byteWidth (body ++ gap)⟩ := by
      rw [passed, hlast, hcursor, List.append_assoc,
        byteWidth_append seen (body ++ gap)]
    rw [hspan]
    exact slice?_of_split (by simpa using hsource)
  have htext : slice? lexer.source lexer.last =
      some (String.ofList body) := by
    rw [hlast, byteWidth_append]
    exact slice?_of_split (by simpa using hsource)
  have hafter : sliceFrom? lexer.source lexer.last.stop =
      some (String.ofList (gap ++ ahead)) := by
    rw [hlast, sliceFrom?, hsource, List.append_assoc (seen ++ body),
      dropBytes?_append]
    rfl
  cases call with
  | next => simp [slices, hpassed]
  | next? =>
      rw [slices]
      split
      · exact List.not_mem_nil
      · simp [hpassed]
  | text => simp [slices, htext]
  | nextChar => simp [slices, hafter]
  | reset | clone | span | line => exact List.not_mem_nil

end

/-- A lexer cannot fault: after calls of any kind on it and on its copies, each
of these has its offsets in order and between characters, and takes no slice
that is not there in the next call. -/
theorem Lexer.calls_keep_sound (source : String)
    (calls : List (Nat × LexerCall)) :
    ∀ lexer ∈ callAll [ofSource source] calls,
      lexer.source = source ∧ lexer.Sound ∧
        ∀ call, none ∉ lexer.slices call := by
  intro lexer hlexer
  obtain ⟨hsource, seen, body, gap, ahead, hstands⟩ :=
    placed_callAll source calls lexer hlexer
  exact ⟨hsource, hstands.sound, hstands.none_not_mem_slices⟩

namespace LexerCallsWitness

/-- Wide characters on both sides of every delimiter. -/
def source : String := "é%\x7bü\n\x7d%ñ$\x7b\x7b€\x7d\x7d😀"

/-- The first lexer is copied in the script, runs to its end of input and on
past it, and starts again; the copy goes on to the expression. -/
def calls : List (Nat × LexerCall) :=
  [(0, .nextChar), (0, .next?), (0, .next), (0, .clone), (0, .text),
    (0, .next?), (0, .next?), (0, .next?), (0, .next?), (0, .next?),
    (0, .next), (0, .next), (1, .next), (1, .next), (0, .reset), (1, .line)]

theorem copy_sound :
    ∃ lexer, (callAll [.ofSource source] calls)[1]? = some lexer ∧
      lexer.last = ⟨13, 18⟩ ∧ lexer.text = "\x7b€\x7d" ∧ lexer.Sound ∧
      none ∉ lexer.slices .next := by
  have hcopy : ((callAll [.ofSource source] calls)[1]?).map
      (fun lexer => (lexer.last, lexer.text)) =
        some (⟨13, 18⟩, "\x7b€\x7d") := by decide +kernel
  obtain ⟨lexer, hlexer, hfound⟩ := Option.map_eq_some_iff.mp hcopy
  obtain ⟨_, hsound, hslices⟩ := Lexer.calls_keep_sound source calls lexer
    (List.mem_of_getElem? hlexer)
  rw [Prod.mk.injEq] at hfound
  exact ⟨lexer, hlexer, hfound.1, hfound.2, hsound, hslices .next⟩

end LexerCallsWitness

end Stencil
