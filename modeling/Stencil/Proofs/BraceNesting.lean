/-
Where bodies with nested braces end.  A scan inside an expression or a start tag
counts its braces exactly, so it ends at the first brace that the body did not
open; a start tag ends before that where a slash stands before a closing brace,
and then an empty end tag and literal text follow.
-/
import Stencil.Proofs.Rendering

namespace Stencil

/-- Nothing ends a span anywhere in the body that a cut takes. -/
theorem ScanState.passes_cut (state : ScanState) (ahead : List Char) :
    state.Passes (state.cut ahead).body
      ((state.cut ahead).delimiter ++ (state.cut ahead).rest) := by
  induction ahead generalizing state with
  | nil => exact fun place hplace => absurd hplace (Nat.not_lt_zero place)
  | cons char after ih =>
      cases hfound : state.delimiter? (char :: after) with
      | some delimiter =>
          rw [cut_of_delimiter hfound]
          exact fun place hplace => absurd hplace (Nat.not_lt_zero place)
      | none =>
          have hsplit := (state.pass char).cut_split after
          rw [List.append_assoc] at hsplit
          rw [cut_cons_of_none hfound]
          intro place hplace
          cases place with
          | zero =>
              simp only [List.take_zero, List.foldl_nil, List.drop_zero,
                List.cons_append]
              rw [← hsplit, hfound]
          | succ place =>
              exact ih (state.pass char) place (by simpa using hplace)

section

variable {state : ScanState} {body rest : List Char}

/-- Passing a character counts its brace exactly: a closing brace that none is
open for would have ended the span. -/
theorem ScanState.depth_pass (haware : state.mode.isNestingAware = true)
    {char : Char} {after : List Char}
    (hnone : state.delimiter? (char :: after) = none) :
    (state.pass char).depth + [char].count '}' =
      state.depth + [char].count '{' := by
  have hinside : char = '}' → state.depth ≠ 0 := by
    rintro rfl hzero
    rw [delimiter?_nesting haware, if_pos ⟨hzero, by simp⟩] at hnone
    cases hnone
  simp only [pass, haware, if_true]
  split
  · rename_i hopen
    simp [hopen]
  · rename_i hopen
    split
    · rename_i hclose
      have hdepth := hinside hclose
      simp [hclose]
      omega
    · rename_i hclose
      simp [hopen, hclose]

/-- Over a body that is passed, every brace has been counted. -/
theorem ScanState.Passes.depth (haware : state.mode.isNestingAware = true)
    (hpasses : state.Passes body rest) :
    (body.foldl ScanState.pass state).depth + body.count '}' =
      state.depth + body.count '{' := by
  induction body generalizing state with
  | nil => rfl
  | cons char body ih =>
      have hnow : state.delimiter? (char :: (body ++ rest)) = none := by
        simpa using hpasses 0 (by simp)
      have hlater : (state.pass char).Passes body rest := by
        intro place hplace
        simpa using hpasses (place + 1) (by simpa using hplace)
      have hchar := depth_pass haware hnow
      have hbody := ih (by rwa [mode_pass]) hlater
      rw [List.foldl_cons, ← List.singleton_append, List.count_append,
        List.count_append]
      omega

theorem ScanState.Passes.of_prefix {start more : List Char}
    (hpasses : state.Passes (start ++ more) rest) :
    state.Passes start (more ++ rest) := by
  intro place hplace
  have hshort : place < (start ++ more).length := by
    rw [List.length_append]
    omega
  have hnone := hpasses place hshort
  rwa [List.take_append_of_le_length (Nat.le_of_lt hplace),
    List.append_assoc] at hnone

/-- A body that is passed from its own depth closes no brace that it has not
opened. -/
theorem ScanState.Passes.nested {token : Token}
    (haware : token.isNestingAware = true)
    (hpasses : (ScanState.enter token).Passes body rest) : Nested body := by
  rintro start ⟨more, rfl⟩
  have hdepth := hpasses.of_prefix.depth haware
  simp only [ScanState.enter] at hdepth
  omega

/-- In the body of a start tag no slash stands before a closing brace, also
not the last character before the brace that follows. -/
theorem ScanState.Passes.not_slash
    (hpasses : (ScanState.enter .startTag).Passes body rest) :
    ∀ place < body.length, ¬ ['/', '}'] <+: (body ++ rest).drop place := by
  intro place hplace hslash
  have hnone := hpasses place hplace
  have hmode := mode_foldl_pass (.enter .startTag) (body.take place)
  rw [delimiter?_nesting (by rw [hmode]; rfl), if_neg, if_pos ⟨hmode, hslash⟩]
    at hnone
  · cases hnone
  · rintro ⟨_, hbrace⟩
    obtain ⟨after, hafter⟩ := hslash
    rw [← hafter] at hbrace
    simp at hbrace

end

/-- How the cut of a body with nested braces ends: with the input, at a brace
that closes it with its own braces balanced, or at the slash of a start tag. -/
theorem ScanState.cut_nesting {token : Token}
    (haware : token.isNestingAware = true) (ahead : List Char) :
    let cut := (ScanState.enter token).cut ahead
    (cut.delimiter = [] ∧ cut.rest = []) ∨
      (cut.delimiter = ['}'] ∧ Balanced cut.body) ∨
      (token = .startTag ∧ cut.delimiter = ['/'] ∧ cut.next = .enter .endTag ∧
        ['}'] <+: cut.rest) := by
  intro cut
  have hpasses := (ScanState.enter token).passes_cut ahead
  have hmode := mode_foldl_pass (.enter token) cut.body
  rcases (ScanState.enter token).cut_end ahead with hend | hdelimiter
  · exact Or.inl hend.2
  · obtain ⟨delimiter, hfound, htext, hnext⟩ := hdelimiter
    change cut.delimiter = delimiter.text at htext
    change cut.next = delimiter.next at hnext
    rw [delimiter?_nesting (by rw [mode_foldl_pass]; exact haware)] at hfound
    split at hfound
    · rename_i hclose
      cases hfound
      have hdepth := hpasses.depth haware
      rw [hclose.1] at hdepth
      simp only [ScanState.enter, Nat.zero_add] at hdepth
      exact Or.inr (Or.inl ⟨htext, hpasses.nested haware, hdepth⟩)
    · split at hfound
      · rename_i hself
        cases hfound
        obtain ⟨htoken, hslash⟩ := hself
        change ['/', '}'] <+: cut.delimiter ++ cut.rest at hslash
        rw [htext, List.cons_append, List.cons_prefix_cons] at hslash
        exact Or.inr (Or.inr ⟨hmode.symm.trans htoken, htext, hnext,
          hslash.2⟩)
      · cases hfound

/-- A span with nested braces: its text is under it, and closes no brace that
it has not opened. -/
structure NestedSpan (source : String) (lexeme : Lexeme) : Prop where
  text : slice? source lexeme.span = some lexeme.text
  nested : Nested lexeme.text.toList

/-- In the span no slash stands before a closing brace, also not where the
brace would be the character after the span. -/
def WithoutSlash (source : String) (lexeme : Lexeme) : Prop :=
  ∀ offset, lexeme.span.start ≤ offset → offset < lexeme.span.stop →
    slice? source ⟨offset, offset + 2⟩ ≠ some "/\x7d"

/-- The span runs to the end of the source. -/
def EndsSource (source : String) (lexeme : Lexeme) : Prop :=
  lexeme.span.stop = (utf8 source).length

/-- The span ends before a brace that closes it: all braces that it has opened
are closed in it. -/
def ClosedByBrace (source : String) (lexeme : Lexeme) : Prop :=
  charAt? source lexeme.span.stop = some '}' ∧
    lexeme.text.toList.count '}' = lexeme.text.toList.count '{'

/-- The span ends before a slash and a closing brace.  An empty end tag
between these two comes next, and literal text after them. -/
def ClosesItself (source : String) (lexeme : Lexeme)
    (later : List Lexeme) : Prop :=
  slice? source ⟨lexeme.span.stop, lexeme.span.stop + 2⟩ = some "/\x7d" ∧
    ∃ close literal rest, later = close :: literal :: rest ∧
      close.token = .endTag ∧
      close.span = ⟨lexeme.span.stop + 1, lexeme.span.stop + 1⟩ ∧
      literal.token = .plain ∧ literal.span.start = lexeme.span.stop + 2

section

variable {source : String} {token : Token}
  {before body delimiter rest : List Char}

theorem nestedSpan_of_split
    (hsource : source.toList = before ++ (body ++ delimiter ++ rest))
    (hnested : Nested body) :
    NestedSpan source (Piece.lexeme ⟨token, body, delimiter⟩ before) := by
  have hsplit : source.toList = before ++ body ++ (delimiter ++ rest) := by
    simpa using hsource
  constructor
  · exact slice?_of_split hsplit
  · rw [Piece.lexeme, String.toList_ofList]
    exact hnested

theorem withoutSlash_of_split
    (hsource : source.toList = before ++ (body ++ delimiter ++ rest))
    (hpasses : (ScanState.enter .startTag).Passes body (delimiter ++ rest)) :
    WithoutSlash source (Piece.lexeme ⟨token, body, delimiter⟩ before) := by
  intro offset hstart hstop hslice
  simp only [Piece.lexeme] at hstart hstop
  obtain ⟨first, after, hsplit, hwidth⟩ := split_of_slice? hslice
  simp only at hwidth
  rw [hsource, List.append_assoc body, List.append_assoc first] at hsplit
  obtain ⟨middle, rfl, hbody⟩ := append_of_byteWidth_le hsplit (by omega)
  rw [byteWidth_append] at hwidth
  obtain ⟨others, rfl, hslash⟩ :=
    append_of_byteWidth_le hbody.symm (by omega)
  rw [byteWidth_append] at hstop
  have hothers : others ≠ [] := by
    rintro rfl
    simp only [byteWidth] at hstop
    omega
  apply hpasses.not_slash middle.length
  · rw [List.length_append]
    have hpos := List.length_pos_iff.mpr hothers
    omega
  · rw [List.append_assoc, List.drop_left, ← hslash]
    exact List.prefix_append _ _

theorem endsSource_of_split
    (hsource : source.toList = before ++ (body ++ delimiter ++ rest))
    (hdelimiter : delimiter = []) (hrest : rest = []) :
    EndsSource source (Piece.lexeme ⟨token, body, delimiter⟩ before) := by
  rw [EndsSource, length_utf8, hsource, hdelimiter, hrest, byteWidth_append]
  simp [Piece.lexeme]

theorem closedByBrace_of_split
    (hsource : source.toList = before ++ (body ++ delimiter ++ rest))
    (hdelimiter : delimiter = ['}']) (hbalanced : Balanced body) :
    ClosedByBrace source (Piece.lexeme ⟨token, body, delimiter⟩ before) := by
  have hsplit : source.toList = before ++ body ++ ('}' :: rest) := by
    rw [hsource, hdelimiter]
    simp
  have hchar := charAt?_of_split hsplit
  rw [byteWidth_append] at hchar
  refine ⟨hchar, ?_⟩
  simpa [Piece.lexeme] using hbalanced.2

theorem closesItself_of_split {after : List Char}
    (hsource : source.toList = before ++ (body ++ delimiter ++ rest))
    (hdelimiter : delimiter = ['/']) (hrest : '}' :: after = rest) :
    ClosesItself source (Piece.lexeme ⟨token, body, delimiter⟩ before)
      (layOut (before ++ (body ++ delimiter))
        ((ScanState.enter .endTag).pieces rest)) := by
  have hsplit : source.toList = before ++ body ++ ['/', '}'] ++ after := by
    rw [hsource, hdelimiter, ← hrest]
    simp
  have hslice := slice?_of_split hsplit
  rw [byteWidth_append] at hslice
  have hclosing : ['}'] ∈ Token.closings .endTag := by decide
  have hcut := ScanState.cut_of_delimiter
    (ScanState.delimiter?_closing hclosing after)
  refine ⟨hslice, ?_⟩
  rw [← hrest, ← List.singleton_append, ScanState.pieces_eq, hcut, if_neg,
    ScanState.pieces_eq, layOut, layOut]
  · have hslash : '/'.utf8Size = 1 := rfl
    have hbrace : '}'.utf8Size = 1 := rfl
    refine ⟨_, _, _, rfl, rfl, ?_, rfl, ?_⟩
    · simp only [Piece.lexeme, hdelimiter, byteWidth_append, hslash, byteWidth,
        Nat.add_zero, Nat.add_assoc]
    · simp only [Piece.lexeme, Piece.text, hdelimiter, byteWidth_append,
        hslash, hbrace, byteWidth, Nat.add_zero, Nat.zero_add, Nat.add_assoc]
  · decide

end

/-- How a body with nested braces that is cut off ends. -/
theorem ends_of_cut {source : String} {before ahead : List Char}
    (token : Token) (haware : token.isNestingAware = true)
    (hsource : source.toList = before ++ ahead) :
    let cut := (ScanState.enter token).cut ahead
    let lexeme := Piece.lexeme ⟨token, cut.body, cut.delimiter⟩ before
    NestedSpan source lexeme ∧
      (EndsSource source lexeme ∨ ClosedByBrace source lexeme ∨
        token = .startTag ∧ ClosesItself source lexeme
          (layOut (before ++ (cut.body ++ cut.delimiter))
            (cut.next.pieces cut.rest))) := by
  intro cut lexeme
  have hpasses := (ScanState.enter token).passes_cut ahead
  have hsplit : source.toList =
      before ++ (cut.body ++ cut.delimiter ++ cut.rest) := by
    rw [hsource]
    exact congrArg _ ((ScanState.enter token).cut_split ahead)
  refine ⟨nestedSpan_of_split hsplit (hpasses.nested haware), ?_⟩
  rcases ScanState.cut_nesting haware ahead with hend | hbrace | hself
  · exact Or.inl (endsSource_of_split hsplit hend.1 hend.2)
  · exact Or.inr (Or.inl (closedByBrace_of_split hsplit hbrace.1 hbrace.2))
  · obtain ⟨htoken, hslash, hnext, after, hafter⟩ := hself
    refine Or.inr (Or.inr ⟨htoken, ?_⟩)
    rw [show cut.next = _ from hnext]
    exact closesItself_of_split hsplit hslash hafter

/-- Bodies with nested braces end exactly at the first brace that they have not
opened, or with the source; a start tag ends before that at a slash before a
closing brace, however deep the brace is nested. -/
theorem Lexer.nested_spans (source : String) :
    ∀ earlier lexeme later,
      (ofSource source).drain = earlier ++ lexeme :: later →
      (lexeme.token = .expr →
        NestedSpan source lexeme ∧
          (EndsSource source lexeme ∨ ClosedByBrace source lexeme)) ∧
      (lexeme.token = .startTag →
        NestedSpan source lexeme ∧ WithoutSlash source lexeme ∧
          (EndsSource source lexeme ∨ ClosedByBrace source lexeme ∨
            ClosesItself source lexeme later)) := by
  intro earlier lexeme later hdrain
  obtain ⟨token, before, ahead, hsource, rfl, hlater⟩ := cut_of_drain hdrain
  constructor
  · intro htoken
    change token = .expr at htoken
    subst htoken
    obtain ⟨hnested, hends | hbrace | hself⟩ :=
      ends_of_cut .expr rfl hsource
    · exact ⟨hnested, Or.inl hends⟩
    · exact ⟨hnested, Or.inr hbrace⟩
    · cases hself.1
  · intro htoken
    change token = .startTag at htoken
    subst htoken
    rw [hlater (by decide)]
    obtain ⟨hnested, hends⟩ := ends_of_cut .startTag rfl hsource
    have hsplit := hsource.trans
      (congrArg _ ((ScanState.enter .startTag).cut_split ahead))
    have hpasses := (ScanState.enter .startTag).passes_cut ahead
    refine ⟨hnested, withoutSlash_of_split hsplit hpasses, ?_⟩
    exact hends.imp_right (Or.imp_right And.right)

namespace BraceNestingWitness

/-- An expression with braces of its own, a tag that closes itself inside a
brace, and a tag that is never closed. -/
def source : String :=
  "$\x7bé\x7bb\x7d\x7d#\x7bt\x7b/\x7dc\x7d#\x7b\x7b\x7d"

def expression : Lexeme := ⟨.expr, ⟨2, 7⟩, 1, "é\x7bb\x7d", some '}'⟩

def tag : Lexeme := ⟨.startTag, ⟨10, 12⟩, 1, "t\x7b", some '/'⟩

/-- The spans after the tag. -/
def later : List Lexeme := (Lexer.ofSource source).drain.drop 4

theorem braces_and_slash :
    NestedSpan source expression ∧ ClosedByBrace source expression ∧
      NestedSpan source tag ∧ WithoutSlash source tag ∧
      ClosesItself source tag later := by
  have hexpression : (Lexer.ofSource source).drain =
      (Lexer.ofSource source).drain.take 1 ++ expression ::
        (Lexer.ofSource source).drain.drop 2 := by decide +kernel
  have htag : (Lexer.ofSource source).drain =
      (Lexer.ofSource source).drain.take 3 ++ tag :: later := by
    decide +kernel
  obtain ⟨hnested, hends⟩ :=
    (Lexer.nested_spans source _ _ _ hexpression).1 rfl
  obtain ⟨hdeeper, hslash, hcloses⟩ :=
    (Lexer.nested_spans source _ _ _ htag).2 rfl
  have hlength : (utf8 source).length = 20 := by decide +kernel
  refine ⟨hnested, ?_, hdeeper, hslash, ?_⟩
  · rcases hends with hends | hbrace
    · exact absurd (hends.trans hlength) (by decide)
    · exact hbrace
  · rcases hcloses with hends | hbrace | hself
    · exact absurd (hends.trans hlength) (by decide)
    · exact absurd hbrace.1 (by decide +kernel)
    · exact hself

end BraceNestingWitness

end Stencil
