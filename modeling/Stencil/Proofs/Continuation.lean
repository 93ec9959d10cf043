/-
A source that text follows.  What is settled stays: a delimiter is still found
where more input stands after it, and only at the very end of a source can a
longer opening marker take the place of a shorter one.  After a closed
directive nothing is carried over; what follows is cut up as if it stood alone.
-/
import Stencil.Proofs.Truncation

namespace Stencil

theorem Token.length_eq_of_mem_closings (token : Token) :
    ∀ first ∈ token.closings, ∀ second ∈ token.closings,
      first.length = second.length := by
  cases token <;> decide

theorem openingTable_length :
    ∀ entry ∈ openingTable, 2 ≤ entry.1.length ∧ entry.1.length ≤ 3 := by
  decide

section

variable {state : ScanState} {shorter ahead : List Char}

/-- Outside of nesting bodies a kind of span ends at markers of one length,
or, where they are openings, of two lengths that differ by one. -/
theorem ScanState.delimiter?_length {other : ScanState}
    (hmode : other.mode = state.mode)
    (haware : ¬ state.mode.isNestingAware = true)
    {first second : Delimiter}
    (hfirst : other.delimiter? shorter = some first)
    (hsecond : state.delimiter? ahead = some second) :
    second.text.length ≤
      first.text.length + if state.mode = .plain then 1 else 0 := by
  by_cases hplain : state.mode = .plain
  · rw [delimiter?_plain (hmode.trans hplain)] at hfirst
    rw [delimiter?_plain hplain] at hsecond
    obtain ⟨entry, hentry, rfl⟩ := Option.map_eq_some_iff.mp hfirst
    obtain ⟨longer, hlonger, rfl⟩ := Option.map_eq_some_iff.mp hsecond
    have hlow := openingTable_length entry (List.mem_of_find?_eq_some hentry)
    have hhigh := openingTable_length longer
      (List.mem_of_find?_eq_some hlonger)
    rw [if_pos hplain]
    change longer.1.length ≤ entry.1.length + 1
    omega
  · have hflat := Token.isFlat_of_not hplain haware
    rw [delimiter?_flat (by rwa [hmode]), hmode] at hfirst
    rw [delimiter?_flat hflat] at hsecond
    obtain ⟨closing, hclosing, rfl⟩ := Option.map_eq_some_iff.mp hfirst
    obtain ⟨longer, hlonger, rfl⟩ := Option.map_eq_some_iff.mp hsecond
    have hsame := state.mode.length_eq_of_mem_closings
      closing (List.mem_of_find?_eq_some hclosing)
      longer (List.mem_of_find?_eq_some hlonger)
    rw [if_neg hplain]
    exact Nat.le_of_eq hsame.symm

/-- A delimiter that shows only with more look-ahead is longer than what there
was to look at. -/
theorem ScanState.length_lt_of_longer
    (haware : ¬ state.mode.isNestingAware = true)
    (hshorter : shorter <+: ahead) {longer : Delimiter}
    (hlonger : state.delimiter? ahead = some longer)
    (hother : state.delimiter? shorter ≠ some longer) :
    shorter.length < longer.text.length := by
  by_contra hle
  have hstart : state.mode ≠ .startTag := by
    intro hmode
    rw [hmode] at haware
    exact haware rfl
  have hfits := List.prefix_of_prefix_length_le
    (delimiter?_valid hlonger).isPrefix hshorter (Nat.le_of_not_lt hle)
  exact hother (delimiter?_of_shorter hstart hshorter hlonger hfits)

/-- A delimiter is also found with more look-ahead, but for an opening marker
that the input ends with: it may turn into a longer one. -/
theorem ScanState.delimiter?_of_longer (hshorter : shorter <+: ahead)
    {delimiter : Delimiter}
    (hfound : state.delimiter? shorter = some delimiter) :
    state.delimiter? ahead = some delimiter ∨
      (state.mode = .plain ∧ shorter = delimiter.text ∧
        ∃ longer, state.delimiter? ahead = some longer) := by
  by_cases haware : state.mode.isNestingAware = true
  · left
    rw [delimiter?_nesting haware] at hfound ⊢
    split at hfound
    · rename_i hclose
      rw [if_pos ⟨hclose.1, hclose.2.trans hshorter⟩]
      exact hfound
    · split at hfound
      · rename_i hself
        have hslash : ¬ ['}'] <+: ahead := by
          intro hbrace
          have hstarts := hself.2.trans hshorter
          obtain ⟨rest, rfl⟩ := hbrace
          simp at hstarts
        rw [if_neg (fun hclose => hslash hclose.2),
          if_pos ⟨hself.1, hself.2.trans hshorter⟩]
        exact hfound
      · cases hfound
  · cases hlonger : state.delimiter? ahead with
    | none =>
        rw [delimiter?_eq_none_of_shorter hshorter hlonger] at hfound
        cases hfound
    | some longer =>
        by_cases hsame : longer = delimiter
        · exact Or.inl (congrArg some hsame)
        · have hother : state.delimiter? shorter ≠ some longer := by
            rw [hfound]
            exact fun heq => hsame (Option.some.inj heq).symm
          have hshort := length_lt_of_longer haware hshorter hlonger hother
          have hlengths := delimiter?_length rfl haware hfound hlonger
          have hstarts := (delimiter?_valid hfound).isPrefix
          have hwithin := hstarts.length_le
          split at hlengths
          · rename_i hplain
            refine Or.inr ⟨hplain, ?_, longer, rfl⟩
            exact (hstarts.eq_of_length_le (by omega)).symm
          · omega

/-- Where nothing is found here and something later, more look-ahead shows
nothing here: a marker that is only begun is all that is left of an input. -/
theorem ScanState.delimiter?_eq_none_of_longer {char : Char}
    {after : List Char} (hnone : state.delimiter? (char :: after) = none)
    (hclosed : ((state.pass char).cut after).delimiter ≠ [])
    (more : List Char) :
    state.delimiter? (char :: (after ++ more)) = none := by
  have hshorter : char :: after <+: char :: (after ++ more) :=
    List.prefix_append (char :: after) more
  by_cases haware : state.mode.isNestingAware = true
  · rw [delimiter?_nesting haware] at hnone ⊢
    cases after with
    | nil => exact absurd rfl hclosed
    | cons next after => simpa [List.cons_prefix_cons] using hnone
  · cases hlonger : state.delimiter? (char :: (after ++ more)) with
    | none => rfl
    | some longer =>
        have hshort := length_lt_of_longer haware hshorter hlonger
          (by rw [hnone]; simp)
        rcases (state.pass char).cut_boundary after with hend | hlater
        · exact absurd hend.2.1 hclosed
        · obtain ⟨passed, delimiter, hfound, hmode, htext, _⟩ := hlater
          rw [mode_pass] at hmode
          have hlengths := delimiter?_length hmode haware hfound hlonger
          have hsplit := congrArg List.length
            ((state.pass char).cut_split after)
          rw [List.length_append, List.length_append, htext] at hsplit
          rw [List.length_cons] at hshort
          split at hlengths <;> omega

theorem Delimiter.Valid.head?_text {delimiter : Delimiter}
    (hvalid : delimiter.Valid ahead) :
    delimiter.text.head? = ahead.head? := by
  obtain ⟨rest, hrest⟩ := hvalid.isPrefix
  rw [← hrest, List.head?_append_of_ne_nil _ hvalid.ne_nil]

/-- A span that a delimiter ends is cut off in the same place when text
follows.  Only an opening marker at the end of the input may grow. -/
theorem ScanState.cut_append (state : ScanState) (ahead more : List Char)
    (hclosed : (state.cut ahead).delimiter ≠ []) :
    state.cut (ahead ++ more) =
        { state.cut ahead with rest := (state.cut ahead).rest ++ more } ∨
      (state.mode = .plain ∧ (state.cut ahead).rest = [] ∧
        (state.cut (ahead ++ more)).body = (state.cut ahead).body ∧
        (state.cut (ahead ++ more)).delimiter.head? =
          (state.cut ahead).delimiter.head?) := by
  induction ahead generalizing state with
  | nil => exact absurd rfl hclosed
  | cons char after ih =>
      cases hfound : state.delimiter? (char :: after) with
      | none =>
          rw [cut_cons_of_none hfound] at hclosed ⊢
          have hnone := delimiter?_eq_none_of_longer hfound hclosed more
          rw [List.cons_append, cut_cons_of_none hnone]
          rcases ih (state.pass char) hclosed with hsame | hgrown
          · rw [hsame]
            exact Or.inl rfl
          · obtain ⟨hplain, hrest, hbody, hhead⟩ := hgrown
            rw [mode_pass] at hplain
            exact Or.inr ⟨hplain, hrest, congrArg (List.cons char) hbody, hhead⟩
      | some delimiter =>
          have hlonger : char :: after <+: char :: after ++ more :=
            List.prefix_append _ _
          rw [cut_of_delimiter hfound]
          have hvalid := delimiter?_valid hfound
          rcases delimiter?_of_longer hlonger hfound with hsame | hgrown
          · left
            rw [cut_of_delimiter hsame,
              List.drop_append_of_le_length hvalid.isPrefix.length_le]
          · obtain ⟨hplain, htext, longer, hgrown⟩ := hgrown
            rw [cut_of_delimiter hgrown]
            refine Or.inr ⟨hplain, ?_, rfl, ?_⟩
            · simp [← htext]
            · rw [(delimiter?_valid hgrown).head?_text, hvalid.head?_text]
              rfl

theorem ScanState.pieces_nil (state : ScanState) :
    state.pieces [] =
      ⟨state.mode, [], []⟩ ::
        if state.mode = .eof then [] else [⟨.eof, [], []⟩] := by
  rw [pieces_eq, ← pieces_eof]
  rfl

theorem ScanState.length_pieces_nil (state : ScanState) :
    (state.pieces []).length ≤ 2 := by
  rw [pieces_nil]
  split <;> simp

/-- A span that two more follow is closed by a delimiter. -/
theorem ScanState.closed_of_pieces {first : Piece} {later : List Piece}
    (hpieces : state.pieces ahead = first :: later)
    (hlater : 2 ≤ later.length) :
    state.mode ≠ .eof ∧
      first = ⟨state.mode, (state.cut ahead).body,
        (state.cut ahead).delimiter⟩ ∧
      (state.cut ahead).delimiter ≠ [] ∧
      (state.cut ahead).next.pieces (state.cut ahead).rest = later := by
  rw [pieces_eq, List.cons.injEq] at hpieces
  obtain ⟨hfirst, hpieces⟩ := hpieces
  split at hpieces
  · rw [← hpieces] at hlater
    cases hlater
  · rename_i hmore
    refine ⟨hmore, hfirst.symm, ?_, hpieces⟩
    intro hnil
    rcases state.cut_boundary ahead with hend | hdelimiter
    · rw [hend.1, hend.2.2, pieces_nil] at hpieces
      rw [← hpieces] at hlater
      exact absurd hlater (by decide)
    · obtain ⟨passed, delimiter, hfound, _, htext, _⟩ := hdelimiter
      exact (delimiter?_valid hfound).ne_nil (htext.symm.trans hnil)

/-- All spans of an input but the last two are spans of every longer input,
laid out in the same way. -/
theorem ScanState.layOut_isPrefix_of_append {settled later : List Piece}
    (hpieces : state.pieces ahead = settled ++ later)
    (hlater : 2 ≤ later.length) (before more : List Char) :
    layOut before settled <+: layOut before (state.pieces (ahead ++ more)) := by
  induction settled generalizing state ahead before with
  | nil => exact List.nil_prefix
  | cons first settled ih =>
      rw [List.cons_append] at hpieces
      have hmany : 2 ≤ (settled ++ later).length := by
        rw [List.length_append]
        omega
      obtain ⟨hmore, rfl, hclosed, hrest⟩ := closed_of_pieces hpieces hmany
      rw [layOut, pieces_eq, if_neg hmore, layOut]
      rcases state.cut_append ahead more hclosed with hsame | hgrown
      · rw [hsame]
        exact List.cons_prefix_cons.mpr ⟨rfl, ih hrest _⟩
      · -- The delimiter ends the input, and so this span is the last settled.
        obtain ⟨_, hnil, hbody, hhead⟩ := hgrown
        have hlength := (state.cut ahead).next.length_pieces_nil
        rw [← hnil, hrest, List.length_append] at hlength
        have hlast : settled = [] :=
          List.eq_nil_of_length_eq_zero (by omega)
        rw [hlast]
        refine List.cons_prefix_cons.mpr ⟨?_, List.nil_prefix⟩
        simp only [Piece.lexeme, hbody, hhead]

/-- Where the spans of an input end with empty literal text, those of what
follows come after the others as they are. -/
theorem ScanState.pieces_append {token : Token} {earlier : List Piece}
    (hpieces : (ScanState.enter token).pieces ahead =
      earlier ++ [⟨.plain, [], []⟩, ⟨.eof, [], []⟩]) (more : List Char) :
    (ScanState.enter token).pieces (ahead ++ more) =
      earlier ++ (ScanState.enter .plain).pieces more := by
  induction earlier generalizing token ahead with
  | nil =>
      have hsplit := (ScanState.enter token).cut_split ahead
      rw [pieces_eq, List.nil_append, List.cons.injEq, Piece.mk.injEq]
        at hpieces
      obtain ⟨⟨rfl, hbody, hdelimiter⟩, _⟩ := hpieces
      rw [hbody, hdelimiter, cut_rest_of_nil hdelimiter] at hsplit
      rw [hsplit]
      rfl
  | cons first earlier ih =>
      rw [List.cons_append] at hpieces
      obtain ⟨hmore, rfl, hclosed, hrest⟩ := closed_of_pieces hpieces (by simp)
      rw [pieces_eq, if_neg hmore, List.cons_append]
      rcases (ScanState.enter token).cut_append ahead more hclosed with
        hsame | hgrown
      · rw [cut_next] at hrest
        rw [hsame, ← ih hrest, ← cut_next]
      · -- An opening marker leads to a directive, and not to literal text.
        obtain ⟨hplain, hnil, _, _⟩ := hgrown
        have hlength :=
          ((ScanState.enter token).cut ahead).next.length_pieces_nil
        rw [← hnil, hrest, List.length_append] at hlength
        have hlast : earlier = [] := by
          apply List.eq_nil_of_length_eq_zero
          simpa using hlength
        rw [hlast, hnil, pieces_nil, List.nil_append, List.cons.injEq,
          Piece.mk.injEq] at hrest
        have hgap := @cut_gap (ScanState.enter token) ahead hmore
        rw [hplain, hrest.1.1] at hgap
        exact absurd hgap List.not_mem_nil

end

/-- The spans of an input end with one that nothing closes. -/
theorem Tiling.ends {token : Token} {ahead : List Char} {pieces : List Piece}
    (htiling : Tiling token ahead pieces) (hmore : token ≠ .eof) :
    ∃ settled last body, last ≠ .eof ∧
      pieces = settled ++ [⟨last, body, []⟩, ⟨.eof, [], []⟩] := by
  induction htiling with
  | done => exact absurd rfl hmore
  | @step token next body delimiter rest pieces hgap hself hrest ih =>
      by_cases heof : next = .eof
      · subst heof
        rw [gaps_eof hmore, List.mem_singleton] at hgap
        subst hgap
        cases hrest with
        | done => exact ⟨[], token, body, hmore, rfl⟩
        | step hgap => exact absurd rfl (ne_eof_of_mem_gaps hgap)
      · obtain ⟨settled, last, rest, hlast, rfl⟩ := ih heof
        exact ⟨_ :: settled, last, rest, hlast, rfl⟩

theorem pieces_ends (source : String) :
    ∃ settled last body, last ≠ .eof ∧
      pieces source = settled ++ [⟨last, body, []⟩, ⟨.eof, [], []⟩] :=
  (tiling_pieces source).ends (by decide)

/-- The spans that a source settles: all but the one that is still open at its
end, and the end of input. -/
def settledSpans (source : String) : List Lexeme :=
  (Lexer.ofSource source).drain.dropLast.dropLast

theorem settledSpans_of_pieces {source : String} {settled : List Piece}
    {unsettled last : Piece}
    (hpieces : pieces source = settled ++ [unsettled, last]) :
    settledSpans source = layOut [] settled ∧
      (Lexer.ofSource source).drain = settledSpans source ++
        [unsettled.lexeme (piecesText settled),
          last.lexeme (piecesText settled ++ unsettled.text)] := by
  have hdrain : (Lexer.ofSource source).drain = layOut [] settled ++
      [unsettled.lexeme (piecesText settled),
        last.lexeme (piecesText settled ++ unsettled.text)] := by
    rw [Lexer.drain_ofSource, hpieces, layOut_append]
    rfl
  have hsettled : settledSpans source = layOut [] settled := by
    simp [settledSpans, hdrain]
  exact ⟨hsettled, hsettled ▸ hdrain⟩

/-- Text after a source never rewrites what was settled.  Of a drain of the
source only the last two entries can change: the span that runs to the end of
the source, and the end of input. -/
theorem Lexer.settledSpans_isPrefix (source more : String) :
    (∃ unsettled last,
      (ofSource source).drain = settledSpans source ++ [unsettled, last] ∧
      unsettled.token ≠ .eof ∧
      unsettled.span.stop = (utf8 source).length ∧
      last.token = .eof) ∧
    settledSpans source <+: (ofSource (source ++ more)).drain := by
  obtain ⟨settled, token, body, hmore, hpieces⟩ := pieces_ends source
  obtain ⟨hsettled, hdrain⟩ := settledSpans_of_pieces hpieces
  have htext := (tiling_pieces source).piecesText
  constructor
  · refine ⟨_, _, hdrain, hmore, ?_, rfl⟩
    rw [length_utf8, ← htext, hpieces]
    simp [Piece.lexeme, piecesText, Piece.text, byteWidth_append]
  · rw [hsettled, drain_ofSource, Stencil.pieces, String.toList_append]
    exact ScanState.layOut_isPrefix_of_append hpieces (Nat.le_refl 2) _ _

/-- What follows can turn the kind of the span that is open at the end. -/
example :
    (Lexer.ofSource "a#\x7b").drain.map Lexeme.token =
        [.plain, .startTag, .eof] ∧
      (Lexer.ofSource "a#\x7b/t\x7d").drain.map Lexeme.token =
        [.plain, .endTag, .plain, .eof] := by
  decide +kernel

/-- A span moved further into a text, by so many bytes and lines. -/
def Lexeme.shift (bytes lines : Nat) (lexeme : Lexeme) : Lexeme :=
  { lexeme with
    span := ⟨lexeme.span.start + bytes, lexeme.span.stop + bytes⟩
    line := lexeme.line + lines }

theorem Piece.lexeme_append (piece : Piece) (before more : List Char) :
    piece.lexeme (before ++ more) =
      (piece.lexeme more).shift (byteWidth before) (before.count '\n') := by
  simp only [lexeme, Lexeme.shift, byteWidth_append, List.count_append,
    Lexeme.mk.injEq, Span.mk.injEq, and_true, true_and]
  omega

/-- Spans that are laid out further on are the same, but moved. -/
theorem layOut_shift (before more : List Char) (pieces : List Piece) :
    layOut (before ++ more) pieces =
      (layOut more pieces).map
        (Lexeme.shift (byteWidth before) (before.count '\n')) := by
  induction pieces generalizing more with
  | nil => rfl
  | cons piece rest ih =>
      rw [layOut, layOut, List.map_cons, piece.lexeme_append, List.append_assoc,
        ih]

/-- A source after which no directive is open: all that it leaves unsettled is
empty literal text. -/
def Closed (source : String) : Prop :=
  ∃ unsettled last,
    (Lexer.ofSource source).drain =
      settledSpans source ++ [unsettled, last] ∧
    unsettled.token = .plain ∧ unsettled.span.isEmpty = true ∧
    last.token = .eof

theorem Closed.pieces {source : String} (hclosed : Closed source) :
    ∃ settled, pieces source =
      settled ++ [⟨.plain, [], []⟩, ⟨.eof, [], []⟩] := by
  obtain ⟨unsettled, last, hdrain, htoken, hempty, _⟩ := hclosed
  obtain ⟨settled, token, body, _, hpieces⟩ := pieces_ends source
  obtain ⟨_, hlast⟩ := settledSpans_of_pieces hpieces
  rw [hdrain, List.append_cancel_left_eq, List.cons.injEq] at hlast
  rw [hlast.1] at htoken hempty
  have hbody : body = [] := by
    apply byteWidth_eq_zero
    simpa [Span.isEmpty, Piece.lexeme] using hempty
  exact ⟨settled, by rw [hpieces, hbody, ← htoken]; rfl⟩

theorem Closed.of_pieces {source : String} {settled : List Piece}
    (hpieces : Stencil.pieces source =
      settled ++ [⟨.plain, [], []⟩, ⟨.eof, [], []⟩]) : Closed source := by
  obtain ⟨_, hdrain⟩ := settledSpans_of_pieces hpieces
  refine ⟨_, _, hdrain, rfl, ?_, rfl⟩
  simp [Span.isEmpty, Piece.lexeme, byteWidth]

theorem gaps_plain (token : Token) :
    gaps token .plain = token.closings := by
  cases token <;> rfl

/-- Of the texts after a span only a closing marker begins like one. -/
theorem gap_of_closing {token next : Token} {gap rest : List Char}
    (hgap : gap ∈ gaps token next) (hnext : next ≠ .eof)
    (hclosing : gap ++ rest ∈ token.closings) : next = .plain ∧ rest = [] := by
  by_cases hplain : next = .plain
  · subst hplain
    rw [gaps_plain] at hgap
    have hsame := token.length_eq_of_mem_closings _ hgap _ hclosing
    rw [List.length_append] at hsame
    exact ⟨rfl, List.eq_nil_of_length_eq_zero (by omega)⟩
  · exfalso
    unfold gaps at hgap
    split at hgap
    · cases hgap
    · exact hnext rfl
    · cases hclosing
    · exact hplain rfl
    · rw [List.mem_singleton.mp hgap] at hclosing
      simp [Token.closings] at hclosing
    · cases hgap

/-- After a span come those of the input that is left, in the kind that its
delimiter leads to. -/
theorem ScanState.pieces_tail {token : Token} {ahead : List Char}
    {piece : Piece} {later : List Piece} (hmore : token ≠ .eof)
    (hpieces : (ScanState.enter token).pieces ahead = piece :: later) :
    ∃ next, piece.delimiter ∈ gaps token next ∧
      later = (ScanState.enter next).pieces (piecesText later) ∧
      (next = .eof → piecesText later = []) := by
  have hmode : (ScanState.enter token).mode ≠ .eof := hmore
  rw [pieces_eq, if_neg hmode, List.cons.injEq] at hpieces
  obtain ⟨rfl, hlater⟩ := hpieces
  have htext := (((ScanState.enter token).cut ahead).next.tiling
    ((ScanState.enter token).cut ahead).rest cut_rest_of_eof).piecesText
  rw [hlater] at htext
  refine ⟨_, cut_gap hmode, ?_, ?_⟩
  · rw [htext, ← hlater, ← cut_next]
  · rw [htext]
    exact cut_rest_of_eof

/-- What stands after the body of a span up to the end of the source. -/
theorem slice?_after_body {source : String} {earlier later : List Piece}
    {piece : Piece} (hpieces : pieces source = earlier ++ piece :: later) :
    slice? source ⟨(piece.lexeme (piecesText earlier)).span.stop,
        (utf8 source).length⟩ =
      some (String.ofList (piece.delimiter ++ piecesText later)) := by
  have hsplit : source.toList = piecesText earlier ++ piece.body ++
      (piece.delimiter ++ piecesText later) ++ [] := by
    rw [← (tiling_pieces source).piecesText, hpieces]
    simp [piecesText, Piece.text]
  have hslice := slice?_of_split hsplit
  rw [length_utf8, hsplit, List.append_nil,
    byteWidth_append (piecesText earlier ++ piece.body)]
  rw [byteWidth_append (piecesText earlier)] at hslice ⊢
  exact hslice

/-- Where a source ends: with the marker that closes the directive. -/
def EndsWithClosing (source : String) (directive : Lexeme) : Prop :=
  ∃ closing ∈ directive.token.closings,
    slice? source ⟨directive.span.stop, (utf8 source).length⟩ =
      some (String.ofList closing)

/-- A closed source is empty, or the last thing in it closes a directive. -/
theorem Closed.ends {source : String} (hclosed : Closed source) :
    source = "" ∨ ∃ directive ∈ (Lexer.ofSource source).drain,
      EndsWithClosing source directive := by
  obtain ⟨settled, hpieces⟩ := hclosed.pieces
  rcases settled.eq_nil_or_concat' with rfl | ⟨earlier, piece, rfl⟩
  · left
    have htext := (tiling_pieces source).piecesText
    rw [hpieces] at htext
    exact String.toList_eq_nil_iff.mp htext.symm
  · right
    rw [List.append_assoc, List.singleton_append] at hpieces
    obtain ⟨rest, _, hlater⟩ := ScanState.pieces_suffix hpieces
    have hmore := (ScanState.closed_of_pieces hlater (Nat.le_refl 2)).1
    obtain ⟨next, hgap, hnext, _⟩ := ScanState.pieces_tail hmore hlater
    rw [ScanState.pieces_eq, List.cons.injEq, Piece.mk.injEq] at hnext
    have hplain : next = .plain := hnext.1.1.symm
    rw [hplain, gaps_plain] at hgap
    refine ⟨piece.lexeme (piecesText earlier), ?_, piece.delimiter, hgap, ?_⟩
    · rw [Lexer.drain_ofSource, hpieces, layOut_append]
      exact List.mem_append_right _ List.mem_cons_self
    · have hslice := slice?_after_body hpieces
      simpa [piecesText, Piece.text] using hslice

theorem Closed.of_ends {source : String} {directive : Lexeme}
    (hdirective : directive ∈ (Lexer.ofSource source).drain)
    (hends : EndsWithClosing source directive) : Closed source := by
  obtain ⟨closing, hclosing, hslice⟩ := hends
  rw [Lexer.drain_ofSource] at hdirective
  obtain ⟨earlier, piece, later, hpieces, rfl⟩ := mem_layOut hdirective
  rw [List.nil_append, slice?_after_body hpieces, Option.some.injEq,
    String.ofList_inj] at hslice
  change closing ∈ piece.token.closings at hclosing
  have hmore : piece.token ≠ .eof := by
    intro heof
    rw [heof] at hclosing
    cases hclosing
  obtain ⟨rest, _, hlater⟩ := ScanState.pieces_suffix hpieces
  obtain ⟨next, hgap, hnext, hend⟩ := ScanState.pieces_tail hmore hlater
  rw [← hslice] at hclosing
  have hopen : next ≠ .eof := by
    intro heof
    rw [hend heof, List.append_nil] at hclosing
    rw [heof, gaps_eof hmore, List.mem_singleton] at hgap
    exact piece.token.closings_ne_nil _ hclosing hgap
  obtain ⟨rfl, hnil⟩ := gap_of_closing hgap hopen hclosing
  rw [hnil, ScanState.pieces_nil] at hnext
  rw [hnext, ← List.singleton_append, ← List.append_assoc] at hpieces
  exact Closed.of_pieces hpieces

/-- After a source that is closed, which is to say empty or at the end of a
directive, comes what follows as it is alone, but moved: every span by the
length of the first source, and every line by the line breaks in it. -/
theorem Lexer.drain_append :
    (∀ source, Closed source ↔ source = "" ∨
      ∃ directive ∈ (ofSource source).drain,
        EndsWithClosing source directive) ∧
    ∀ first second, Closed first →
      (ofSource (first ++ second)).drain =
        settledSpans first ++ (ofSource second).drain.map
          (Lexeme.shift (utf8 first).length (lineBreaks first)) := by
  constructor
  · intro source
    constructor
    · exact Closed.ends
    · rintro (rfl | ⟨directive, hdirective, hends⟩)
      · exact @Closed.of_pieces "" [] ScanState.initial.pieces_nil
      · exact Closed.of_ends hdirective hends
  · intro first second hclosed
    obtain ⟨settled, hpieces⟩ := hclosed.pieces
    have hfirst : piecesText settled = first.toList := by
      rw [← (tiling_pieces first).piecesText, hpieces]
      simp [piecesText, Piece.text]
    have hboth : Stencil.pieces (first ++ second) =
        settled ++ Stencil.pieces second := by
      rw [Stencil.pieces, String.toList_append]
      exact ScanState.pieces_append hpieces second.toList
    have hmoved := layOut_shift first.toList [] (Stencil.pieces second)
    rw [List.append_nil] at hmoved
    rw [drain_ofSource, hboth, layOut_append, List.nil_append, hfirst, hmoved,
      (settledSpans_of_pieces hpieces).1, drain_ofSource, length_utf8]
    rfl

namespace ContinuationWitness

/-- Ends with a start tag that closes itself, after a line break. -/
def first : String := "é\n#\x7bt /\x7d"

/-- Begins with what a marker may end with. -/
def second : String := "\x7d/%\x7bs\x7d%\n$\x7bx\x7d"

theorem drained_apart :
    Closed first ∧
    settledSpans first =
      [⟨.plain, ⟨0, 3⟩, 1, "é\n", some '#'⟩,
        ⟨.startTag, ⟨5, 7⟩, 2, "t ", some '/'⟩,
        ⟨.endTag, ⟨8, 8⟩, 2, "", some '\x7d'⟩] ∧
    (Lexer.ofSource (first ++ second)).drain =
      settledSpans first ++
        [⟨.plain, ⟨9, 11⟩, 2, "\x7d/", some '%'⟩,
          ⟨.script, ⟨13, 14⟩, 2, "s", some '\x7d'⟩,
          ⟨.plain, ⟨16, 17⟩, 2, "\n", some '$'⟩,
          ⟨.expr, ⟨19, 20⟩, 3, "x", some '\x7d'⟩,
          ⟨.plain, ⟨21, 21⟩, 3, "", none⟩, ⟨.eof, ⟨21, 21⟩, 3, "", none⟩] := by
  have hclosed : Closed first := by
    refine (Lexer.drain_append.1 first).mpr (Or.inr ?_)
    exact ⟨⟨.endTag, ⟨8, 8⟩, 2, "", some '\x7d'⟩, by decide +kernel,
      ['\x7d'], by decide, by decide +kernel⟩
  refine ⟨hclosed, by decide +kernel, ?_⟩
  rw [Lexer.drain_append.2 first second hclosed]
  congr 1
  decide +kernel

end ContinuationWitness

end Stencil
