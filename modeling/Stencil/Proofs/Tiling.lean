/-
Spans tile their source.  Between two spans stands exactly a marker that leads
from the kind of the first to the kind of the second, and the end of input
stands alone at the end; so spans and gaps together are the source.
-/
import Mathlib.Data.List.Chain
import Stencil.Proofs.Markers
import Stencil.Proofs.Pieces

namespace Stencil

/-- The texts that may stand between a span of one kind and the next one. -/
def gaps (first second : Token) : List (List Char) :=
  match first, second with
  | .eof, _ => []
  | _, .eof => [[]]
  | .plain, second => second.openings
  | first, .plain => first.closings
  | .startTag, .endTag => [['/']]
  | _, _ => []

theorem gaps_eof {token : Token} (htoken : token ≠ .eof) :
    gaps token .eof = [[]] := by
  cases token with
  | eof => exact absurd rfl htoken
  | plain | script | expr | startTag | endTag | message | action | absAction
  | comment => rfl

theorem Token.openings_ne_nil (token : Token) :
    ∀ opening ∈ token.openings, opening ≠ [] := by
  cases token <;> decide

theorem Token.closings_ne_nil (token : Token) :
    ∀ closing ∈ token.closings, closing ≠ [] := by
  cases token <;> decide

theorem ne_nil_of_mem_gaps {first second : Token} {gap : List Char}
    (hgap : gap ∈ gaps first second) (hsecond : second ≠ .eof) :
    gap ≠ [] := by
  unfold gaps at hgap
  split at hgap
  · cases hgap
  · exact absurd rfl hsecond
  · exact second.openings_ne_nil gap hgap
  · exact first.closings_ne_nil gap hgap
  · rw [List.mem_singleton.mp hgap]
    simp
  · cases hgap

theorem closings_mem_gaps (token : Token) (hflat : token.isFlat = true) :
    ∀ closing ∈ token.closings, closing ∈ gaps token .plain := by
  cases token with
  | plain | expr | startTag => cases hflat
  | eof | script | endTag | message | action | absAction | comment => decide

theorem openings_mem_gaps :
    ∀ entry ∈ openingTable, entry.1 ∈ gaps .plain entry.2 := by decide

/-- A delimiter leads from one kind of span to another as the table says. -/
theorem ScanState.delimiter?_gap {state : ScanState} {ahead : List Char}
    {delimiter : Delimiter}
    (hfound : state.delimiter? ahead = some delimiter) :
    delimiter.text ∈ gaps state.mode delimiter.next.mode := by
  by_cases hplain : state.mode = .plain
  · rw [delimiter?_plain hplain] at hfound
    obtain ⟨entry, hentry, rfl⟩ := Option.map_eq_some_iff.mp hfound
    rw [hplain]
    exact openings_mem_gaps entry (List.mem_of_find?_eq_some hentry)
  · by_cases haware : state.mode.isNestingAware = true
    · rw [delimiter?_nesting haware] at hfound
      split at hfound
      · cases hfound
        rcases Token.eq_of_isNestingAware haware with hmode | hmode <;>
          rw [hmode] <;> exact List.mem_singleton_self _
      · split at hfound
        · rename_i hself
          cases hfound
          rw [hself.1]
          exact List.mem_singleton_self _
        · cases hfound
    · have hflat := Token.isFlat_of_not hplain haware
      rw [delimiter?_flat hflat] at hfound
      obtain ⟨closing, hclosing, rfl⟩ := Option.map_eq_some_iff.mp hfound
      exact closings_mem_gaps state.mode hflat closing
        (List.mem_of_find?_eq_some hclosing)

/-- Pieces that follow one another as the table allows, from a span of the
given kind to the end of input.  After the slash of a start tag comes an empty
end tag that its brace closes. -/
inductive Tiling : Token → List Char → List Piece → Prop where
  | done : Tiling .eof [] [⟨.eof, [], []⟩]
  | step {token next : Token} {body delimiter rest : List Char}
      {pieces : List Piece}
      (hgap : delimiter ∈ gaps token next)
      (hself : token = .startTag → next = .endTag →
        ∃ later, pieces = ⟨.endTag, [], ['}']⟩ :: later)
      (hrest : Tiling next rest pieces) :
      Tiling token (body ++ delimiter ++ rest)
        (⟨token, body, delimiter⟩ :: pieces)

theorem ScanState.pieces_of_slash {state : ScanState}
    {delimiter : Delimiter} {rest : List Char}
    (hfound : state.delimiter? (delimiter.text ++ rest) = some delimiter)
    (hmode : state.mode = .startTag)
    (hnext : delimiter.next.mode = .endTag) :
    ∃ later, delimiter.next.pieces rest =
      ⟨.endTag, [], ['}']⟩ :: later := by
  rw [delimiter?_nesting (by rw [hmode]; rfl)] at hfound
  split at hfound
  · cases hfound
    cases hnext
  · split at hfound
    · rename_i hself
      cases hfound
      obtain ⟨after, hafter⟩ := hself.2
      change '/' :: '}' :: after = '/' :: rest at hafter
      rw [List.cons.injEq] at hafter
      have hclosing : ['}'] ∈ Token.closings .endTag := by decide
      have hbrace := delimiter?_closing hclosing after
      rw [List.cons_append, List.nil_append, hafter.2] at hbrace
      rw [pieces_eq, cut_of_delimiter hbrace]
      exact ⟨_, rfl⟩
    · cases hfound

/-- What a cut takes away after a span leads to the kind of the next one. -/
theorem ScanState.cut_gap {state : ScanState} {ahead : List Char}
    (hmore : state.mode ≠ .eof) :
    (state.cut ahead).delimiter ∈
      gaps state.mode (state.cut ahead).next.mode := by
  rcases state.cut_boundary ahead with hend | hdelimiter
  · rw [hend.1, hend.2.1]
    change [] ∈ gaps state.mode .eof
    rw [gaps_eof hmore]
    exact List.mem_singleton_self _
  · obtain ⟨passed, delimiter, hfound, hmode, htext, hnext⟩ := hdelimiter
    rw [htext, hnext, ← hmode]
    exact delimiter?_gap hfound

theorem ScanState.cut_rest_of_eof {state : ScanState} {ahead : List Char}
    (heof : (state.cut ahead).next.mode = .eof) :
    (state.cut ahead).rest = [] := by
  rcases state.cut_boundary ahead with hend | hdelimiter
  · exact hend.2.2
  · obtain ⟨passed, delimiter, hfound, _, _, hnext⟩ := hdelimiter
    rw [hnext] at heof
    exact absurd heof (delimiter?_valid hfound).mode

theorem ScanState.pieces_of_selfClosed {state : ScanState}
    {ahead : List Char} (hmode : state.mode = .startTag)
    (hnext : (state.cut ahead).next.mode = .endTag) :
    ∃ later, (state.cut ahead).next.pieces (state.cut ahead).rest =
      ⟨.endTag, [], ['}']⟩ :: later := by
  rcases state.cut_boundary ahead with hend | hdelimiter
  · rw [hend.1] at hnext
    cases hnext
  · obtain ⟨passed, delimiter, hfound, hsame, htext, hleft⟩ := hdelimiter
    rw [htext] at hfound
    rw [hleft] at hnext ⊢
    exact pieces_of_slash hfound (hsame.trans hmode) hnext

theorem ScanState.tiling (state : ScanState) (ahead : List Char)
    (hend : state.mode = .eof → ahead = []) :
    Tiling state.mode ahead (state.pieces ahead) := by
  induction state, ahead using ScanState.pieces.induct with
  | case1 state ahead cut ih =>
      rw [pieces_eq]
      by_cases heof : state.mode = .eof
      · rw [if_pos heof, hend heof, heof]
        exact Tiling.done
      · rw [if_neg heof]
        have hsplit : ahead = cut.body ++ cut.delimiter ++ cut.rest :=
          state.cut_split ahead
        have hrest := ih heof cut_rest_of_eof
        have htiling : Tiling state.mode
            (cut.body ++ cut.delimiter ++ cut.rest)
            (⟨state.mode, cut.body, cut.delimiter⟩ ::
              cut.next.pieces cut.rest) :=
          Tiling.step (cut_gap heof) pieces_of_selfClosed hrest
        rwa [← hsplit] at htiling

theorem ne_eof_of_mem_gaps {first second : Token} {gap : List Char}
    (hgap : gap ∈ gaps first second) : first ≠ .eof := by
  rintro rfl
  cases hgap

theorem Tiling.head {token : Token} {ahead : List Char}
    {pieces : List Piece} (htiling : Tiling token ahead pieces) :
    ∃ body delimiter later, pieces = ⟨token, body, delimiter⟩ :: later := by
  cases htiling with
  | done => exact ⟨_, _, _, rfl⟩
  | step => exact ⟨_, _, _, rfl⟩

theorem Tiling.ahead_eq_nil {ahead : List Char} {pieces : List Piece}
    (htiling : Tiling .eof ahead pieces) : ahead = [] := by
  cases htiling with
  | done => rfl
  | step hgap => exact absurd rfl (ne_eof_of_mem_gaps hgap)

/-- Only before the end of input is there no delimiter, and nothing follows
then. -/
theorem Tiling.delimiter_eq_nil_iff {token next : Token}
    {delimiter rest : List Char} {pieces : List Piece}
    (hgap : delimiter ∈ gaps token next) (hrest : Tiling next rest pieces) :
    delimiter = [] ↔ delimiter ++ rest = [] := by
  constructor
  · rintro rfl
    by_cases heof : next = .eof
    · subst heof
      exact hrest.ahead_eq_nil
    · exact absurd rfl (ne_nil_of_mem_gaps hgap heof)
  · intro hnil
    exact (List.append_eq_nil_iff.mp hnil).1

/-- Every piece but the last two takes something of the source. -/
theorem Tiling.length_le {token : Token} {ahead : List Char}
    {pieces : List Piece} (htiling : Tiling token ahead pieces) :
    pieces.length ≤ ahead.length + if token = .eof then 1 else 2 := by
  induction htiling with
  | done => exact Nat.le_refl 1
  | @step token next body delimiter rest pieces hgap hself hrest ih =>
      rw [if_neg (ne_eof_of_mem_gaps hgap)]
      simp only [List.length_append, List.length_cons]
      by_cases heof : next = .eof
      · rw [if_pos heof] at ih
        omega
      · rw [if_neg heof] at ih
        have hpos := List.length_pos_iff.mpr (ne_nil_of_mem_gaps hgap heof)
        omega

/-- What two consecutive spans and the text between them must be like. -/
structure Adjoins (source : String) (first second : Lexeme) : Prop where
  ordered : first.span.stop ≤ second.span.start
  gap : ∃ gap ∈ gaps first.token second.token,
    slice? source ⟨first.span.stop, second.span.start⟩ =
        some (String.ofList gap) ∧
      first.nextChar = gap.head?

/-- A span covers its text, and a character follows it unless it ends where
the source ends. -/
structure Covers (source : String) (lexeme : Lexeme) : Prop where
  ordered : lexeme.span.start ≤ lexeme.span.stop
  text : slice? source lexeme.span = some lexeme.text
  nextChar : lexeme.nextChar = none ↔
    lexeme.span.stop = (utf8 source).length

/-- The source from an offset on, put together from the gaps and the spans. -/
def rebuild (source : String) (offset : Nat) : List Lexeme → String
  | [] => ""
  | lexeme :: rest =>
      slice source ⟨offset, lexeme.span.start⟩ ++
        slice source lexeme.span ++
        rebuild source lexeme.span.stop rest

section

variable {source : String} {token : Token} {before ahead : List Char}
  {pieces : List Piece}

theorem Tiling.covers (htiling : Tiling token ahead pieces)
    (hsource : source.toList = before ++ ahead) :
    ∀ lexeme ∈ layOut before pieces, Covers source lexeme := by
  induction htiling generalizing before with
  | done =>
      intro lexeme hmem
      rw [List.mem_singleton.mp hmem]
      refine ⟨Nat.le_add_right _ _, ?_, ?_⟩
      · exact @slice?_of_split source before [] [] (by simpa using hsource)
      · rw [length_utf8, hsource]
        simp [Piece.lexeme, byteWidth]
  | @step token next body delimiter rest pieces hgap hself hrest ih =>
      intro lexeme hmem
      rcases List.mem_cons.mp hmem with rfl | hmem
      · refine ⟨Nat.le_add_right _ _, ?_, ?_⟩
        · exact @slice?_of_split source before body (delimiter ++ rest)
            (by simpa using hsource)
        · have hsize : (utf8 source).length =
              byteWidth before + byteWidth body +
                byteWidth (delimiter ++ rest) := by
            rw [length_utf8, hsource]
            simp only [byteWidth_append, Nat.add_assoc]
          rw [hsize]
          change delimiter.head? = none ↔ _
          rw [List.head?_eq_none_iff, delimiter_eq_nil_iff hgap hrest]
          constructor
          · intro hnil
            simp [Piece.lexeme, hnil, byteWidth]
          · intro hstop
            refine byteWidth_eq_zero ?_
            simp only [Piece.lexeme] at hstop
            omega
      · exact ih (by simpa [Piece.text] using hsource) lexeme hmem

/-- The line of a lexeme is found by counting the line breaks before it. -/
theorem Piece.line_lexeme (piece : Piece)
    (hsource : source.toList = before ++ ahead) :
    (piece.lexeme before).line =
      1 + lineBreaks (slice source ⟨0, (piece.lexeme before).span.start⟩) := by
  have hslice := @slice_of_split source [] before ahead hsource
  simp only [byteWidth, Nat.zero_add] at hslice
  simp only [lexeme, hslice, lineBreaks, String.toList_ofList]

theorem Tiling.line (htiling : Tiling token ahead pieces)
    (hsource : source.toList = before ++ ahead) :
    ∀ lexeme ∈ layOut before pieces, lexeme.line =
      1 + lineBreaks (slice source ⟨0, lexeme.span.start⟩) := by
  induction htiling generalizing before with
  | done =>
      intro lexeme hmem
      rw [List.mem_singleton.mp hmem]
      exact Piece.line_lexeme _ hsource
  | @step token next body delimiter rest pieces hgap hself hrest ih =>
      intro lexeme hmem
      rcases List.mem_cons.mp hmem with rfl | hmem
      · exact Piece.line_lexeme _ hsource
      · exact ih (by simpa [Piece.text] using hsource) lexeme hmem

theorem Tiling.chain (htiling : Tiling token ahead pieces)
    (hsource : source.toList = before ++ ahead) :
    (layOut before pieces).IsChain (Adjoins source) := by
  induction htiling generalizing before with
  | done => exact List.IsChain.singleton _
  | @step token next body delimiter rest pieces hgap hself hrest ih =>
      have hchain := @ih (before ++ (body ++ delimiter))
        (by simpa using hsource)
      obtain ⟨after, closing, later, rfl⟩ := hrest.head
      refine List.IsChain.cons_cons ⟨?_, delimiter, hgap, ?_, rfl⟩ hchain
      · simp only [Piece.lexeme, Piece.text, byteWidth_append]
        omega
      · have hslice := @slice?_of_split source (before ++ body) delimiter rest
          (by simpa using hsource)
        simpa [Piece.lexeme, Piece.text, byteWidth_append, Nat.add_assoc]
          using hslice

theorem Tiling.last (htiling : Tiling token ahead pieces)
    (hsource : source.toList = before ++ ahead) :
    ∃ earlier, layOut before pieces = earlier ++
        [⟨.eof, ⟨(utf8 source).length, (utf8 source).length⟩,
          1 + lineBreaks source, "", none⟩] ∧
      ∀ lexeme ∈ earlier, lexeme.token ≠ .eof := by
  induction htiling generalizing before with
  | done =>
      refine ⟨[], ?_, fun _ hmem => absurd hmem List.not_mem_nil⟩
      rw [List.append_nil] at hsource
      simp [layOut, Piece.lexeme, length_utf8, hsource, byteWidth, lineBreaks]
  | @step token next body delimiter rest pieces hgap hself hrest ih =>
      obtain ⟨earlier, hlast, hmore⟩ :=
        @ih (before ++ (body ++ delimiter)) (by simpa using hsource)
      refine ⟨Piece.lexeme ⟨token, body, delimiter⟩ before :: earlier,
        congrArg _ hlast, ?_⟩
      intro lexeme hmem
      rcases List.mem_cons.mp hmem with rfl | hmem
      · exact ne_eof_of_mem_gaps hgap
      · exact hmore lexeme hmem

theorem Tiling.rebuild_layOut (htiling : Tiling token ahead pieces)
    {gap : List Char} (hsource : source.toList = before ++ gap ++ ahead) :
    rebuild source (byteWidth before) (layOut (before ++ gap) pieces) =
      String.ofList (gap ++ ahead) := by
  induction htiling generalizing before gap with
  | done =>
      have hgap := slice_of_split hsource
      have hspan := @slice_of_split source (before ++ gap) [] []
        (by simpa using hsource)
      simp only [layOut, rebuild, Piece.lexeme, byteWidth_append] at hspan ⊢
      rw [hgap, hspan]
      simp
  | @step token next body delimiter rest pieces hgap hself hrest ih =>
      have hgap := @slice_of_split source before gap (body ++ delimiter ++ rest)
        (by simpa using hsource)
      have hspan := @slice_of_split source (before ++ gap) body
        (delimiter ++ rest) (by simpa using hsource)
      have hlater := @ih (before ++ gap ++ body) delimiter
        (by simpa using hsource)
      have htext : before ++ gap ++ Piece.text ⟨token, body, delimiter⟩ =
          before ++ gap ++ body ++ delimiter := by simp [Piece.text]
      rw [layOut, rebuild, htext]
      simp only [Piece.lexeme, byteWidth_append] at hspan hlater ⊢
      rw [hgap, hspan, hlater]
      simp [String.ofList_append, String.append_assoc]

end

theorem eq_plain_of_brace_mem_gaps {next : Token}
    (hgap : ['}'] ∈ gaps .endTag next) : next = .plain := by
  revert hgap
  cases next <;> decide

/-- A start tag that closes itself is followed by an empty end tag, whose
brace literal text follows. -/
theorem Tiling.selfClosed {token : Token} {ahead before : List Char}
    {pieces : List Piece} (htiling : Tiling token ahead pieces)
    {earlier later : List Lexeme} {tag close : Lexeme}
    (hsplit : layOut before pieces = earlier ++ tag :: close :: later)
    (htag : tag.token = .startTag) (hclose : close.token = .endTag) :
    close.span.isEmpty = true ∧ close.nextChar = some '}' ∧
      later.head?.map Lexeme.token = some .plain := by
  induction htiling generalizing before earlier with
  | done =>
      have hlength := congrArg List.length hsplit
      simp only [layOut, List.length_append, List.length_cons,
        List.length_nil] at hlength
      omega
  | @step token next body delimiter rest pieces hgap hself hrest ih =>
      rw [layOut] at hsplit
      cases earlier with
      | cons first earlier =>
          rw [List.cons_append, List.cons.injEq] at hsplit
          exact ih hsplit.2
      | nil =>
          rw [List.nil_append, List.cons.injEq] at hsplit
          obtain ⟨rfl, hlater⟩ := hsplit
          obtain ⟨after, closing, others, hhead⟩ := hrest.head
          have hnext : next = .endTag := by
            rw [hhead, layOut, List.cons.injEq] at hlater
            rw [← hclose, ← hlater.1]
            rfl
          obtain ⟨others, rfl⟩ := hself htag hnext
          rw [layOut, List.cons.injEq] at hlater
          obtain ⟨rfl, rfl⟩ := hlater
          refine ⟨?_, rfl, ?_⟩
          · simp [Span.isEmpty, Piece.lexeme, byteWidth]
          · cases hrest with
            | @step _ following _ _ _ _ hbrace _ hothers =>
                have hplain := eq_plain_of_brace_mem_gaps hbrace
                obtain ⟨_, _, _, rfl⟩ := hothers.head
                rw [hplain]
                rfl

/-- The first spans that a lexer gives. -/
def Lexer.pulls (lexer : Lexer) : Nat → List Lexeme
  | 0 => []
  | count + 1 => lexer.next.2.lexeme lexer.next.1 :: lexer.next.2.pulls count

theorem Lexer.pulls_drain {lexer : Lexer} (hopen : lexer.exhausted = false) :
    lexer.pulls lexer.drain.length = lexer.drain := by
  rw [drain_eq hopen]
  by_cases heof : lexer.next.1 = .eof
  · rw [if_pos heof]
    rfl
  · rw [if_neg heof, List.length_cons, pulls]
    have := lexer.next_remaining_lt heof
    have hlater : lexer.next.2.pulls lexer.next.2.drain.length =
        lexer.next.2.drain := pulls_drain hopen
    rw [hlater]
termination_by lexer.remaining

/-- The pieces of a source tile it. -/
theorem tiling_pieces (source : String) :
    Tiling .plain source.toList (pieces source) :=
  ScanState.initial.tiling source.toList (fun heof => by cases heof)

theorem Lexer.line_of_mem_drain {source : String} {lexeme : Lexeme}
    (hlexeme : lexeme ∈ (ofSource source).drain) :
    lexeme.line = 1 + lineBreaks (slice source ⟨0, lexeme.span.start⟩) := by
  rw [drain_ofSource] at hlexeme
  exact (tiling_pieces source).line rfl lexeme hlexeme

/-- What a drain of a source is like. -/
structure Tiles (source : String) (entries : List Lexeme) : Prop where
  first : ∃ lexeme rest, entries = lexeme :: rest ∧
    lexeme.token = .plain ∧ lexeme.span.start = 0
  last : ∃ earlier, entries = earlier ++
      [⟨.eof, ⟨(utf8 source).length, (utf8 source).length⟩,
        1 + lineBreaks source, "", none⟩] ∧
    ∀ lexeme ∈ earlier, lexeme.token ≠ .eof
  covers : ∀ lexeme ∈ entries, Covers source lexeme
  chain : entries.IsChain (Adjoins source)
  selfClosed : ∀ earlier tag close later,
    entries = earlier ++ tag :: close :: later →
    tag.token = .startTag → close.token = .endTag →
    close.span.isEmpty = true ∧ close.nextChar = some '}' ∧
      later.head?.map Lexeme.token = some .plain
  rebuilt : rebuild source 0 entries = source

/-- Whatever the source, a bounded number of pulls gives spans that tile it. -/
theorem Lexer.drain_tiles (source : String) :
    (∃ calls ≤ (utf8 source).length + 2,
      (ofSource source).pulls calls = (ofSource source).drain) ∧
    Tiles source (ofSource source).drain := by
  have htiling : Tiling .plain source.toList (Stencil.pieces source) :=
    ScanState.initial.tiling source.toList (fun heof => by cases heof)
  have hsource : source.toList = [] ++ source.toList := rfl
  have hdrain := drain_ofSource source
  constructor
  · refine ⟨_, ?_, pulls_drain rfl⟩
    have hpieces := htiling.length_le
    have hbytes := length_le_byteWidth source.toList
    rw [if_neg (by decide)] at hpieces
    rw [hdrain, length_layOut, length_utf8]
    omega
  · rw [hdrain]
    refine ⟨?_, htiling.last hsource, htiling.covers hsource,
      htiling.chain hsource, ?_, ?_⟩
    · obtain ⟨body, delimiter, later, hhead⟩ := htiling.head
      rw [hhead]
      exact ⟨_, _, rfl, rfl, rfl⟩
    · intro earlier tag close later hsplit htag hclose
      exact htiling.selfClosed hsplit htag hclose
    · have hrebuild := @Tiling.rebuild_layOut source .plain []
        source.toList _ htiling [] rfl
      simpa [byteWidth] using hrebuild

end Stencil
