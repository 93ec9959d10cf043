/-
The pieces of a source: every span with the delimiter after it.  Set out one
after the other they are what a fresh lexer gives, each with its offsets, its
line and the character that follows.
-/
import Stencil.Lexer
import Stencil.Proofs.CharScan

namespace Stencil

/-- A span and the delimiter after it. -/
structure Piece where
  token : Token
  body : List Char
  delimiter : List Char
  deriving DecidableEq, Repr

/-- All that a piece takes of the source. -/
def Piece.text (piece : Piece) : List Char := piece.body ++ piece.delimiter

/-- The span in progress, and those after it. -/
def ScanState.pieces (state : ScanState) (ahead : List Char) : List Piece :=
  let cut := state.cut ahead
  ⟨state.mode, cut.body, cut.delimiter⟩ ::
    if state.mode = .eof then [] else cut.next.pieces cut.rest
termination_by ahead.length + if state.mode = .eof then 0 else 1
decreasing_by
  rename_i hmore
  rw [if_neg hmore]
  have hlength := congrArg List.length (state.cut_split ahead)
  simp only [List.length_append] at hlength
  rcases state.cut_boundary ahead with hend | hdelimiter
  · simp only [hend.1, hend.2.2, ScanState.enter, List.length_nil, if_true]
    omega
  · obtain ⟨passed, delimiter, hfound, _, htext, _⟩ := hdelimiter
    have hpos : 0 < (state.cut ahead).delimiter.length := by
      rw [htext]
      exact List.length_pos_iff.mpr
        (ScanState.delimiter?_valid hfound).ne_nil
    split <;> omega

/-- The lexeme of a piece that stands after some text. -/
def Piece.lexeme (piece : Piece) (before : List Char) : Lexeme where
  token := piece.token
  span := ⟨byteWidth before, byteWidth before + byteWidth piece.body⟩
  line := 1 + before.count '\n'
  text := String.ofList piece.body
  nextChar := piece.delimiter.head?

/-- The lexemes of pieces that stand one after the other. -/
def layOut (before : List Char) : List Piece → List Lexeme
  | [] => []
  | piece :: rest =>
      piece.lexeme before :: layOut (before ++ piece.text) rest

theorem length_layOut (before : List Char) (pieces : List Piece) :
    (layOut before pieces).length = pieces.length := by
  induction pieces generalizing before with
  | nil => rfl
  | cons piece rest ih => rw [layOut, List.length_cons, List.length_cons, ih]

/-- All that pieces take of the source. -/
def piecesText (pieces : List Piece) : List Char :=
  pieces.flatMap Piece.text

theorem layOut_append (before : List Char) (first second : List Piece) :
    layOut before (first ++ second) =
      layOut before first ++ layOut (before ++ piecesText first) second := by
  induction first generalizing before with
  | nil => simp [layOut, piecesText]
  | cons piece rest ih =>
      rw [List.cons_append, layOut, layOut, ih, List.cons_append,
        List.append_assoc]
      rfl

/-- A span that was laid out is that of a piece, with the spans of the pieces
before it and after it on both sides. -/
theorem layOut_split {before : List Char} {pieces : List Piece}
    {earlier later : List Lexeme} {lexeme : Lexeme}
    (hsplit : layOut before pieces = earlier ++ lexeme :: later) :
    ∃ first piece last, pieces = first ++ piece :: last ∧
      lexeme = piece.lexeme (before ++ piecesText first) ∧
      later = layOut (before ++ piecesText first ++ piece.text) last := by
  induction earlier generalizing before pieces with
  | nil =>
      cases pieces with
      | nil => cases hsplit
      | cons piece rest =>
          rw [layOut, List.nil_append, List.cons.injEq] at hsplit
          obtain ⟨rfl, rfl⟩ := hsplit
          exact ⟨[], piece, rest, rfl, by simp [piecesText],
            by simp [piecesText]⟩
  | cons first earlier ih =>
      cases pieces with
      | nil => cases hsplit
      | cons piece rest =>
          rw [layOut, List.cons_append, List.cons.injEq] at hsplit
          obtain ⟨others, found, last, rfl, rfl, rfl⟩ := ih hsplit.2
          exact ⟨piece :: others, found, last, rfl, by simp [piecesText],
            by simp [piecesText]⟩

/-- A span that was laid out is that of a piece, after the text of the pieces
before it. -/
theorem mem_layOut {before : List Char} {pieces : List Piece}
    {lexeme : Lexeme} (hlexeme : lexeme ∈ layOut before pieces) :
    ∃ earlier piece later, pieces = earlier ++ piece :: later ∧
      lexeme = piece.lexeme (before ++ piecesText earlier) := by
  obtain ⟨earlier, later, hsplit⟩ := List.append_of_mem hlexeme
  obtain ⟨first, piece, last, hpieces, hfound, _⟩ := layOut_split hsplit
  exact ⟨first, piece, last, hpieces, hfound⟩

/-- Where a lexer stands in its source. -/
structure Lexer.At (lexer : Lexer) (before ahead : List Char) : Prop where
  source : lexer.source.toList = before ++ ahead
  cursor : lexer.cursor = byteWidth before
  bytes : lexer.ahead = encode ahead
  line : ∃ seen passed, before = seen ++ passed ∧
    lexer.last.start = byteWidth seen ∧ lexer.line = 1 + seen.count '\n'

theorem Lexer.at_ofSource (source : String) :
    (Lexer.ofSource source).At [] source.toList where
  source := rfl
  cursor := rfl
  bytes := rfl
  line := ⟨[], [], rfl, rfl, rfl⟩

/-- One pull completes the next piece, and moves past it. -/
theorem Lexer.At.next {lexer : Lexer} {before ahead : List Char}
    (hat : lexer.At before ahead) :
    lexer.next.2.lexeme lexer.next.1 =
        Piece.lexeme ⟨lexer.state.mode, (lexer.state.cut ahead).body,
          (lexer.state.cut ahead).delimiter⟩ before ∧
      lexer.next.2.state = (lexer.state.cut ahead).next ∧
      lexer.next.2.At
        (before ++ ((lexer.state.cut ahead).body ++
          (lexer.state.cut ahead).delimiter))
        (lexer.state.cut ahead).rest := by
  have hscan := lexer.state.scan_encode lexer.cursor ahead
  rw [← hat.bytes] at hscan
  have hascii := lexer.state.cut_delimiter_ascii ahead
  have hrest := @ScanState.cut_rest_of_nil lexer.state ahead
  have hsource := hat.source
  rw [lexer.state.cut_split ahead, List.append_assoc,
    ← List.append_assoc before] at hsource
  generalize lexer.state.cut ahead = cut at hscan hascii hrest hsource ⊢
  have htext : slice lexer.source ⟨lexer.cursor,
      lexer.cursor + byteWidth cut.body⟩ = String.ofList cut.body := by
    rw [hat.cursor]
    exact slice_of_split hsource
  have hnext : charAt? lexer.source (lexer.cursor + byteWidth cut.body) =
      cut.delimiter.head? := by
    rw [hat.cursor, ← byteWidth_append, charAt?_of_split hsource]
    cases hdelimiter : cut.delimiter with
    | nil => simp [hrest hdelimiter]
    | cons first tail => rfl
  obtain ⟨seen, passed, hbefore, hstart, hline⟩ := hat.line
  have hpassed : lineBreaks (slice lexer.source lexer.passed) =
      passed.count '\n' := by
    have hspan : lexer.passed = ⟨byteWidth seen,
        byteWidth seen + byteWidth passed⟩ := by
      rw [Lexer.passed, hstart, hat.cursor, hbefore, byteWidth_append]
    have hsplit : lexer.source.toList = seen ++ passed ++ ahead := by
      rw [hat.source, hbefore]
    rw [hspan, slice_of_split hsplit]
    simp [lineBreaks]
  have hlines : lexer.line + lineBreaks (slice lexer.source lexer.passed) =
      1 + before.count '\n' := by
    rw [hline, hpassed, hbefore, List.count_append, Nat.add_assoc]
  refine ⟨?_, ?_, ?_⟩
  · simp only [Lexer.next, hscan, Lexer.lexeme, Lexer.text, Lexer.nextChar,
      Piece.lexeme, htext, hnext, hlines]
    rw [hat.cursor]
  · simp only [Lexer.next, hscan]
  · refine ⟨?_, ?_, ?_, ?_⟩
    · simpa [Lexer.next] using hsource
    · simp only [Lexer.next, hscan]
      rw [hat.cursor, byteWidth_append, byteWidth_append,
        byteWidth_of_ascii hascii, Nat.add_assoc]
    · simp only [Lexer.next, hscan, encode_append]
      rw [List.drop_left' (by rw [length_encode, byteWidth_of_ascii hascii])]
    · refine ⟨before, cut.body ++ cut.delimiter, rfl, ?_, ?_⟩
      · simp only [Lexer.next, hat.cursor]
      · simp only [Lexer.next, hlines]

theorem ScanState.pieces_eq (state : ScanState) (ahead : List Char) :
    state.pieces ahead =
      ⟨state.mode, (state.cut ahead).body, (state.cut ahead).delimiter⟩ ::
        if state.mode = .eof then []
        else (state.cut ahead).next.pieces (state.cut ahead).rest := by
  rw [pieces]

theorem ScanState.pieces_eof :
    (ScanState.enter .eof).pieces [] = [⟨.eof, [], []⟩] := by
  rw [pieces_eq]
  rfl

theorem ScanState.cut_next (state : ScanState) (ahead : List Char) :
    (state.cut ahead).next = .enter (state.cut ahead).next.mode := by
  rcases state.cut_boundary ahead with hend | hdelimiter
  · rw [hend.1]
    rfl
  · obtain ⟨passed, delimiter, hfound, _, _, hnext⟩ := hdelimiter
    have hdepth := (delimiter?_valid hfound).depth
    rw [hnext]
    exact congrArg (ScanState.mk delimiter.next.mode) hdepth

/-- From each of its pieces on, what is left of an input has the pieces that
are left. -/
theorem ScanState.pieces_suffix {token : Token} {ahead : List Char}
    {earlier later : List Piece} {piece : Piece}
    (hpieces : (ScanState.enter token).pieces ahead =
      earlier ++ piece :: later) :
    ∃ rest, ahead = piecesText earlier ++ rest ∧
      (ScanState.enter piece.token).pieces rest = piece :: later := by
  induction earlier generalizing token ahead with
  | nil =>
      refine ⟨ahead, rfl, ?_⟩
      have hhead := hpieces
      rw [pieces_eq, List.nil_append, List.cons.injEq] at hhead
      obtain ⟨rfl, _⟩ := hhead
      exact hpieces
  | cons first earlier ih =>
      have hsplit := (ScanState.enter token).cut_split ahead
      rw [pieces_eq, List.cons_append, List.cons.injEq] at hpieces
      obtain ⟨rfl, hrest⟩ := hpieces
      split at hrest
      · simp at hrest
      · rw [cut_next] at hrest
        obtain ⟨rest, hahead, hlater⟩ := ih hrest
        rw [hahead] at hsplit
        refine ⟨rest, hsplit.trans ?_, hlater⟩
        simp [piecesText, Piece.text]

/-- A drain is the next span, and after anything but the end of input what a
drain from there gives. -/
theorem Lexer.drain_eq {lexer : Lexer} (hopen : lexer.exhausted = false) :
    lexer.drain = lexer.next.2.lexeme lexer.next.1 ::
      if lexer.next.1 = .eof then [] else lexer.next.2.drain := by
  have hnext : lexer.next? = some (lexer.next.1,
      { lexer.next.2 with exhausted := lexer.next.1 == .eof }) := by
    simp [next?, hopen]
  rw [drain]
  split
  · rename_i hnone
    rw [hnone] at hnext
    cases hnext
  · rename_i token later hsome
    rw [hnext, Option.some.injEq, Prod.mk.injEq] at hsome
    obtain ⟨rfl, rfl⟩ := hsome
    by_cases heof : lexer.next.1 = .eof
    · have hdone : ({ lexer.next.2 with exhausted := true } : Lexer).drain =
          [] := by
        rw [drain]
        split
        · rfl
        · rename_i hsome
          simp [next?] at hsome
      simp only [heof, beq_self_eq_true, if_true, hdone]
      rfl
    · have hsame : ({ lexer.next.2 with exhausted := false } : Lexer) =
          lexer.next.2 := by
        rw [← hopen]
        rfl
      have hbeq : (lexer.next.1 == Token.eof) = false := by simpa using heof
      simp only [heof, if_false, hbeq, hsame]

/-- From wherever a lexer stands, draining it gives the pieces ahead. -/
theorem Lexer.At.drain {lexer : Lexer} {before ahead : List Char}
    (hat : lexer.At before ahead) (hopen : lexer.exhausted = false) :
    lexer.drain = layOut before (lexer.state.pieces ahead) := by
  obtain ⟨hlexeme, hstate, hlater⟩ := hat.next
  rw [Lexer.drain_eq hopen, hlexeme, ScanState.pieces_eq, layOut,
    lexer.next_token]
  congr 1
  by_cases heof : lexer.state.mode = .eof
  · simp [heof, layOut]
  · have := lexer.next_remaining_lt (by rwa [lexer.next_token])
    have hdrain := hlater.drain hopen
    rw [hstate] at hdrain
    simpa only [heof, if_false, Piece.text] using hdrain
termination_by lexer.remaining

/-- The pieces of a source. -/
def pieces (source : String) : List Piece :=
  ScanState.initial.pieces source.toList

theorem Lexer.drain_ofSource (source : String) :
    (Lexer.ofSource source).drain = layOut [] (pieces source) :=
  (Lexer.at_ofSource source).drain rfl

/-- Every span of a source is cut off from what is left of it, and the spans
after it are those of what is left then. -/
theorem Lexer.cut_of_drain {source : String} {earlier later : List Lexeme}
    {lexeme : Lexeme}
    (hdrain : (ofSource source).drain = earlier ++ lexeme :: later) :
    ∃ token before ahead, source.toList = before ++ ahead ∧
      lexeme = Piece.lexeme
        ⟨token, ((ScanState.enter token).cut ahead).body,
          ((ScanState.enter token).cut ahead).delimiter⟩ before ∧
      (token ≠ .eof →
        later = layOut
          (before ++ (((ScanState.enter token).cut ahead).body ++
            ((ScanState.enter token).cut ahead).delimiter))
          (((ScanState.enter token).cut ahead).next.pieces
            ((ScanState.enter token).cut ahead).rest)) := by
  rw [drain_ofSource] at hdrain
  obtain ⟨first, piece, last, hpieces, rfl, rfl⟩ := layOut_split hdrain
  obtain ⟨ahead, hsource, hlater⟩ := ScanState.pieces_suffix hpieces
  obtain ⟨token, body, delimiter⟩ := piece
  rw [ScanState.pieces_eq, List.cons.injEq] at hlater
  obtain ⟨hpiece, hlast⟩ := hlater
  simp only [Piece.mk.injEq] at hpiece
  obtain ⟨_, rfl, rfl⟩ := hpiece
  refine ⟨token, piecesText first, ahead, hsource, rfl, ?_⟩
  intro hmore
  exact congrArg (layOut _) (hlast.symm.trans (if_neg hmore))

/-- Every span of a source stands after some part of the source. -/
theorem Lexer.split_of_mem_drain {source : String} {lexeme : Lexeme}
    (hlexeme : lexeme ∈ (ofSource source).drain) :
    ∃ before ahead piece, source.toList = before ++ ahead ∧
      lexeme = Piece.lexeme piece before := by
  obtain ⟨earlier, later, hdrain⟩ := List.append_of_mem hlexeme
  obtain ⟨token, before, ahead, hsource, hfound, _⟩ := cut_of_drain hdrain
  exact ⟨before, ahead, _, hsource, hfound⟩

end Stencil
