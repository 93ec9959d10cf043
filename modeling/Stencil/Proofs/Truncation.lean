/-
A source that breaks off inside a span.  Less look-ahead never shows a
delimiter that more of it does not, and a delimiter that is all there is still
found; so the spans before stay as they are, and the span that is broken off
runs to the end of the input.
-/
import Stencil.Proofs.Tiling

namespace Stencil

/-- The first entry of a table whose text starts here starts also less of the
input, if that still holds it. -/
theorem find?_of_shorter {α : Type} {table : List α}
    (text : α → List Char) {shorter ahead : List Char}
    (hshorter : shorter <+: ahead) {entry : α}
    (hfound : table.find? (fun entry => decide (text entry <+: ahead)) =
      some entry)
    (hfits : text entry <+: shorter) :
    table.find? (fun entry => decide (text entry <+: shorter)) =
      some entry := by
  rw [List.find?_eq_some_iff_append] at hfound ⊢
  obtain ⟨_, earlier, later, hsplit, hearlier⟩ := hfound
  refine ⟨by simpa using hfits, earlier, later, hsplit, ?_⟩
  intro other hother
  have hnot : ¬ text other <+: ahead := by simpa using hearlier other hother
  simpa using fun hstarts => hnot (List.IsPrefix.trans hstarts hshorter)

theorem find?_eq_none_of_shorter {α : Type} {table : List α}
    {text : α → List Char} {shorter ahead : List Char}
    (hshorter : shorter <+: ahead)
    (hnone : table.find? (fun entry => decide (text entry <+: ahead)) =
      none) :
    table.find? (fun entry => decide (text entry <+: shorter)) = none := by
  rw [List.find?_eq_none] at hnone ⊢
  intro entry hentry
  have hnot : ¬ text entry <+: ahead := by simpa using hnone entry hentry
  simpa using fun hstarts => hnot (List.IsPrefix.trans hstarts hshorter)

variable {state : ScanState} {shorter ahead : List Char}

/-- Less look-ahead shows no new delimiter. -/
theorem ScanState.delimiter?_eq_none_of_shorter
    (hshorter : shorter <+: ahead) (hnone : state.delimiter? ahead = none) :
    state.delimiter? shorter = none := by
  by_cases hplain : state.mode = .plain
  · rw [delimiter?_plain hplain, Option.map_eq_none_iff] at hnone ⊢
    exact find?_eq_none_of_shorter hshorter hnone
  · by_cases haware : state.mode.isNestingAware = true
    · rw [delimiter?_nesting haware] at hnone ⊢
      split at hnone
      · cases hnone
      · rename_i hclose
        split at hnone
        · cases hnone
        · rename_i hself
          rw [if_neg, if_neg]
          · exact fun h => hself ⟨h.1, h.2.trans hshorter⟩
          · exact fun h => hclose ⟨h.1, h.2.trans hshorter⟩
    · have hflat := Token.isFlat_of_not hplain haware
      rw [delimiter?_flat hflat, Option.map_eq_none_iff] at hnone ⊢
      exact find?_eq_none_of_shorter hshorter hnone

/-- A delimiter is still found in less of the input that holds all of it.  In
a start tag this does not do: its slash is one only before a brace. -/
theorem ScanState.delimiter?_of_shorter (hstart : state.mode ≠ .startTag)
    {delimiter : Delimiter} (hshorter : shorter <+: ahead)
    (hfound : state.delimiter? ahead = some delimiter)
    (hfits : delimiter.text <+: shorter) :
    state.delimiter? shorter = some delimiter := by
  by_cases hplain : state.mode = .plain
  · rw [delimiter?_plain hplain] at hfound ⊢
    obtain ⟨entry, hentry, rfl⟩ := Option.map_eq_some_iff.mp hfound
    rw [find?_of_shorter _ hshorter hentry hfits]
    rfl
  · by_cases haware : state.mode.isNestingAware = true
    · rw [delimiter?_nesting haware] at hfound ⊢
      split at hfound
      · rename_i hclose
        cases hfound
        rw [if_pos ⟨hclose.1, hfits⟩]
      · split at hfound
        · rename_i hself
          exact absurd hself.1 hstart
        · cases hfound
    · have hflat := Token.isFlat_of_not hplain haware
      rw [delimiter?_flat hflat] at hfound ⊢
      obtain ⟨closing, hclosing, rfl⟩ := Option.map_eq_some_iff.mp hfound
      have hstill := find?_of_shorter (fun closing => closing)
        hshorter hclosing hfits
      rw [hstill]
      rfl

/-- A span is cut off in the same place when the input breaks off after its
delimiter. -/
theorem ScanState.cut_of_shorter (hstart : state.mode ≠ .startTag)
    {kept : List Char} (hkept : kept <+: (state.cut ahead).rest)
    (hclosed : (state.cut ahead).delimiter ≠ []) :
    state.cut ((state.cut ahead).body ++ (state.cut ahead).delimiter ++
        kept) =
      { state.cut ahead with rest := kept } := by
  induction ahead generalizing state with
  | nil => exact absurd rfl hclosed
  | cons char after ih =>
      cases hfound : state.delimiter? (char :: after) with
      | some delimiter =>
          have hsplit := state.cut_split (char :: after)
          rw [cut_of_delimiter hfound] at hkept hsplit ⊢
          have hshorter : delimiter.text ++ kept <+: char :: after := by
            rw [hsplit]
            exact List.prefix_append_right_inj _ |>.mpr hkept
          have hstill := delimiter?_of_shorter hstart hshorter hfound
            (List.prefix_append _ _)
          simp only [List.nil_append]
          rw [cut_of_delimiter hstill, List.drop_left]
      | none =>
          have hsplit := state.cut_split (char :: after)
          rw [cut_cons_of_none hfound] at hkept hclosed hsplit ⊢
          have hpass : (state.pass char).mode ≠ .startTag := by
            rwa [mode_pass]
          have hlater := ih hpass hkept hclosed
          have hshorter : char :: (((state.pass char).cut after).body ++
              ((state.pass char).cut after).delimiter ++ kept) <+:
                char :: after := by
            rw [hsplit]
            simpa using hkept
          have hnone := delimiter?_eq_none_of_shorter hshorter hfound
          simp only [List.cons_append]
          rw [cut_cons_of_none hnone, hlater]

/-- A span that is broken off before its delimiter runs to the end. -/
theorem ScanState.cut_body (state : ScanState) (ahead : List Char) :
    state.cut (state.cut ahead).body =
      ⟨(state.cut ahead).body, [], .enter .eof, []⟩ := by
  induction ahead generalizing state with
  | nil => rfl
  | cons char after ih =>
      cases hfound : state.delimiter? (char :: after) with
      | some delimiter =>
          rw [cut_of_delimiter hfound]
          rfl
      | none =>
          have hsplit := state.cut_split (char :: after)
          rw [cut_cons_of_none hfound] at hsplit ⊢
          have hshorter : char :: ((state.pass char).cut after).body <+:
              char :: after := by
            rw [hsplit, List.append_assoc]
            exact List.prefix_append _ _
          have hnone := delimiter?_eq_none_of_shorter hshorter hfound
          rw [cut_cons_of_none hnone, ih]

theorem Tiling.piecesText {token : Token} {pieces : List Piece}
    (htiling : Tiling token ahead pieces) :
    Stencil.piecesText pieces = ahead := by
  induction htiling with
  | done => rfl
  | step hgap hself hrest ih =>
      rw [Stencil.piecesText] at ih ⊢
      rw [List.flatMap_cons, ih, Piece.text]

/-- The pieces of an input that breaks off at the end of a body: those before
it as they were, and the body without its delimiter. -/
theorem ScanState.pieces_of_shorter {earlier later : List Piece}
    {piece : Piece} (hend : state.mode = .eof → ahead = [])
    (hpieces : state.pieces ahead = earlier ++ piece :: later)
    (hearlier : ∀ before ∈ earlier, before.token ≠ .startTag)
    (hpiece : piece.token ≠ .eof) :
    state.pieces (piecesText earlier ++ piece.body) =
      earlier ++ [⟨piece.token, piece.body, []⟩, ⟨.eof, [], []⟩] := by
  induction earlier generalizing state ahead with
  | nil =>
      rw [pieces_eq, List.nil_append, List.cons.injEq] at hpieces
      obtain ⟨rfl, _⟩ := hpieces
      change state.pieces (state.cut ahead).body = _
      rw [pieces_eq, cut_body, if_neg hpiece, pieces_eq]
      rfl
  | cons first earlier ih =>
      have hmore : state.mode ≠ .eof := by
        intro heof
        rw [pieces_eq, if_pos heof] at hpieces
        simp at hpieces
      rw [pieces_eq, if_neg hmore, List.cons_append,
        List.cons.injEq] at hpieces
      obtain ⟨rfl, hpieces⟩ := hpieces
      have hnext : (state.cut ahead).next.mode ≠ .eof := by
        intro heof
        rw [pieces_eq, if_pos heof, eq_comm,
          List.append_eq_singleton_iff] at hpieces
        rcases hpieces with ⟨_, hlast⟩ | ⟨_, hnil⟩
        · rw [List.cons.injEq] at hlast
          rw [hlast.1] at hpiece
          exact hpiece heof
        · cases hnil
      have htext := ((state.cut ahead).next.tiling (state.cut ahead).rest
        cut_rest_of_eof).piecesText
      have hkept : piecesText earlier ++ piece.body <+:
          (state.cut ahead).rest := by
        rw [← htext, hpieces]
        simp [piecesText, Piece.text]
      have hgap := @cut_gap state ahead hmore
      have hclosed := ne_nil_of_mem_gaps hgap hnext
      have hcut := cut_of_shorter
        (hearlier _ List.mem_cons_self) hkept hclosed
      have hlater := ih cut_rest_of_eof hpieces fun before hbefore =>
        hearlier before (List.mem_cons_of_mem _ hbefore)
      have hsplit : piecesText (⟨state.mode, (state.cut ahead).body,
            (state.cut ahead).delimiter⟩ :: earlier) ++ piece.body =
          (state.cut ahead).body ++ (state.cut ahead).delimiter ++
            (piecesText earlier ++ piece.body) := by
        simp [piecesText, Piece.text]
      rw [hsplit, pieces_eq, hcut, if_neg hmore, hlater]
      rfl

/-- The spans of a source that breaks off at the end of a body. -/
theorem Lexer.drain_of_shorter {source : String}
    {earlier later : List Piece} {piece : Piece}
    (hpieces : Stencil.pieces source = earlier ++ piece :: later)
    (hearlier : ∀ before ∈ earlier, before.token ≠ .startTag)
    (hpiece : piece.token ≠ .eof) :
    (ofSource (String.ofList (piecesText earlier ++ piece.body))).drain =
      layOut [] earlier ++
        [Piece.lexeme ⟨piece.token, piece.body, []⟩ (piecesText earlier),
          Piece.lexeme ⟨.eof, [], []⟩
            (piecesText earlier ++ piece.body)] := by
  have hends : ScanState.initial.mode = .eof → source.toList = [] := by
    intro heof
    cases heof
  have hshorter := ScanState.pieces_of_shorter hends hpieces hearlier hpiece
  rw [drain_ofSource, Stencil.pieces, String.toList_ofList, hshorter,
    layOut_append]
  simp [layOut, Piece.text]

end Stencil
