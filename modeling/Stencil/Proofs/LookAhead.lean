/-
How far the scan looks ahead.  Three characters tell what is found at a place,
so a span is cut off in the same place whatever stands further on; and all
spans up to the marker that opens a script are the same whatever the script is.
-/
import Stencil.Proofs.BraceNesting
import Stencil.Proofs.Continuation

namespace Stencil

namespace ScanState

/-- Three characters of look-ahead are enough. -/
theorem delimiter?_take (state : ScanState) (ahead : List Char) :
    state.delimiter? (ahead.take 3) = state.delimiter? ahead := by
  have hshort : ∀ marker : List Char, marker.length ≤ 3 →
      (marker <+: ahead.take 3 ↔ marker <+: ahead) := by
    intro marker hlength
    simp [List.prefix_take_iff, hlength]
  by_cases hplain : state.mode = .plain
  · rw [delimiter?_plain hplain, delimiter?_plain hplain]
    congr 1
    apply find?_of_agree
    intro entry hentry
    simp only [hshort entry.1 (openingTable_length entry hentry).2]
  · by_cases haware : state.mode.isNestingAware = true
    · rw [delimiter?_nesting haware, delimiter?_nesting haware]
      simp only [hshort ['}'] (by decide), hshort ['/', '}'] (by decide)]
    · have hflat := Token.isFlat_of_not hplain haware
      rw [delimiter?_flat hflat, delimiter?_flat hflat]
      congr 1
      apply find?_of_agree
      intro closing hclosing
      have hlength := (state.mode.closings_length closing hclosing).2
      simp only [hshort closing (by omega)]

section

variable {state : ScanState} {body kept rest : List Char}

/-- What is found here does not depend on what stands after three characters
that are kept. -/
theorem delimiter?_of_kept (state : ScanState) (hkept : 3 ≤ kept.length)
    (rest other : List Char) :
    state.delimiter? (kept ++ rest) = state.delimiter? (kept ++ other) := by
  rw [← state.delimiter?_take (kept ++ rest),
    ← state.delimiter?_take (kept ++ other),
    List.take_append_of_le_length hkept, List.take_append_of_le_length hkept]

/-- A body is passed also where something else stands after two characters
that are kept. -/
theorem Passes.of_kept (hpasses : state.Passes body (kept ++ rest))
    (hkept : 2 ≤ kept.length) (other : List Char) :
    state.Passes body (kept ++ other) := by
  intro place hplace
  have hfound := hpasses place hplace
  have hlong : 3 ≤ (body.drop place ++ kept).length := by
    rw [List.length_append, List.length_drop]
    omega
  rw [List.drop_append_of_le_length (Nat.le_of_lt hplace),
    ← List.append_assoc] at hfound ⊢
  rw [← hfound]
  exact delimiter?_of_kept _ hlong other rest

/-- A span is cut off in the same place where something else stands after what
is kept of the input behind it. -/
theorem cut_of_kept {delimiter : List Char} {next : ScanState}
    (hcut : state.cut (body ++ (delimiter ++ (kept ++ rest))) =
      ⟨body, delimiter, next, kept ++ rest⟩)
    (hkept : 2 ≤ kept.length) (other : List Char) :
    state.cut (body ++ (delimiter ++ (kept ++ other))) =
      ⟨body, delimiter, next, kept ++ other⟩ := by
  have hpasses := state.passes_cut (body ++ (delimiter ++ (kept ++ rest)))
  have hends := state.cut_end (body ++ (delimiter ++ (kept ++ rest)))
  rw [hcut] at hpasses hends
  rcases hends with ⟨-, -, hnil⟩ | ⟨found, hfound, htext, hnext⟩
  · have hlength := congrArg List.length hnil
    simp only [List.length_append, List.length_nil] at hlength
    omega
  · have hmarker := (delimiter?_valid hfound).ne_nil
    obtain ⟨text, further⟩ := found
    change delimiter = text at htext
    change next = further at hnext
    subst htext hnext
    have hlong : 3 ≤ (delimiter ++ kept).length := by
      have hpos := List.length_pos_iff.mpr hmarker
      rw [List.length_append]
      exact Nat.add_le_add hpos hkept
    rw [← List.append_assoc] at hpasses hfound
    have hpassed := hpasses.of_kept (Nat.le_of_succ_le hlong) other
    rw [delimiter?_of_kept _ hlong rest other] at hfound
    rw [List.append_assoc] at hpassed hfound
    exact hpassed.cut_eq hfound

/-- What the first pieces take of an input comes first in it. -/
theorem split_of_pieces {token : Token} {ahead : List Char}
    {earlier later : List Piece} {piece : Piece}
    (hpieces : (enter token).pieces ahead = earlier ++ piece :: later) :
    ∃ rest, ahead = piecesText earlier ++ piece.text ++ rest := by
  obtain ⟨left, rfl, hlater⟩ := pieces_suffix hpieces
  have hsplit := (enter piece.token).cut_split left
  rw [pieces_eq, List.cons.injEq] at hlater
  refine ⟨((enter piece.token).cut left).rest, ?_⟩
  rw [List.append_assoc, List.append_cancel_left_eq, ← hlater.1]
  exact hsplit

/-- The first of several pieces is a span cut off from an input, and the others
are those of what is left then. -/
theorem cut_of_pieces {token : Token} {ahead : List Char} {first : Piece}
    {later : List Piece}
    (hpieces : (enter token).pieces ahead = first :: later)
    (hlater : later ≠ []) :
    token ≠ .eof ∧ first.token = token ∧
      ∃ next rest,
        (enter token).cut ahead =
            ⟨first.body, first.delimiter, enter next, rest⟩ ∧
          (enter next).pieces rest = later := by
  have hnext := (enter token).cut_next ahead
  rw [pieces_eq, List.cons.injEq] at hpieces
  obtain ⟨rfl, hrest⟩ := hpieces
  split at hrest
  · exact absurd hrest.symm hlater
  · rename_i hmore
    refine ⟨hmore, rfl, ((enter token).cut ahead).next.mode,
      ((enter token).cut ahead).rest, ?_, ?_⟩
    · rw [← hnext]
    · rw [← hnext]
      exact hrest

theorem length_opening_script :
    ∀ opening ∈ Token.openings .script, 2 ≤ opening.length := by decide

/-- Literal text ends at the marker that opens a script, whatever the script
is. -/
theorem pieces_of_literal {ahead : List Char} {literal : Piece}
    {later : List Piece}
    (hpieces : (enter .plain).pieces ahead = literal :: later)
    (hopening : literal.delimiter ∈ Token.openings .script)
    (other : List Char) :
    (enter .plain).pieces (literal.text ++ other) =
      literal :: (enter .script).pieces other := by
  have hpasses := (enter .plain).passes_cut ahead
  rw [pieces_eq, List.cons.injEq] at hpieces
  obtain ⟨rfl, -⟩ := hpieces
  generalize (enter .plain).cut ahead = cut at *
  have hpassed := hpasses.of_kept (length_opening_script _ hopening) other
  have hfound : (cut.body.foldl pass (enter .plain)).delimiter?
      (cut.delimiter ++ other) = some ⟨cut.delimiter, enter .script⟩ := by
    rw [foldl_pass_of_not_nestingAware rfl]
    exact delimiter?_opening hopening (fun heq => by cases heq)
  rw [Piece.text, List.append_assoc]
  exact pieces_of_cut (by decide) (hpassed.cut_eq hfound)

/-- The spans up to the marker that opens a script are the same whatever the
script and all after it are. -/
theorem pieces_of_opening {token : Token} {ahead : List Char}
    {earlier later : List Piece} {literal : Piece}
    (hpieces : (enter token).pieces ahead = earlier ++ literal :: later)
    (hliteral : literal.token = .plain)
    (hopening : literal.delimiter ∈ Token.openings .script)
    (other : List Char) :
    (enter token).pieces (piecesText earlier ++ (literal.text ++ other)) =
      earlier ++ literal :: (enter .script).pieces other := by
  induction earlier generalizing token ahead with
  | nil =>
      obtain rfl : token = .plain := by
        rw [pieces_eq, List.nil_append, List.cons.injEq] at hpieces
        rw [← hliteral, ← hpieces.1]
        rfl
      exact pieces_of_literal hpieces hopening other
  | cons first earlier ih =>
      obtain ⟨hmore, rfl, next, left, hcut, hrest⟩ :=
        cut_of_pieces hpieces (by simp)
      obtain ⟨rest, rfl⟩ := split_of_pieces hrest
      have hsplit := (enter first.token).cut_split ahead
      rw [hcut, List.append_assoc] at hsplit
      rw [hsplit] at hcut
      -- At least the marker that opens the script stands before the change.
      have hkept : 2 ≤ (piecesText earlier ++ literal.text).length := by
        have htwo := length_opening_script _ hopening
        rw [List.length_append, Piece.text, List.length_append]
        omega
      have htext : piecesText (first :: earlier) ++ (literal.text ++ other) =
          first.body ++ (first.delimiter ++ (piecesText earlier ++
            literal.text ++ other)) := by
        simp [piecesText, Piece.text]
      have hlater := ih hrest
      rw [← List.append_assoc] at hlater
      rw [htext, pieces_of_cut hmore (cut_of_kept hcut hkept other), hlater]
      rfl

/-- A script ends with the input, or at a marker that closes it. -/
theorem split_of_script {ahead body closing : List Char} {later : List Piece}
    (hpieces : (enter .script).pieces ahead =
      ⟨.script, body, closing⟩ :: later) :
    ∃ rest, ahead = body ++ closing ++ rest ∧
      (closing = [] ∧ rest = [] ∨
        closing ∈ Token.closings .script ∧
          (enter .script).Passes body (closing ++ rest) ∧
          later = (enter .plain).pieces rest) := by
  have hsplit := (enter .script).cut_split ahead
  have hpasses := (enter .script).passes_cut ahead
  have hend := (enter .script).cut_end ahead
  rw [pieces_eq, List.cons.injEq, Piece.mk.injEq] at hpieces
  obtain ⟨⟨-, rfl, rfl⟩, hlater⟩ := hpieces
  refine ⟨_, hsplit, ?_⟩
  rcases hend with ⟨-, hnil, hrest⟩ | ⟨found, hfound, htext, hnext⟩
  · exact Or.inl ⟨hnil, hrest⟩
  · rw [foldl_pass_of_not_nestingAware rfl, delimiter?_flat rfl] at hfound
    obtain ⟨closing, hclosing, rfl⟩ := Option.map_eq_some_iff.mp hfound
    refine Or.inr ⟨htext ▸ List.mem_of_find?_eq_some hclosing, hpasses, ?_⟩
    rw [hnext] at hlater
    exact hlater.symm

end

end ScanState

end Stencil
