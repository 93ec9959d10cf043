/-
The markers of each kind of directive.  What the scan finds at a place is told
by the marker that starts there: an opening marker in literal text, a closing
marker elsewhere, and in a nesting body only where no brace is open.
-/
import Stencil.Proofs.CharScan

namespace Stencil

/-- The markers that open a directive of each kind. -/
def Token.openings : Token → List (List Char)
  | .eof | .plain => []
  | .script => [['%', '{'], ['{', '%']]
  | .expr => [['$', '{']]
  | .startTag => [['#', '{']]
  | .endTag => [['#', '{', '/']]
  | .message => [['&', '{']]
  | .action => [['@', '{']]
  | .absAction => [['@', '@', '{']]
  | .comment => [['*', '{']]

/-- The markers that close it. -/
def Token.closings : Token → List (List Char)
  | .eof | .plain => []
  | .script => [['}', '%'], ['%', '}']]
  | .comment => [['}', '*']]
  | .expr | .startTag | .endTag | .message | .action | .absAction => [['}']]

/-- The opening markers as the scan tries them. -/
def openingTable : List (List Char × Token) :=
  [(['%', '{'], .script), (['{', '%'], .script), (['$', '{'], .expr),
    (['#', '{', '/'], .endTag), (['#', '{'], .startTag),
    (['&', '{'], .message), (['@', '@', '{'], .absAction),
    (['@', '{'], .action), (['*', '{'], .comment)]

theorem openers_eq_openingTable :
    openers.map (fun opener => (opener.text, opener.mode)) =
      openingTable := by decide

theorem Token.spell_closers (token : Token) :
    token.closers.map spell = token.closings := by
  cases token <;> decide

theorem ScanState.delimiter?_plain {state : ScanState}
    (hplain : state.mode = .plain) (ahead : List Char) :
    state.delimiter? ahead =
      (openingTable.find? (fun entry => decide (entry.1 <+: ahead))).map
        fun entry => ⟨entry.1, .enter entry.2⟩ := by
  rw [← openers_eq_openingTable, List.find?_map, Option.map_map]
  unfold delimiter?
  rw [hplain]
  rfl

/-- The kinds whose spans end at the first place where a closing marker
starts. -/
def Token.isFlat : Token → Bool
  | .plain | .expr | .startTag => false
  | _ => true

theorem ScanState.delimiter?_flat {state : ScanState}
    (hflat : state.mode.isFlat = true) (ahead : List Char) :
    state.delimiter? ahead =
      (state.mode.closings.find?
          (fun closing => decide (closing <+: ahead))).map
        fun closing => ⟨closing, .enter .plain⟩ := by
  rw [← state.mode.spell_closers, List.find?_map, Option.map_map]
  unfold delimiter?
  split
  · rename_i hmode
    rw [hmode] at hflat
    cases hflat
  · rename_i hmode
    rw [hmode] at hflat
    cases hflat
  · rename_i hmode
    rw [hmode] at hflat
    cases hflat
  · rfl

theorem Token.eq_of_isNestingAware {token : Token}
    (haware : token.isNestingAware = true) :
    token = .expr ∨ token = .startTag := by
  cases token with
  | expr => exact Or.inl rfl
  | startTag => exact Or.inr rfl
  | eof | plain | script | endTag | message | action | absAction | comment =>
      cases haware

theorem Token.isFlat_of_not {token : Token} (hplain : token ≠ .plain)
    (haware : ¬ token.isNestingAware = true) : token.isFlat = true := by
  cases token with
  | plain => exact absurd rfl hplain
  | expr | startTag => exact absurd rfl haware
  | eof | script | endTag | message | action | absAction | comment => rfl

theorem Token.isNestingAware_of_isFlat {token : Token}
    (hflat : token.isFlat = true) : token.isNestingAware = false := by
  cases token with
  | plain | expr | startTag => cases hflat
  | eof | script | endTag | message | action | absAction | comment => rfl

theorem ScanState.delimiter?_nesting {state : ScanState}
    (haware : state.mode.isNestingAware = true) (ahead : List Char) :
    state.delimiter? ahead =
      if state.depth = 0 ∧ ['}'] <+: ahead then some ⟨['}'], .enter .plain⟩
      else if state.mode = .startTag ∧ ['/', '}'] <+: ahead then
        some ⟨['/'], .enter .endTag⟩
      else none := by
  unfold delimiter?
  rcases Token.eq_of_isNestingAware haware with hmode | hmode <;> rw [hmode]

theorem ScanState.delimiter?_opening {token : Token} {opening : List Char}
    (hopening : opening ∈ token.openings) {rest : List Char}
    (hslash : token = .startTag → rest.head? ≠ some '/') :
    (ScanState.enter .plain).delimiter? (opening ++ rest) =
      some ⟨opening, .enter token⟩ := by
  rw [delimiter?_plain rfl]
  cases token with
  | eof | plain => cases hopening
  | script =>
      simp only [Token.openings, List.mem_cons, List.not_mem_nil,
        or_false] at hopening
      rcases hopening with rfl | rfl <;> simp [openingTable]
  | startTag =>
      simp only [Token.openings, List.mem_singleton] at hopening
      subst hopening
      cases rest with
      | nil => simp [openingTable]
      | cons char after =>
          have hchar : ¬ '/' = char := by
            rintro rfl
            exact hslash rfl rfl
          simp [openingTable, hchar]
  | expr | endTag | message | action | absAction | comment =>
      simp only [Token.openings, List.mem_singleton] at hopening
      subst hopening
      simp [openingTable]

theorem ScanState.delimiter?_closing {token : Token} {closing : List Char}
    (hclosing : closing ∈ token.closings) (rest : List Char) :
    (ScanState.enter token).delimiter? (closing ++ rest) =
      some ⟨closing, .enter .plain⟩ := by
  cases token with
  | eof | plain => cases hclosing
  | script =>
      simp only [Token.closings, List.mem_cons, List.not_mem_nil,
        or_false] at hclosing
      rw [delimiter?_flat rfl]
      rcases hclosing with rfl | rfl <;> simp [enter, Token.closings]
  | expr | startTag =>
      simp only [Token.closings, List.mem_singleton] at hclosing
      subst hclosing
      rw [delimiter?_nesting rfl]
      simp [enter]
  | endTag | message | action | absAction | comment =>
      simp only [Token.closings, List.mem_singleton] at hclosing
      subst hclosing
      rw [delimiter?_flat rfl]
      simp [enter, Token.closings]

end Stencil
