/-
Templates as they are written: literal text and directives in turn, each
directive between its markers.  Where every text is what its place allows, the
lexer gives back exactly what was written.
-/
import Mathlib.Data.List.Induction
import Mathlib.Data.List.Infix
import Stencil.Proofs.Markers
import Stencil.Proofs.Pieces

namespace Stencil

def openingMarkers : List (List Char) := Token.all.flatMap Token.openings

/-- One of the markers starts the text. -/
def Starts (markers : List (List Char)) (text : List Char) : Prop :=
  ∃ marker ∈ markers, marker <+: text

/-- The leftmost place in the text where one of the markers starts. -/
def FirstAt (markers : List (List Char)) (text : List Char)
    (place : Nat) : Prop :=
  Starts markers (text.drop place) ∧
    ∀ earlier < place, ¬ Starts markers (text.drop earlier)

instance (markers : List (List Char)) (text : List Char) :
    Decidable (Starts markers text) :=
  inferInstanceAs (Decidable (∃ marker ∈ markers, marker <+: text))

instance (markers : List (List Char)) (text : List Char) (place : Nat) :
    Decidable (FirstAt markers text place) :=
  inferInstanceAs (Decidable (_ ∧ _))

/-- No prefix closes a brace that it has not opened. -/
def Nested (body : List Char) : Prop :=
  ∀ start, start <+: body → start.count '}' ≤ start.count '{'

def Balanced (body : List Char) : Prop :=
  Nested body ∧ body.count '}' = body.count '{'

instance (body : List Char) : Decidable (Nested body) :=
  decidable_of_iff
    (∀ start ∈ body.inits, start.count '}' ≤ start.count '{')
    (by simp only [Nested, List.mem_inits])

instance (body : List Char) : Decidable (Balanced body) :=
  inferInstanceAs (Decidable (_ ∧ _))

/-- A body that its closing marker ends, and nothing before it. -/
def Token.ClosedBody (token : Token) (body closing : List Char) : Prop :=
  match token with
  | .eof | .plain => False
  | .script | .comment =>
      FirstAt token.closings (body ++ closing) body.length
  | .endTag | .message | .action | .absAction => '}' ∉ body
  | .expr => Balanced body
  | .startTag =>
      Balanced body ∧ ¬ ['/', '}'] <:+: body ∧
        body.head? ≠ some '/' ∧ body.getLast? ≠ some '/'

/-- A body in which nothing closes the directive. -/
def Token.OpenBody (token : Token) (body : List Char) : Prop :=
  match token with
  | .eof | .plain => False
  | .script | .comment => ∀ marker ∈ token.closings, ¬ marker <:+: body
  | .endTag | .message | .action | .absAction => '}' ∉ body
  | .expr => Nested body
  | .startTag =>
      Nested body ∧ ¬ ['/', '}'] <:+: body ∧ body.head? ≠ some '/'

instance (token : Token) (body closing : List Char) :
    Decidable (token.ClosedBody body closing) :=
  match token with
  | .eof | .plain => inferInstanceAs (Decidable False)
  | .script | .comment => inferInstanceAs (Decidable (FirstAt _ _ _))
  | .endTag | .message | .action | .absAction =>
      inferInstanceAs (Decidable ('}' ∉ body))
  | .expr => inferInstanceAs (Decidable (Balanced body))
  | .startTag => inferInstanceAs (Decidable (Balanced body ∧ _ ∧ _ ∧ _))

instance (token : Token) (body : List Char) :
    Decidable (token.OpenBody body) :=
  match token with
  | .eof | .plain => inferInstanceAs (Decidable False)
  | .script | .comment =>
      inferInstanceAs (Decidable (∀ marker ∈ _, ¬ marker <:+: body))
  | .endTag | .message | .action | .absAction =>
      inferInstanceAs (Decidable ('}' ∉ body))
  | .expr => inferInstanceAs (Decidable (Nested body))
  | .startTag => inferInstanceAs (Decidable (Nested body ∧ _ ∧ _))

/-- A directive that is closed, or a tag that closes itself. -/
inductive Block where
  | closed (token : Token) (opening body closing : List Char)
  | selfClosed (body : List Char)

def Block.opening : Block → List Char
  | .closed _ opening _ _ => opening
  | .selfClosed _ => ['#', '{']

def Block.WellFormed : Block → Prop
  | .closed token opening body closing =>
      opening ∈ token.openings ∧ closing ∈ token.closings ∧
        token.ClosedBody body closing
  | .selfClosed body =>
      body ≠ [] ∧ body.head? ≠ some '/' ∧ ¬ ['/', '}'] <:+: body ∧
        Nested body

instance (block : Block) : Decidable block.WellFormed :=
  match block with
  | .closed .. => inferInstanceAs (Decidable (_ ∈ _ ∧ _ ∈ _ ∧ _))
  | .selfClosed _ => inferInstanceAs (Decidable (_ ≠ _ ∧ _ ≠ _ ∧ _ ∧ _))

def Block.render : Block → List Char
  | .closed _ opening body closing => opening ++ body ++ closing
  | .selfClosed body => ['#', '{'] ++ body ++ ['/', '}']

/-- The spans of a directive.  A tag that closes itself has two, the second of
them empty. -/
def Block.pieces : Block → List Piece
  | .closed token _ body closing => [⟨token, body, closing⟩]
  | .selfClosed body => [⟨.startTag, body, ['/']⟩, ⟨.endTag, [], ['}']⟩]

/-- Literal text in which no marker starts before the given one. -/
def LiteralBefore (text opening : List Char) : Prop :=
  FirstAt openingMarkers (text ++ opening) text.length

instance (text opening : List Char) :
    Decidable (LiteralBefore text opening) :=
  inferInstanceAs (Decidable (FirstAt _ _ _))

/-- The end of a template: literal text, or a directive that is never
closed. -/
inductive Tail where
  | literal (text : List Char)
  | unterminated (text : List Char) (token : Token)
      (opening body : List Char)

def Tail.WellFormed : Tail → Prop
  | .literal text => ∀ marker ∈ openingMarkers, ¬ marker <:+: text
  | .unterminated text token opening body =>
      LiteralBefore text opening ∧ opening ∈ token.openings ∧
        token.OpenBody body

instance (tail : Tail) : Decidable tail.WellFormed :=
  match tail with
  | .literal _ => inferInstanceAs (Decidable (∀ marker ∈ _, ¬ _ <:+: _))
  | .unterminated .. => inferInstanceAs (Decidable (_ ∧ _ ∈ _ ∧ _))

def Tail.render : Tail → List Char
  | .literal text => text
  | .unterminated text _ opening body => text ++ opening ++ body

def Tail.pieces : Tail → List Piece
  | .literal text => [⟨.plain, text, []⟩, ⟨.eof, [], []⟩]
  | .unterminated text token opening body =>
      [⟨.plain, text, opening⟩, ⟨token, body, []⟩, ⟨.eof, [], []⟩]

/-- A template as it is written: directives, each after some literal text, and
its end. -/
structure Markup where
  segments : List (List Char × Block)
  tail : Tail

structure Markup.WellFormed (markup : Markup) : Prop where
  literal : ∀ segment ∈ markup.segments,
    LiteralBefore segment.1 segment.2.opening
  block : ∀ segment ∈ markup.segments, segment.2.WellFormed
  tail : markup.tail.WellFormed

def Markup.render (markup : Markup) : List Char :=
  markup.segments.flatMap (fun segment => segment.1 ++ segment.2.render) ++
    markup.tail.render

def Markup.pieces (markup : Markup) : List Piece :=
  markup.segments.flatMap (fun segment =>
    ⟨.plain, segment.1, segment.2.opening⟩ :: segment.2.pieces) ++
      markup.tail.pieces

theorem starts_of_append {markers : List (List Char)}
    {text rest : List Char} {place : Nat} (hplace : place ≤ text.length)
    (hshort : ∀ marker ∈ markers, marker.length ≤ text.length - place)
    (hstarts : Starts markers ((text ++ rest).drop place)) :
    Starts markers (text.drop place) := by
  obtain ⟨marker, hmem, hmarker⟩ := hstarts
  rw [List.drop_append_of_le_length hplace] at hmarker
  refine ⟨marker, hmem, ?_⟩
  apply List.prefix_of_prefix_length_le hmarker (List.prefix_append _ _)
  rw [List.length_drop]
  exact hshort marker hmem

/-- Nothing ends a span in the given state anywhere in the body. -/
def ScanState.Passes (state : ScanState) (body rest : List Char) : Prop :=
  ∀ place < body.length,
    ((body.take place).foldl ScanState.pass state).delimiter?
      ((body ++ rest).drop place) = none

/-- A body that is passed is part of the span. -/
theorem ScanState.Passes.cut {state : ScanState} {body rest : List Char}
    (hpasses : state.Passes body rest) :
    state.cut (body ++ rest) =
      { (body.foldl ScanState.pass state).cut rest with
        body := body ++ ((body.foldl ScanState.pass state).cut rest).body } := by
  induction body generalizing state with
  | nil => rfl
  | cons char body ih =>
      have hnow : state.delimiter? (char :: (body ++ rest)) = none := by
        simpa using hpasses 0 (by simp)
      have hlater : (state.pass char).Passes body rest := by
        intro place hplace
        simpa using hpasses (place + 1) (by simpa using hplace)
      rw [List.cons_append, cut_cons_of_none hnow, ih hlater]
      rfl

theorem ScanState.foldl_pass_of_not_nestingAware {state : ScanState}
    (hflat : state.mode.isNestingAware = false) (body : List Char) :
    body.foldl ScanState.pass state = state := by
  induction body with
  | nil => rfl
  | cons char body ih =>
      rw [List.foldl_cons, pass_of_not_nestingAware hflat, ih]

theorem Nested.of_append {body rest : List Char}
    (hnested : Nested (body ++ rest)) : Nested body := by
  intro start hstart
  exact hnested start (hstart.trans (List.prefix_append body rest))

/-- Over a nested body the depth is the number of braces left open. -/
theorem Nested.foldl_pass {token : Token}
    (haware : token.isNestingAware = true) {body : List Char}
    (hnested : Nested body) :
    body.foldl ScanState.pass (.enter token) =
      ⟨token, body.count '{' - body.count '}'⟩ := by
  induction body using List.reverseRecOn with
  | nil => rfl
  | append_singleton body char ih =>
      have hbody := hnested (body ++ [char]) (List.prefix_refl _)
      have hstart := hnested body (List.prefix_append body [char])
      rw [List.foldl_append, List.foldl_cons, List.foldl_nil,
        ih hnested.of_append]
      simp only [ScanState.pass, haware, if_true, List.count_append,
        List.count_singleton] at hbody ⊢
      by_cases hopen : char = '{'
      · subst hopen
        simp only [if_true, ScanState.mk.injEq, true_and]
        simp
        omega
      · by_cases hclose : char = '}'
        · subst hclose
          simp
          omega
        · simp [hopen, hclose]

theorem drop_append_eq_cons {body : List Char} {place : Nat}
    (hplace : place < body.length) (rest : List Char) :
    (body ++ rest).drop place =
      body[place] :: (body.drop (place + 1) ++ rest) := by
  rw [List.drop_append_of_le_length (Nat.le_of_lt hplace),
    List.drop_eq_getElem_cons hplace, List.cons_append]

/-- A nested body closes nothing at its own depth. -/
theorem Nested.passes {token : Token}
    (haware : token.isNestingAware = true) {body rest : List Char}
    (hnested : Nested body)
    (hself : token = .startTag → ∀ place < body.length,
      ¬ ['/', '}'] <+: (body ++ rest).drop place) :
    (ScanState.enter token).Passes body rest := by
  intro place hplace
  have htake : Nested (body.take place) := by
    intro start hstart
    exact hnested start (hstart.trans (List.take_prefix place body))
  have hclose : ¬ ((body.take place).count '{' -
        (body.take place).count '}' = 0 ∧
      ['}'] <+: (body ++ rest).drop place) := by
    rintro ⟨hdepth, hbrace⟩
    rw [drop_append_eq_cons hplace, List.cons_prefix_cons] at hbrace
    have hnext := hnested (body.take (place + 1)) (List.take_prefix _ body)
    rw [List.take_succ_eq_append_getElem hplace, ← hbrace.1,
      List.count_append, List.count_append] at hnext
    simp at hnext
    omega
  rw [htake.foldl_pass haware, ScanState.delimiter?_nesting haware]
  simp only
  rw [if_neg hclose, if_neg]
  rintro ⟨htoken, hslash⟩
  exact hself htoken place hplace hslash

theorem ScanState.passes_flat {token : Token} (hflat : token.isFlat = true)
    {body rest : List Char}
    (hclosing : ∀ place < body.length,
      ¬ Starts token.closings ((body ++ rest).drop place)) :
    (ScanState.enter token).Passes body rest := by
  intro place hplace
  rw [foldl_pass_of_not_nestingAware
      (Token.isNestingAware_of_isFlat hflat), delimiter?_flat hflat,
    Option.map_eq_none_iff, List.find?_eq_none]
  intro closing hmem hstarts
  exact hclosing place hplace ⟨closing, hmem, by simpa using hstarts⟩

theorem openingTable_mem :
    ∀ entry ∈ openingTable, entry.1 ∈ openingMarkers := by decide

theorem ScanState.passes_plain {text rest : List Char}
    (hopening : ∀ place < text.length,
      ¬ Starts openingMarkers ((text ++ rest).drop place)) :
    (ScanState.enter .plain).Passes text rest := by
  intro place hplace
  rw [foldl_pass_of_not_nestingAware rfl, delimiter?_plain rfl,
    Option.map_eq_none_iff, List.find?_eq_none]
  intro entry hmem hstarts
  exact hopening place hplace
    ⟨entry.1, openingTable_mem entry hmem, by simpa using hstarts⟩

theorem not_starts_of_not_infix {markers : List (List Char)}
    {text : List Char} (habsent : ∀ marker ∈ markers, ¬ marker <:+: text)
    (place : Nat) : ¬ Starts markers (text.drop place) := by
  rintro ⟨marker, hmem, hmarker⟩
  exact habsent marker hmem
    (hmarker.isInfix.trans (List.drop_suffix place text).isInfix)

/-- Where a marker starts first, none starts earlier in a longer text. -/
theorem FirstAt.not_starts {markers : List (List Char)}
    {text marker rest : List Char}
    (hfirst : FirstAt markers (text ++ marker) text.length)
    (hshort : ∀ other ∈ markers, other.length ≤ marker.length + 1)
    {place : Nat} (hplace : place < text.length) :
    ¬ Starts markers ((text ++ (marker ++ rest)).drop place) := by
  rw [← List.append_assoc]
  intro hstarts
  refine hfirst.2 place hplace (starts_of_append ?_ ?_ hstarts)
  · rw [List.length_append]
    omega
  · intro other hother
    have := hshort other hother
    rw [List.length_append]
    omega

theorem not_starts_brace {body : List Char} (habsent : '}' ∉ body)
    (rest : List Char) {place : Nat} (hplace : place < body.length) :
    ¬ Starts [['}']] ((body ++ rest).drop place) := by
  rintro ⟨marker, hmem, hmarker⟩
  rw [List.mem_singleton.mp hmem, drop_append_eq_cons hplace,
    List.cons_prefix_cons] at hmarker
  exact habsent (hmarker.1 ▸ List.getElem_mem hplace)

/-- A slash and a brace stand apart in a body, and at its end too. -/
theorem not_slash_brace {body rest : List Char}
    (habsent : ¬ ['/', '}'] <:+: body)
    (hend : body.getLast? = some '/' → ¬ ['}'] <+: rest) {place : Nat}
    (hplace : place < body.length) :
    ¬ ['/', '}'] <+: (body ++ rest).drop place := by
  intro hslash
  by_cases hlast : place + 1 < body.length
  · have hmarkers : ∀ marker ∈ [['/', '}']], ¬ marker <:+: body := by
      simpa using habsent
    apply not_starts_of_not_infix hmarkers place
    refine ⟨['/', '}'], List.mem_singleton_self _, ?_⟩
    rw [List.drop_append_of_le_length (Nat.le_of_lt hplace)] at hslash
    apply List.prefix_of_prefix_length_le hslash (List.prefix_append _ _)
    rw [List.length_drop, List.length_cons, List.length_singleton]
    omega
  · have hdone : body.drop (place + 1) = [] :=
      List.drop_eq_nil_of_le (Nat.le_of_not_lt hlast)
    rw [drop_append_eq_cons hplace, List.cons_prefix_cons, hdone,
      List.nil_append] at hslash
    have hplace' : body.length - 1 = place := by omega
    refine hend ?_ hslash.2
    rw [List.getLast?_eq_getElem?, hplace', List.getElem?_eq_getElem hplace,
      ← hslash.1]

/-- A span that is passed is cut off at the delimiter after it. -/
theorem ScanState.Passes.cut_eq {state : ScanState}
    {body marker rest : List Char} {next : ScanState}
    (hpasses : state.Passes body (marker ++ rest))
    (hfound : (body.foldl ScanState.pass state).delimiter? (marker ++ rest) =
      some ⟨marker, next⟩) :
    state.cut (body ++ (marker ++ rest)) = ⟨body, marker, next, rest⟩ := by
  rw [hpasses.cut, cut_of_delimiter hfound]
  simp

theorem ScanState.pieces_of_cut {token : Token} (htoken : token ≠ .eof)
    {ahead body delimiter rest : List Char} {next : ScanState}
    (hcut : (ScanState.enter token).cut ahead =
      ⟨body, delimiter, next, rest⟩) :
    (ScanState.enter token).pieces ahead =
      ⟨token, body, delimiter⟩ :: next.pieces rest := by
  have hmode : (ScanState.enter token).mode ≠ .eof := htoken
  rw [pieces_eq, if_neg hmode, hcut]
  rfl

/-- A span that is passed to the end of the input is the last one. -/
theorem ScanState.Passes.pieces_eq_last {token : Token}
    (htoken : token ≠ .eof) {body : List Char}
    (hpasses : (ScanState.enter token).Passes body []) :
    (ScanState.enter token).pieces body =
      [⟨token, body, []⟩, ⟨.eof, [], []⟩] := by
  have hcut := hpasses.cut
  rw [List.append_nil] at hcut
  have hlast : (ScanState.enter token).cut body =
      ⟨body, [], .enter .eof, []⟩ := by
    rw [hcut]
    simp [ScanState.cut]
  rw [pieces_of_cut htoken hlast, pieces_eof]

/-- Literal text ends at the marker after it. -/
theorem LiteralBefore.pieces {text opening : List Char} {token : Token}
    (hliteral : LiteralBefore text opening)
    (hopening : opening ∈ token.openings) {rest : List Char}
    (hslash : token = .startTag → rest.head? ≠ some '/') :
    (ScanState.enter .plain).pieces (text ++ (opening ++ rest)) =
      ⟨.plain, text, opening⟩ :: (ScanState.enter token).pieces rest := by
  have hshort : ∀ other ∈ openingMarkers,
      other.length ≤ opening.length + 1 := by
    have htwo : ∀ mode : Token, ∀ marker ∈ mode.openings,
        2 ≤ marker.length := by
      intro mode
      cases mode <;> decide
    have hthree : ∀ other ∈ openingMarkers, other.length ≤ 3 := by decide
    intro other hother
    exact Nat.le_trans (hthree other hother)
      (Nat.succ_le_succ (htwo token opening hopening))
  have hpasses : (ScanState.enter .plain).Passes text (opening ++ rest) :=
    ScanState.passes_plain fun place hplace =>
      FirstAt.not_starts hliteral hshort hplace
  apply ScanState.pieces_of_cut (by decide)
  apply hpasses.cut_eq
  rw [ScanState.foldl_pass_of_not_nestingAware rfl]
  exact ScanState.delimiter?_opening hopening hslash

theorem Token.closings_length (token : Token) :
    ∀ closing ∈ token.closings, 1 ≤ closing.length ∧ closing.length ≤ 2 := by
  cases token <;> decide

/-- A closed body is cut off at its closing marker. -/
theorem Token.ClosedBody.pieces {token : Token} {body closing : List Char}
    (hbody : token.ClosedBody body closing)
    (hclosing : closing ∈ token.closings) (rest : List Char) :
    (ScanState.enter token).pieces (body ++ (closing ++ rest)) =
      ⟨token, body, closing⟩ :: (ScanState.enter .plain).pieces rest := by
  have hshort : ∀ other ∈ token.closings,
      other.length ≤ closing.length + 1 := by
    intro other hother
    have hclosing := token.closings_length closing hclosing
    have hother := token.closings_length other hother
    omega
  have hcut : token ≠ .eof ∧
      (ScanState.enter token).Passes body (closing ++ rest) ∧
      body.foldl ScanState.pass (.enter token) = .enter token := by
    cases token with
    | eof | plain => exact hbody.elim
    | script | comment =>
        refine ⟨by decide, ?_,
          ScanState.foldl_pass_of_not_nestingAware rfl body⟩
        apply ScanState.passes_flat rfl
        intro place hplace
        exact FirstAt.not_starts hbody hshort hplace
    | endTag | message | action | absAction =>
        refine ⟨by decide, ?_,
          ScanState.foldl_pass_of_not_nestingAware rfl body⟩
        apply ScanState.passes_flat rfl
        intro place hplace
        exact not_starts_brace hbody (closing ++ rest) hplace
    | expr =>
        refine ⟨by decide, hbody.1.passes rfl (fun heq => by cases heq), ?_⟩
        rw [hbody.1.foldl_pass rfl, hbody.2, Nat.sub_self]
        rfl
    | startTag =>
        obtain ⟨⟨hnested, hequal⟩, habsent, _, hlast⟩ := hbody
        refine ⟨by decide, hnested.passes rfl ?_, ?_⟩
        · intro _ place hplace
          exact not_slash_brace habsent (fun heq => absurd heq hlast) hplace
        · rw [hnested.foldl_pass rfl, hequal, Nat.sub_self]
          rfl
  obtain ⟨htoken, hpasses, hdepth⟩ := hcut
  apply ScanState.pieces_of_cut htoken
  apply hpasses.cut_eq
  rw [hdepth]
  exact ScanState.delimiter?_closing hclosing rest

/-- A body that nothing closes runs to the end of the input. -/
theorem Token.OpenBody.pieces {token : Token} {body : List Char}
    (hbody : token.OpenBody body) :
    (ScanState.enter token).pieces body =
      [⟨token, body, []⟩, ⟨.eof, [], []⟩] := by
  have hpass : token ≠ .eof ∧ (ScanState.enter token).Passes body [] := by
    cases token with
    | eof | plain => exact hbody.elim
    | script | comment =>
        refine ⟨by decide, ScanState.passes_flat rfl ?_⟩
        intro place _
        rw [List.append_nil]
        exact not_starts_of_not_infix hbody place
    | endTag | message | action | absAction =>
        refine ⟨by decide, ScanState.passes_flat rfl ?_⟩
        intro place hplace
        exact not_starts_brace hbody [] hplace
    | expr =>
        exact ⟨by decide, Nested.passes rfl hbody (fun heq => by cases heq)⟩
    | startTag =>
        refine ⟨by decide, hbody.1.passes rfl ?_⟩
        intro _ place hplace
        exact not_slash_brace hbody.2.1 (fun _ => by simp) hplace
  exact hpass.2.pieces_eq_last hpass.1

/-- A tag that closes itself is cut off at its slash, and an empty end tag
follows. -/
theorem Block.pieces_selfClosed {body : List Char}
    (hwell : (Block.selfClosed body).WellFormed) (rest : List Char) :
    (ScanState.enter .startTag).pieces (body ++ (['/'] ++ ('}' :: rest))) =
      ⟨.startTag, body, ['/']⟩ :: ⟨.endTag, [], ['}']⟩ ::
        (ScanState.enter .plain).pieces rest := by
  obtain ⟨_, _, habsent, hnested⟩ := hwell
  have hpasses : (ScanState.enter .startTag).Passes body
      (['/'] ++ ('}' :: rest)) := by
    apply hnested.passes rfl
    intro _ place hplace
    exact not_slash_brace habsent (fun _ => by simp) hplace
  have hcut : (ScanState.enter .startTag).cut
      (body ++ (['/'] ++ ('}' :: rest))) =
        ⟨body, ['/'], .enter .endTag, '}' :: rest⟩ := by
    apply hpasses.cut_eq
    rw [hnested.foldl_pass rfl, ScanState.delimiter?_nesting rfl]
    simp
  rw [ScanState.pieces_of_cut (by decide) hcut]
  have hclosed : Token.endTag.ClosedBody [] ['}'] := List.not_mem_nil
  congr 1
  exact hclosed.pieces (List.mem_singleton_self _) rest

/-- A directive after its opening marker. -/
theorem Block.pieces_render {block : Block} (hwell : block.WellFormed)
    {text : List Char} (hliteral : LiteralBefore text block.opening)
    (rest : List Char) :
    (ScanState.enter .plain).pieces (text ++ (block.render ++ rest)) =
      ⟨.plain, text, block.opening⟩ ::
        (block.pieces ++ (ScanState.enter .plain).pieces rest) := by
  cases block with
  | closed token opening body closing =>
      obtain ⟨hopening, hclosing, hbody⟩ := hwell
      have hslash : token = .startTag →
          (body ++ (closing ++ rest)).head? ≠ some '/' := by
        rintro rfl
        rw [List.mem_singleton.mp hclosing]
        cases body with
        | nil => simp
        | cons char after => simpa using hbody.2.2.1
      simp only [Block.render, Block.opening, List.append_assoc] at hliteral ⊢
      rw [hliteral.pieces hopening hslash, hbody.pieces hclosing]
      rfl
  | selfClosed body =>
      have hslash : Token.startTag = .startTag →
          (body ++ (['/'] ++ ('}' :: rest))).head? ≠ some '/' := by
        intro _
        cases body with
        | nil => exact absurd rfl hwell.1
        | cons char after => simpa using hwell.2.1
      have hopening : ['#', '{'] ∈ Token.startTag.openings :=
        List.mem_singleton_self _
      have hrender : Block.render (.selfClosed body) ++ rest =
          ['#', '{'] ++ (body ++ (['/'] ++ ('}' :: rest))) := by
        simp [Block.render]
      change LiteralBefore text ['#', '{'] at hliteral
      rw [hrender, hliteral.pieces hopening hslash,
        Block.pieces_selfClosed hwell rest]
      rfl

theorem Tail.pieces_render {tail : Tail} (hwell : tail.WellFormed) :
    (ScanState.enter .plain).pieces tail.render = tail.pieces := by
  cases tail with
  | literal text =>
      have hpasses : (ScanState.enter .plain).Passes text [] := by
        apply ScanState.passes_plain
        intro place _
        rw [List.append_nil]
        exact not_starts_of_not_infix hwell place
      exact hpasses.pieces_eq_last (by decide)
  | unterminated text token opening body =>
      obtain ⟨hliteral, hopening, hbody⟩ := hwell
      have hslash : token = .startTag → body.head? ≠ some '/' := by
        rintro rfl
        exact hbody.2.2
      rw [Tail.render, List.append_assoc, hliteral.pieces hopening hslash,
        hbody.pieces]
      rfl

/-- Lexing undoes rendering: the spans are the texts and the bodies as they
were written, each of the kind and at the place that it was written with. -/
theorem Markup.drain_render {markup : Markup} (hwell : markup.WellFormed) :
    (Lexer.ofSource (String.ofList markup.render)).drain =
      layOut [] markup.pieces := by
  obtain ⟨segments, tail⟩ := markup
  rw [Lexer.drain_ofSource, Stencil.pieces, String.toList_ofList]
  congr 1
  induction segments with
  | nil => exact Tail.pieces_render hwell.tail
  | cons segment segments ih =>
      have hliteral := hwell.literal segment List.mem_cons_self
      have hblock := hwell.block segment List.mem_cons_self
      have hrest := ih
        { literal := fun later hlater =>
            hwell.literal later (List.mem_cons_of_mem segment hlater)
          block := fun later hlater =>
            hwell.block later (List.mem_cons_of_mem segment hlater)
          tail := hwell.tail }
      simp only [Markup.render, Markup.pieces, List.flatMap_cons,
        List.append_assoc, List.cons_append] at hrest ⊢
      rw [← hrest]
      exact Block.pieces_render hblock hliteral _

namespace RenderingWitness

/-- Markers overlap at every seam: literal text ends like a marker, a body
ends like its closing marker, and a slash stands before another one. -/
def markup : Markup where
  segments :=
    [(['a', '{', 'é'], .closed .script ['%', '{'] ['%', '%'] ['%', '}']),
      (['@'], .closed .expr ['$', '{'] ['{', '}', '/'] ['}']),
      ([], .selfClosed ['t', '{', '/'])]
  tail := .unterminated ['\n', '}'] .startTag ['#', '{'] ['x', '/']

theorem markup_wellFormed : markup.WellFormed where
  literal := by decide
  block := by decide
  tail := by decide

theorem drain_markup :
    markup.WellFormed ∧
      (Lexer.ofSource (String.ofList markup.render)).drain.map
          (fun lexeme => (lexeme.token, lexeme.text)) =
        [(.plain, "a\x7bé"), (.script, "%%"), (.plain, "@"),
          (.expr, "\x7b\x7d/"), (.plain, ""), (.startTag, "t\x7b/"),
          (.endTag, ""), (.plain, "\n\x7d"), (.startTag, "x/"),
          (.eof, "")] := by
  refine ⟨markup_wellFormed, ?_⟩
  rw [Markup.drain_render markup_wellFormed]
  decide

end RenderingWitness

end Stencil
