/-
The scan over characters.  At each character either a delimiter of the state
ends the span, or the character is passed.  Over the bytes of a text the scan
finds the same boundary.
-/
import Stencil.Proofs.Characters

namespace Stencil

/-- The characters of an opening marker. -/
def Opener.text (opener : Opener) : List Char := spell opener.bytes

theorem openers_ascii :
    ∀ opener ∈ openers, ∀ byte ∈ opener.bytes, byte.toNat < 128 := by
  decide +kernel

theorem Token.closers_ascii (mode : Token) :
    ∀ closer ∈ mode.closers, ∀ byte ∈ closer, byte.toNat < 128 := by
  cases mode <;> decide +kernel

/-- A delimiter, and the state in which it leaves the scan. -/
structure Delimiter where
  text : List Char
  next : ScanState

/-- The delimiter that ends a span in the given state right here. -/
def ScanState.delimiter? (state : ScanState) (ahead : List Char) :
    Option Delimiter :=
  match state.mode with
  | .plain =>
      (openers.find? (fun opener => decide (opener.text <+: ahead))).map
        fun opener => ⟨opener.text, .enter opener.mode⟩
  | .expr | .startTag =>
      if state.depth = 0 ∧ ['}'] <+: ahead then some ⟨['}'], .enter .plain⟩
      else if state.mode = .startTag ∧ ['/', '}'] <+: ahead then
        some ⟨['/'], .enter .endTag⟩
      else none
  | mode =>
      (mode.closers.find? (fun closer => decide (spell closer <+: ahead))).map
        fun closer => ⟨spell closer, .enter .plain⟩

/-- The state after a character of the span: braces are counted where bodies
nest. -/
def ScanState.pass (state : ScanState) (char : Char) : ScanState :=
  if state.mode.isNestingAware then
    if char = '{' then { state with depth := state.depth + 1 }
    else if char = '}' then { state with depth := state.depth - 1 }
    else state
  else state

@[simp] theorem ScanState.mode_pass (state : ScanState) (char : Char) :
    (state.pass char).mode = state.mode := by
  unfold pass
  split
  · split
    · rfl
    · split <;> rfl
  · rfl

theorem ScanState.mode_foldl_pass (state : ScanState) (body : List Char) :
    (body.foldl ScanState.pass state).mode = state.mode := by
  induction body generalizing state with
  | nil => rfl
  | cons char body ih => rw [List.foldl_cons, ih, mode_pass]

theorem ScanState.pass_of_not_nestingAware {state : ScanState}
    (hflat : state.mode.isNestingAware = false) (char : Char) :
    state.pass char = state := by
  simp [pass, hflat]

/-- Two ASCII characters with the same byte are the same. -/
theorem ofNat_toNat_eq_iff {char : Char} (hascii : char.toNat < 128)
    (other : Char) (hother : other.toNat < 128) :
    UInt8.ofNat char.toNat = UInt8.ofNat other.toNat ↔ char = other := by
  constructor
  · intro heq
    have hvalue := congrArg UInt8.toNat heq
    rw [UInt8.toNat_ofNat', UInt8.toNat_ofNat', Nat.mod_eq_of_lt (by omega),
      Nat.mod_eq_of_lt (by omega)] at hvalue
    rw [← Char.ofNat_toNat char, hvalue, Char.ofNat_toNat]
  · rintro rfl
    rfl

theorem opener?_encode (ahead : List Char) :
    opener? (encode ahead) =
      openers.find? (fun opener => decide (opener.text <+: ahead)) := by
  apply find?_of_agree
  intro opener hmem
  rw [Bool.eq_iff_iff, decide_eq_true_iff]
  exact isPrefixOf_encode_iff (openers_ascii opener hmem) ahead

theorem Token.closer?_encode (mode : Token) (ahead : List Char) :
    mode.closer? (encode ahead) =
      mode.closers.find? (fun closer => decide (spell closer <+: ahead)) := by
  apply find?_of_agree
  intro closer hmem
  rw [Bool.eq_iff_iff, decide_eq_true_iff]
  exact isPrefixOf_encode_iff (mode.closers_ascii closer hmem) ahead

/-- What a step over an ASCII character finds. -/
def ScanState.found (state : ScanState) (char : Char) (after : List Char) :
    Step :=
  match state.delimiter? (char :: after) with
  | some delimiter => .switch delimiter.next delimiter.text.length
  | none => .advance (state.pass char)

/-- In a nesting body the braces and the slash are seen as characters. -/
theorem ScanState.nestingStep_of_ascii (state : ScanState)
    (hnests : state.mode = .expr ∨ state.mode = .startTag) {char : Char}
    (hascii : char.toNat < 128) (after : List Char) :
    state.nestingStep (UInt8.ofNat char.toNat) (encode after) =
      state.found char after := by
  have hclose : UInt8.ofNat char.toNat = Byte.closeBrace ↔ char = '}' :=
    ofNat_toNat_eq_iff hascii '}' (by decide)
  have hopen : UInt8.ofNat char.toNat = Byte.openBrace ↔ char = '{' :=
    ofNat_toNat_eq_iff hascii '{' (by decide)
  have hslash : UInt8.ofNat char.toNat = Byte.slash ↔ char = '/' :=
    ofNat_toNat_eq_iff hascii '/' (by decide)
  have hhead : (encode after).head? = some Byte.closeBrace ↔
      ['}'] <+: after := by
    have hspell : spell [Byte.closeBrace] = ['}'] := by decide
    rw [← hspell, ← isPrefixOf_encode_iff (by decide +kernel) after]
    cases encode after with
    | nil => simp
    | cons byte rest =>
        rw [List.head?_cons, Option.some.injEq, List.isPrefixOf_cons_cons,
          Bool.and_eq_true, beq_iff_eq]
        simp only [List.isPrefixOf_nil_left, and_true]
        exact eq_comm
  have haware : state.mode.isNestingAware = true := by
    rcases hnests with hmode | hmode <;> rw [hmode] <;> rfl
  have hdelimiter : state.delimiter? (char :: after) =
      if state.depth = 0 ∧ ['}'] <+: char :: after then
        some ⟨['}'], .enter .plain⟩
      else if state.mode = .startTag ∧ ['/', '}'] <+: char :: after then
        some ⟨['/'], .enter .endTag⟩
      else none := by
    unfold delimiter?
    rcases hnests with hmode | hmode <;> rw [hmode]
  have hbrace : ['}'] <+: char :: after ↔ char = '}' := by
    simp [List.cons_prefix_cons, eq_comm]
  have hself : ['/', '}'] <+: char :: after ↔
      char = '/' ∧ ['}'] <+: after := by
    rw [List.cons_prefix_cons]
    exact and_congr_left' eq_comm
  simp only [nestingStep, found, hdelimiter, hclose, hslash, hhead, hbrace,
    hself, nest, hopen, pass, haware, if_true, and_comm]
  split
  · rfl
  · split <;> rfl

/-- A step at an ASCII character sees what the characters show. -/
theorem ScanState.step_of_ascii (state : ScanState) {char : Char}
    (hascii : char.toNat < 128) (after : List Char) :
    state.step (UInt8.ofNat char.toNat) (encode after) =
      state.found char after := by
  have hflat : state.mode.isNestingAware = false →
      state.pass char = state := fun hmode =>
    pass_of_not_nestingAware hmode char
  have hencode := encode_cons_of_ascii hascii after
  unfold step
  split
  · rename_i hmode
    rw [← hencode, opener?_encode]
    simp only [found, delimiter?, hmode]
    rw [hflat (by rw [hmode]; rfl)]
    cases openers.find?
        (fun opener => decide (opener.text <+: char :: after)) with
    | none => rfl
    | some opener => simp [Opener.text, spell]
  · rename_i hmode
    exact nestingStep_of_ascii state (Or.inl hmode) hascii after
  · rename_i hmode
    exact nestingStep_of_ascii state (Or.inr hmode) hascii after
  · rename_i mode hplain hexpr hstart
    have haware : state.mode.isNestingAware = false := by
      unfold Token.isNestingAware
      split
      · rename_i hmode
        exact absurd hmode hexpr
      · rename_i hmode
        exact absurd hmode hstart
      · rfl
    rw [← hencode, Token.closer?_encode]
    simp only [found, delimiter?]
    rw [hflat haware]
    cases state.mode.closers.find?
        (fun closer => decide (spell closer <+: char :: after)) with
    | none => rfl
    | some closer => simp [spell]

/-- A byte that is not ASCII begins no delimiter, and no brace is one. -/
theorem ScanState.step_of_wide (state : ScanState) {byte : UInt8}
    (hwide : 128 ≤ byte.toNat) (after : List UInt8) :
    state.step byte after = .advance state := by
  have hbegins : ∀ bytes : List UInt8, bytes ≠ [] →
      (∀ narrow ∈ bytes, narrow.toNat < 128) →
      bytes.isPrefixOf (byte :: after) = false := by
    intro bytes hne hascii
    cases bytes with
    | nil => exact absurd rfl hne
    | cons first rest =>
        have hfirst := hascii first List.mem_cons_self
        have hbytes : first ≠ byte := by
          rintro rfl
          omega
        simp [List.isPrefixOf_cons_cons, hbytes]
  have hopener : opener? (byte :: after) = none := by
    rw [opener?, List.find?_eq_none]
    intro opener hmem
    have hne := List.ne_nil_of_length_pos (openers_length_pos opener hmem)
    simp [hbegins opener.bytes hne (openers_ascii opener hmem)]
  have hcloser : state.mode.closer? (byte :: after) = none := by
    rw [Token.closer?, List.find?_eq_none]
    intro closer hmem
    have hne := List.ne_nil_of_length_pos
      (Token.closers_length_pos state.mode closer hmem)
    simp [hbegins closer hne (state.mode.closers_ascii closer hmem)]
  have hne : ∀ narrow : UInt8, narrow.toNat < 128 → byte ≠ narrow := by
    rintro narrow hnarrow rfl
    omega
  have hnesting : state.nestingStep byte after = .advance state := by
    simp [nestingStep, nest, hne Byte.closeBrace (by decide),
      hne Byte.openBrace (by decide), hne Byte.slash (by decide)]
  unfold step
  split
  · rw [hopener]
  · exact hnesting
  · exact hnesting
  · rw [hcloser]

/-- Bytes that are not ASCII are passed over with nothing found. -/
theorem ScanState.scan_of_wide (state : ScanState) (cursor : Nat)
    {bytes : List UInt8} (hwide : ∀ byte ∈ bytes, 128 ≤ byte.toNat)
    (after : List UInt8) :
    state.scan cursor (bytes ++ after) =
      state.scan (cursor + bytes.length) after := by
  induction bytes generalizing cursor with
  | nil => rfl
  | cons byte rest ih =>
      have hstep := state.step_of_wide (hwide byte List.mem_cons_self)
        (rest ++ after)
      have hrest := ih (cursor + 1) (fun later hlater =>
        hwide later (List.mem_cons_of_mem byte hlater))
      rw [List.cons_append, scan, hstep]
      simp only [hrest, List.length_cons]
      congr 1
      omega

/-- A delimiter is a non-empty ASCII text, leads to no end of input, and is
what the input begins with. -/
structure Delimiter.Valid (delimiter : Delimiter) (ahead : List Char) :
    Prop where
  isPrefix : delimiter.text <+: ahead
  ne_nil : delimiter.text ≠ []
  ascii : ∀ char ∈ delimiter.text, char.toNat < 128
  mode : delimiter.next.mode ≠ .eof
  depth : delimiter.next.depth = 0

theorem spell_ascii {bytes : List UInt8}
    (hascii : ∀ byte ∈ bytes, byte.toNat < 128) :
    ∀ char ∈ spell bytes, char.toNat < 128 := by
  intro char hchar
  obtain ⟨byte, hbyte, rfl⟩ := List.mem_map.mp hchar
  rw [toNat_ofNat_of_ascii (hascii byte hbyte)]
  exact hascii byte hbyte

theorem ScanState.delimiter?_valid {state : ScanState} {ahead : List Char}
    {delimiter : Delimiter}
    (hfound : state.delimiter? ahead = some delimiter) :
    delimiter.Valid ahead := by
  unfold delimiter? at hfound
  split at hfound
  · obtain ⟨opener, hopener, rfl⟩ := Option.map_eq_some_iff.mp hfound
    have hmem := List.mem_of_find?_eq_some hopener
    have hpos := openers_length_pos opener hmem
    refine ⟨by simpa using List.find?_some hopener, ?_,
      spell_ascii (openers_ascii opener hmem),
      openers_mode_ne_eof opener hmem, rfl⟩
    simpa [Opener.text, spell] using List.ne_nil_of_length_pos hpos
  iterate 2
    split at hfound
    · rename_i hclose
      cases hfound
      exact ⟨hclose.2, by simp, by simp, by simp [enter], rfl⟩
    · split at hfound
      · rename_i hself
        cases hfound
        refine ⟨?_, by simp, by simp, by simp [enter], rfl⟩
        exact (List.prefix_append ['/'] ['}']).trans hself.2
      · cases hfound
  · obtain ⟨closer, hcloser, rfl⟩ := Option.map_eq_some_iff.mp hfound
    have hmem := List.mem_of_find?_eq_some hcloser
    have hpos := Token.closers_length_pos state.mode closer hmem
    refine ⟨by simpa using List.find?_some hcloser, ?_,
      spell_ascii (state.mode.closers_ascii closer hmem),
      by simp [enter], rfl⟩
    simpa [spell] using List.ne_nil_of_length_pos hpos

/-- A span cut off at its end: its text, the delimiter after it, and where
the scan goes on. -/
structure Cut where
  body : List Char
  delimiter : List Char
  next : ScanState
  rest : List Char

/-- Cut the span in progress off. -/
def ScanState.cut (state : ScanState) : List Char → Cut
  | [] => ⟨[], [], .enter .eof, []⟩
  | char :: after =>
      match state.delimiter? (char :: after) with
      | some delimiter =>
          ⟨[], delimiter.text, delimiter.next,
            (char :: after).drop delimiter.text.length⟩
      | none =>
          let cut := (state.pass char).cut after
          { cut with body := char :: cut.body }

theorem ScanState.cut_of_delimiter {state : ScanState} {ahead : List Char}
    {delimiter : Delimiter}
    (hfound : state.delimiter? ahead = some delimiter) :
    state.cut ahead =
      ⟨[], delimiter.text, delimiter.next,
        ahead.drop delimiter.text.length⟩ := by
  cases ahead with
  | nil =>
      have hvalid := delimiter?_valid hfound
      exact absurd (List.prefix_nil.mp hvalid.isPrefix) hvalid.ne_nil
  | cons char after => simp only [cut, hfound]

theorem ScanState.cut_cons_of_none {state : ScanState} {char : Char}
    {after : List Char} (hnone : state.delimiter? (char :: after) = none) :
    state.cut (char :: after) =
      { (state.pass char).cut after with
        body := char :: ((state.pass char).cut after).body } := by
  simp only [cut, hnone]

/-- A cut takes nothing away. -/
theorem ScanState.cut_split (state : ScanState) (ahead : List Char) :
    ahead = (state.cut ahead).body ++ (state.cut ahead).delimiter ++
      (state.cut ahead).rest := by
  induction ahead generalizing state with
  | nil => rfl
  | cons char after ih =>
      cases hfound : state.delimiter? (char :: after) with
      | some delimiter =>
          rw [cut_of_delimiter hfound]
          obtain ⟨rest, hrest⟩ := (delimiter?_valid hfound).isPrefix
          simp only [List.nil_append]
          rw [← hrest, List.drop_left]
      | none =>
          rw [cut_cons_of_none hfound]
          simpa using ih (state.pass char)

/-- A cut ends with the input, or at what the state after its body finds. -/
theorem ScanState.cut_end (state : ScanState) (ahead : List Char) :
    ((state.cut ahead).next = .enter .eof ∧
        (state.cut ahead).delimiter = [] ∧ (state.cut ahead).rest = []) ∨
      ∃ delimiter : Delimiter,
        ((state.cut ahead).body.foldl ScanState.pass state).delimiter?
          ((state.cut ahead).delimiter ++ (state.cut ahead).rest) =
            some delimiter ∧
        (state.cut ahead).delimiter = delimiter.text ∧
        (state.cut ahead).next = delimiter.next := by
  induction ahead generalizing state with
  | nil => exact Or.inl ⟨rfl, rfl, rfl⟩
  | cons char after ih =>
      cases hfound : state.delimiter? (char :: after) with
      | some delimiter =>
          obtain ⟨rest, hrest⟩ := (delimiter?_valid hfound).isPrefix
          rw [cut_of_delimiter hfound]
          refine Or.inr ⟨delimiter, ?_, rfl, rfl⟩
          simp only [List.foldl_nil]
          rw [← hrest, List.drop_left, hrest, hfound]
      | none =>
          rw [cut_cons_of_none hfound]
          exact ih (state.pass char)

/-- A cut ends at the end of the input, or at a delimiter. -/
theorem ScanState.cut_boundary (state : ScanState) (ahead : List Char) :
    ((state.cut ahead).next = .enter .eof ∧
        (state.cut ahead).delimiter = [] ∧ (state.cut ahead).rest = []) ∨
      ∃ passed, ∃ delimiter : Delimiter,
        ScanState.delimiter? passed ((state.cut ahead).delimiter ++
          (state.cut ahead).rest) = some delimiter ∧
        passed.mode = state.mode ∧
        (state.cut ahead).delimiter = delimiter.text ∧
        (state.cut ahead).next = delimiter.next := by
  rcases state.cut_end ahead with hend | hdelimiter
  · exact Or.inl hend
  · obtain ⟨delimiter, hfound, htext, hnext⟩ := hdelimiter
    exact Or.inr ⟨_, delimiter, hfound, state.mode_foldl_pass _, htext,
      hnext⟩

theorem ScanState.cut_delimiter_ascii (state : ScanState)
    (ahead : List Char) :
    ∀ char ∈ (state.cut ahead).delimiter, char.toNat < 128 := by
  rcases state.cut_boundary ahead with hend | hdelimiter
  · simp [hend.2.1]
  · obtain ⟨passed, delimiter, hfound, _, htext, _⟩ := hdelimiter
    rw [htext]
    exact (delimiter?_valid hfound).ascii

/-- Only the end of the input is a boundary without a delimiter. -/
theorem ScanState.cut_rest_of_nil {state : ScanState} {ahead : List Char}
    (hnil : (state.cut ahead).delimiter = []) :
    (state.cut ahead).rest = [] := by
  rcases state.cut_boundary ahead with hend | hdelimiter
  · exact hend.2.2
  · obtain ⟨passed, delimiter, hfound, _, htext, _⟩ := hdelimiter
    exact absurd (htext.symm.trans hnil) (delimiter?_valid hfound).ne_nil

/-- The scan over the bytes of a text ends where the cut over its characters
does. -/
theorem ScanState.scan_encode (state : ScanState) (cursor : Nat)
    (ahead : List Char) :
    state.scan cursor (encode ahead) =
      { mode := state.mode
        stop := cursor + byteWidth (state.cut ahead).body
        next := (state.cut ahead).next
        skip := (state.cut ahead).delimiter.length
        ahead := encode ((state.cut ahead).delimiter ++
          (state.cut ahead).rest) } := by
  induction ahead generalizing state cursor with
  | nil => rfl
  | cons char after ih =>
      by_cases hascii : char.toNat < 128
      · have hstep := state.step_of_ascii hascii after
        have hsize := utf8Size_of_ascii hascii
        have hencode := encode_cons_of_ascii hascii after
        have hfound : state.found char after =
            match state.delimiter? (char :: after) with
            | some delimiter =>
                .switch delimiter.next delimiter.text.length
            | none => .advance (state.pass char) := rfl
        rw [hencode, scan, hstep, hfound]
        cases hdelimiter : state.delimiter? (char :: after) with
        | some delimiter =>
            rw [cut_of_delimiter hdelimiter]
            obtain ⟨rest, hrest⟩ := (delimiter?_valid hdelimiter).isPrefix
            simp only [← hencode, byteWidth]
            rw [← hrest, List.drop_left]
            simp
        | none =>
            rw [cut_cons_of_none hdelimiter]
            simp only [ih, mode_pass, byteWidth, hsize]
            congr 1
            omega
      · have hwide := le_of_mem_utf8EncodeChar (Nat.le_of_not_lt hascii)
        have hnone : state.delimiter? (char :: after) = none := by
          cases hdelimiter : state.delimiter? (char :: after) with
          | none => rfl
          | some delimiter =>
              have hvalid := delimiter?_valid hdelimiter
              obtain ⟨rest, hrest⟩ := hvalid.isPrefix
              obtain ⟨first, tail, htext⟩ :=
                List.exists_cons_of_ne_nil hvalid.ne_nil
              have hfirst := hvalid.ascii first (by simp [htext])
              rw [htext, List.cons_append, List.cons.injEq] at hrest
              rw [hrest.1] at hfirst
              exact absurd hfirst hascii
        have hpass : state.pass char = state := by
          have hopen : char ≠ '{' := by
            rintro rfl
            exact hascii (by decide)
          have hclose : char ≠ '}' := by
            rintro rfl
            exact hascii (by decide)
          simp [pass, hopen, hclose]
        rw [encode_cons, scan_of_wide _ _ hwide, ih, cut_cons_of_none hnone,
          hpass]
        simp only [byteWidth, String.length_utf8EncodeChar]
        congr 1
        omega

end Stencil
