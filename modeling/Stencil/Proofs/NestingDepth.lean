/-
The depth of a scan.  Turn by turn it is the number of braces that the span in
progress has opened and not closed, and nothing where bodies do not nest; so it
is never counted below nothing, every span starts with none, and a counter of 32
bits is enough for every source that 32 bits can address.
-/
import Stencil.Proofs.LexerCalls
import Stencil.Proofs.Markers

namespace Stencil

/-- A point of a scan: where the span in progress starts and how far it goes,
with the state there and the bytes that follow. -/
structure ScanPoint where
  start : Nat
  stop : Nat
  state : ScanState
  ahead : List UInt8
  deriving DecidableEq, Repr

/-- One turn of a scan: the span goes on by a byte, or another one starts after
a delimiter or at the end of input. -/
def ScanPoint.turn (point : ScanPoint) : ScanPoint :=
  match point.ahead with
  | [] => ⟨point.stop, point.stop, .enter .eof, []⟩
  | byte :: after =>
      match point.state.step byte after with
      | .advance state => ⟨point.start, point.stop + 1, state, after⟩
      | .switch next skip =>
          ⟨point.stop + skip, point.stop + skip, next,
            (byte :: after).drop skip⟩

/-- Where a lexer stands: at the start of a span. -/
def Lexer.point (lexer : Lexer) : ScanPoint :=
  ⟨lexer.cursor, lexer.cursor, lexer.state, lexer.ahead⟩

/-- The point after some turns from the start of a source. -/
def scanPoint (source : String) : Nat → ScanPoint
  | 0 => (Lexer.ofSource source).point
  | turns + 1 => (scanPoint source turns).turn

/-- The bytes of the span in progress up to the point. -/
def ScanPoint.scanned (source : String) (point : ScanPoint) : List UInt8 :=
  ((utf8 source).drop point.start).take (point.stop - point.start)

section

variable {state next : ScanState} {byte : UInt8} {after : List UInt8}
  {skip : Nat}

/-- A byte of a span is counted where bodies nest, and a closing brace then
closes one that is open. -/
theorem ScanState.step_advance
    (hstep : state.step byte after = .advance next) :
    if state.mode.isNestingAware then
      next = state.nest byte ∧ (byte = Byte.closeBrace → state.depth ≠ 0)
    else next = state := by
  have hnesting : state.nestingStep byte after = .advance next →
      next = state.nest byte ∧ (byte = Byte.closeBrace → state.depth ≠ 0) := by
    intro hnest
    unfold nestingStep at hnest
    split at hnest
    · cases hnest
    · rename_i hopen
      split at hnest
      · cases hnest
      · cases hnest
        exact ⟨rfl, fun hclose hzero => hopen ⟨hclose, hzero⟩⟩
  unfold step at hstep
  split at hstep
  · rename_i hmode
    split at hstep
    · cases hstep
    · cases hstep
      simp [hmode, Token.isNestingAware]
  · rename_i hmode
    simpa [hmode, Token.isNestingAware] using hnesting hstep
  · rename_i hmode
    simpa [hmode, Token.isNestingAware] using hnesting hstep
  · rename_i hplain hexpr hstart
    split at hstep
    · cases hstep
    · cases hstep
      split
      · rename_i haware
        rcases Token.eq_of_isNestingAware haware with hmode | hmode
        · exact absurd hmode hexpr
        · exact absurd hmode hstart
      · rfl

/-- A delimiter stands ahead, and what follows it is a span with no brace
open. -/
theorem ScanState.step_switch_enter
    (hstep : state.step byte after = .switch next skip) :
    next.depth = 0 ∧ skip ≤ (byte :: after).length := by
  have hnesting : state.nestingStep byte after = .switch next skip →
      next.depth = 0 ∧ skip ≤ (byte :: after).length := by
    intro hnest
    unfold nestingStep at hnest
    split at hnest
    · cases hnest
      exact ⟨rfl, Nat.succ_pos _⟩
    · split at hnest
      · cases hnest
        exact ⟨rfl, Nat.succ_pos _⟩
      · cases hnest
  unfold step at hstep
  split at hstep
  · split at hstep
    · rename_i opener hfound
      cases hstep
      have hprefix := List.find?_some hfound
      exact ⟨rfl, (List.isPrefixOf_iff_prefix.mp hprefix).length_le⟩
    · cases hstep
  · exact hnesting hstep
  · exact hnesting hstep
  · split at hstep
    · rename_i closer hfound
      cases hstep
      have hprefix := List.find?_some hfound
      exact ⟨rfl, (List.isPrefixOf_iff_prefix.mp hprefix).length_le⟩
    · cases hstep

end

/-- Where a point stands in some bytes: after those before its span and those
of the span, in which every brace has been counted. -/
structure ScanPoint.Stands (point : ScanPoint)
    (bytes before body : List UInt8) : Prop where
  bytes : bytes = before ++ body ++ point.ahead
  start : point.start = before.length
  stop : point.stop = before.length + body.length
  flat : point.state.mode.isNestingAware = false → point.state.depth = 0
  nested : point.state.mode.isNestingAware = true →
    point.state.depth + body.count Byte.closeBrace =
      body.count Byte.openBrace
  /-- Only a delimiter leads to a body with nested braces. -/
  opened : point.state.mode.isNestingAware = true → before ≠ []

/-- Counting a byte of a span keeps the count exact, unless it is a closing
brace and none is open. -/
theorem ScanState.depth_nest {state : ScanState} {byte : UInt8}
    (hopen : byte = Byte.closeBrace → state.depth ≠ 0) :
    (state.nest byte).depth + [byte].count Byte.closeBrace =
      state.depth + [byte].count Byte.openBrace := by
  unfold nest
  split
  · rename_i hbyte
    rw [hbyte]
    rfl
  · rename_i hbyte
    split
    · rename_i hclose
      have hdepth := hopen hclose
      rw [hclose]
      simp [Byte.openBrace, Byte.closeBrace]
      omega
    · rename_i hclose
      simp [hbyte, hclose]

/-- A span that starts here, after some bytes, with no brace open. -/
theorem ScanPoint.Stands.entered {point : ScanPoint} {bytes before : List UInt8}
    (hbytes : bytes = before ++ point.ahead)
    (hstart : point.start = before.length) (hstop : point.stop = point.start)
    (hdepth : point.state.depth = 0)
    (hopened : point.state.mode.isNestingAware = true → before ≠ []) :
    point.Stands bytes before [] where
  bytes := by rw [hbytes, List.append_nil]
  start := hstart
  stop := by rw [hstop, hstart, List.length_nil, Nat.add_zero]
  flat _ := hdepth
  nested _ := by rw [hdepth]; rfl
  opened := hopened

section

variable {point : ScanPoint} {bytes before body : List UInt8}

/-- A byte that the span goes on by is the last one of its body. -/
theorem ScanPoint.Stands.advance (hstands : point.Stands bytes before body)
    {byte : UInt8} {after : List UInt8} {next : ScanState}
    (hahead : point.ahead = byte :: after)
    (hstep : point.state.step byte after = .advance next) :
    ScanPoint.Stands ⟨point.start, point.stop + 1, next, after⟩ bytes before
      (body ++ [byte]) := by
  obtain ⟨hbytes, hstart, hstop, hflat, hnested, hopened⟩ := hstands
  have hmode := ScanState.step_advance_mode hstep
  have hadvance := ScanState.step_advance hstep
  refine ⟨?_, hstart, ?_, ?_, ?_, ?_⟩
  · simp [hbytes, hahead]
  · simp only [hstop, List.length_append, List.length_singleton]
    omega
  · intro hplain
    rw [hmode] at hplain
    rw [hplain, if_neg Bool.false_ne_true] at hadvance
    rw [hadvance]
    exact hflat hplain
  · intro haware
    rw [hmode] at haware
    rw [haware, if_pos rfl] at hadvance
    have hcount := hnested haware
    have hbyte := ScanState.depth_nest hadvance.2
    rw [← hadvance.1] at hbyte
    simp only [List.count_append]
    omega
  · intro haware
    rw [hmode] at haware
    exact hopened haware

/-- The span after a delimiter starts with an empty body. -/
theorem ScanPoint.Stands.switch (hstands : point.Stands bytes before body)
    {byte : UInt8} {after : List UInt8} {next : ScanState} {skip : Nat}
    (hahead : point.ahead = byte :: after)
    (hstep : point.state.step byte after = .switch next skip) :
    ScanPoint.Stands ⟨point.stop + skip, point.stop + skip, next,
      (byte :: after).drop skip⟩ bytes
      (before ++ body ++ (byte :: after).take skip) [] := by
  obtain ⟨hdepth, hskip⟩ := ScanState.step_switch_enter hstep
  have hpos := (ScanState.step_switch hstep).1
  have hdelimiter : ((byte :: after).take skip).length = skip :=
    List.length_take_of_le hskip
  refine .entered ?_ ?_ rfl hdepth fun _ => ?_
  · rw [hstands.bytes, hahead, List.append_assoc (before ++ body),
      List.take_append_drop]
  · rw [List.length_append, List.length_append, hdelimiter, hstands.stop]
  · rw [← List.length_pos_iff, List.length_append, hdelimiter]
    omega

/-- One turn leads from where a point stands to where the next one does. -/
theorem ScanPoint.Stands.turn (hstands : point.Stands bytes before body) :
    ∃ before body, point.turn.Stands bytes before body := by
  unfold ScanPoint.turn
  split
  · rename_i hahead
    refine ⟨before ++ body, [], .entered ?_ ?_ rfl rfl fun haware => ?_⟩
    · rw [hstands.bytes, hahead]
    · rw [List.length_append]
      exact hstands.stop
    · cases haware
  · rename_i byte after hahead
    split
    · rename_i next hstep
      exact ⟨_, _, hstands.advance hahead hstep⟩
    · rename_i next skip hstep
      exact ⟨_, _, hstands.switch hahead hstep⟩

/-- No more braces are open than the span has bytes. -/
theorem ScanPoint.Stands.depth_le (hstands : point.Stands bytes before body) :
    point.state.depth ≤ body.length := by
  cases haware : point.state.mode.isNestingAware with
  | false =>
      rw [hstands.flat haware]
      exact Nat.zero_le _
  | true =>
      have hcount := hstands.nested haware
      have hbraces := List.count_le_length (l := body) (a := Byte.openBrace)
      omega

end

theorem ScanPoint.stands_scanPoint (source : String) (turns : Nat) :
    ∃ before body, (scanPoint source turns).Stands (utf8 source) before
      body := by
  induction turns with
  | zero =>
      exact ⟨[], [], .entered rfl rfl rfl rfl fun haware => nomatch haware⟩
  | succ turns ih =>
      obtain ⟨before, body, hstands⟩ := ih
      exact hstands.turn

/-- How the depth is at a point of the scan of a source. -/
structure ScanPoint.Exact (source : String) (point : ScanPoint) : Prop where
  order : point.start ≤ point.stop
  ahead : point.ahead = (utf8 source).drop point.stop
  flat : point.state.mode.isNestingAware = false → point.state.depth = 0
  nested : point.state.mode.isNestingAware = true →
    (point.state.depth : Int) =
      (point.scanned source).count Byte.openBrace -
        (point.scanned source).count Byte.closeBrace
  /-- Where a closing brace is counted, one is open. -/
  open_of_close : ∀ byte after next, point.ahead = byte :: after →
    point.state.step byte after = .advance next →
    point.state.mode.isNestingAware = true → byte = Byte.closeBrace →
    point.state.depth ≠ 0
  /-- A delimiter enters the next span with no brace open. -/
  enters : ∀ byte after next skip, point.ahead = byte :: after →
    point.state.step byte after = .switch next skip → next.depth = 0
  /-- So does the end of input. -/
  ends : point.ahead = [] → point.turn.state.depth = 0
  bounded : point.state.depth ≤ point.stop - point.start
  /-- One brace more still fits in 32 bits. -/
  fits : (utf8 source).length < UInt32.size →
    point.state.depth + 1 < UInt32.size

theorem ScanPoint.Stands.exact {source : String} {point : ScanPoint}
    {before body : List UInt8}
    (hstands : point.Stands (utf8 source) before body) :
    point.Exact source := by
  have hbounded := hstands.depth_le
  obtain ⟨hbytes, hstart, hstop, hflat, hnested, hopened⟩ := hstands
  have hscanned : point.scanned source = body := by
    have hwidth : point.stop - point.start = body.length := by omega
    rw [scanned, hwidth, hstart, hbytes, List.append_assoc, List.drop_left,
      List.take_left]
  refine ⟨by omega, ?_, hflat, ?_, ?_, ?_, ?_, by omega, ?_⟩
  · rw [hbytes, hstop, ← List.length_append, List.drop_left]
  · intro haware
    have hcount := hnested haware
    rw [hscanned]
    omega
  · intro byte after next _ hstep haware hclose
    have hadvance := ScanState.step_advance hstep
    rw [haware, if_pos rfl] at hadvance
    exact hadvance.2 hclose
  · intro byte after next skip _ hstep
    exact (ScanState.step_switch_enter hstep).1
  · intro hend
    rw [ScanPoint.turn, hend]
    rfl
  · intro hlength
    have hwhole : (utf8 source).length =
        before.length + body.length + point.ahead.length := by
      rw [hbytes, List.length_append, List.length_append]
    cases haware : point.state.mode.isNestingAware with
    | false =>
        rw [hflat haware]
        decide
    | true =>
        have hbefore := List.length_pos_iff.mpr (hopened haware)
        omega

/-- The turns of a scan that goes on from a point. -/
def ScanPoint.turns : Nat → ScanPoint → ScanPoint
  | 0, point => point
  | count + 1, point => turns count point.turn

theorem turns_scanPoint (source : String) (count start : Nat) :
    (scanPoint source start).turns count =
      scanPoint source (start + count) := by
  induction count generalizing start with
  | zero => rfl
  | succ count ih =>
      have hlater := ih (start + 1)
      rwa [Nat.add_assoc, Nat.add_comm 1] at hlater

/-- A scan to the next boundary is a number of turns. -/
theorem ScanState.scan_turns (state : ScanState) (start cursor : Nat)
    (ahead : List UInt8) :
    ∃ count, ScanPoint.turns count ⟨start, cursor, state, ahead⟩ =
      ⟨(state.scan cursor ahead).stop + (state.scan cursor ahead).skip,
        (state.scan cursor ahead).stop + (state.scan cursor ahead).skip,
        (state.scan cursor ahead).next,
        (state.scan cursor ahead).ahead.drop
          (state.scan cursor ahead).skip⟩ := by
  induction ahead generalizing state cursor with
  | nil => exact ⟨1, rfl⟩
  | cons byte after ih =>
      unfold scan
      split
      · rename_i next hstep
        obtain ⟨count, hcount⟩ := ih next (cursor + 1)
        refine ⟨count + 1, ?_⟩
        simp only [ScanPoint.turns, ScanPoint.turn, hstep, hcount]
      · rename_i next skip hstep
        exact ⟨1, by simp only [ScanPoint.turns, ScanPoint.turn, hstep]⟩

/-- A lexer that stands at a point of the scan of its source. -/
def Lexer.OnScan (lexer : Lexer) : Prop :=
  ∃ turns, lexer.point = scanPoint lexer.source turns

theorem Lexer.OnScan.next {lexer : Lexer} (hscan : lexer.OnScan) :
    lexer.next.2.OnScan := by
  obtain ⟨turns, hpoint⟩ := hscan
  obtain ⟨count, hcount⟩ :=
    lexer.state.scan_turns lexer.cursor lexer.cursor lexer.ahead
  have hlater : lexer.next.2.point = lexer.point.turns count := hcount.symm
  refine ⟨turns + count, ?_⟩
  rw [hlater, hpoint, turns_scanPoint]
  rfl

/-- Whatever call is made, a lexer goes along the points of the scan. -/
theorem Lexer.OnScan.after {lexer : Lexer} (hscan : lexer.OnScan)
    (call : LexerCall) : (lexer.after call).OnScan := by
  cases call with
  | next => exact hscan.next
  | next? =>
      rw [Lexer.after, next?]
      split
      · exact hscan
      · exact hscan.next
  | reset => exact ⟨0, rfl⟩
  | clone | text | span | line | nextChar => exact hscan

theorem Lexer.onScan_callAll (source : String)
    (calls : List (Nat × LexerCall)) :
    ∀ lexer ∈ callAll [ofSource source] calls,
      lexer.source = source ∧ lexer.OnScan := by
  refine forall_callAll ?_ calls ?_
  · rintro lexer call ⟨rfl, hscan⟩
    exact ⟨lexer.source_after call, hscan.after call⟩
  · intro lexer hlexer
    rw [List.mem_singleton.mp hlexer]
    exact ⟨rfl, 0, rfl⟩

/-- The depth is exact at every point of the scan of a source, and every lexer
over the source, after whatever calls, stands at such a point. -/
theorem Lexer.depth_exact (source : String) :
    (∀ turns, (scanPoint source turns).Exact source) ∧
    ∀ calls, ∀ lexer ∈ callAll [ofSource source] calls,
      ∃ turns, lexer.point = scanPoint source turns := by
  constructor
  · intro turns
    obtain ⟨before, body, hstands⟩ := ScanPoint.stands_scanPoint source turns
    exact hstands.exact
  · intro calls lexer hlexer
    obtain ⟨rfl, hscan⟩ := onScan_callAll source calls lexer hlexer
    exact hscan

namespace NestingDepthWitness

/-- An expression with a brace of its own, and a tag that closes itself inside
one. -/
def source : String := "a$\x7bé\x7bc\x7d\x7d#\x7b\x7b/\x7d"

/-- The tag has been completed on a copy. -/
def calls : List (Nat × LexerCall) :=
  [(0, .next), (0, .clone), (1, .next), (1, .next?), (1, .next), (0, .reset)]

/-- Inside the brace of the expression, and of the tag. -/
theorem open_braces :
    (scanPoint source 5).state = ⟨.expr, 1⟩ ∧
    ((scanPoint source 5).scanned source).length = 3 ∧
    (scanPoint source 5).Exact source ∧
    (scanPoint source 10).state = ⟨.startTag, 1⟩ ∧
    (scanPoint source 10).turn.state = ⟨.endTag, 0⟩ ∧
    ∃ lexer, (callAll [.ofSource source] calls)[1]? = some lexer ∧
      lexer.last = ⟨11, 12⟩ ∧
      ∃ turns, lexer.point = scanPoint source turns := by
  have hcopy : ((callAll [.ofSource source] calls)[1]?).map Lexer.last =
      some ⟨11, 12⟩ := by decide +kernel
  obtain ⟨lexer, hlexer, hlast⟩ := Option.map_eq_some_iff.mp hcopy
  obtain ⟨hexact, hscan⟩ := Lexer.depth_exact source
  exact ⟨by decide +kernel, by decide +kernel, hexact 5, by decide +kernel,
    by decide +kernel, lexer, hlexer, hlast,
    hscan calls lexer (List.mem_of_getElem? hlexer)⟩

end NestingDepthWitness

end Stencil
