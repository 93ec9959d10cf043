/-
A script in tags.  Blanks and a tag put around a script neither make nor break
a marker, as the scan never looks ahead past the marker that opens the script;
so all other spans stay, on the same lines, and as the script is handed over
without them, the pass is the same.
-/
import Stencil.Proofs.AbortedPass
import Stencil.Proofs.LookAhead
import Stencil.Proofs.PassIsolation
import Stencil.Proofs.Taking

namespace Stencil

/-- A script that handing over leaves as it is, with blanks at its ends and
tags around it taken off. -/
structure Bare (text : String) : Prop where
  head : ∀ char ∈ text.toList.head?, isBlank char = false
  last : ∀ char ∈ text.toList.getLast?, isBlank char = false
  unopened : ¬ "<script>".toList <+: text.toList
  unclosed : ¬ "</script>".toList <:+ text.toList

/-- White space without a line break. -/
def BlankInLine (text : String) : Prop :=
  ∀ char ∈ text.toList, isBlank char = true ∧ char ≠ '\n'

/-- A script in tags, with something before and after them. -/
def wrap (front text back : String) : String :=
  front ++ ("<script>" ++ text ++ "</script>" ++ back)

/-- A source with the text of a span put between tags. -/
def wrapSpan (source : String) (lexeme : Lexeme) (front back : String) :
    String :=
  slice source ⟨0, lexeme.span.start⟩ ++ wrap front lexeme.text back ++
    slice source ⟨lexeme.span.stop, (utf8 source).length⟩

theorem scriptBody_of_bare {text : String} (hbare : Bare text) :
    scriptBody true text = text := by
  have htrim : trim text = text := by
    have hnone : ∀ char ∈ ([] : List Char), isBlank char = true :=
      fun _ hchar => absurd hchar List.not_mem_nil
    have hchars := trimChars_append hnone hnone hbare.head hbare.last
    rw [List.nil_append, List.append_nil] at hchars
    rw [trim, hchars, String.ofList_toList]
  have hhead : afterHead? "<script>" text = none := by
    rw [afterHead?, if_neg]
    simpa using hbare.unopened
  have htail : beforeTail? "</script>" text = none := by
    rw [beforeTail?, if_neg]
    simpa using hbare.unclosed
  simp only [scriptBody, if_true, htrim, hhead, Option.getD_none, htail]

/-- Handing over takes off what was put around a script. -/
theorem scriptBody_wrap {front back : String} (hfront : BlankInLine front)
    (hback : BlankInLine back) (text : String) :
    scriptBody true (wrap front text back) = text := by
  have htrim : trim (wrap front text back) =
      "<script>" ++ (text ++ "</script>") := by
    have hopens : ("<script>" ++ (text ++ "</script>")).toList.head? =
        some '<' := by simp
    have hcloses : ("<script>" ++ (text ++ "</script>")).toList.getLast? =
        some '>' := by
      rw [← String.append_assoc, String.toList_append, List.getLast?_append]
      simp
    have hchars := trimChars_append (fun char hchar => (hfront char hchar).1)
      (fun char hchar => (hback char hchar).1)
      (fun char hchar => by cases hopens.symm.trans hchar; rfl)
      (fun char hchar => by cases hcloses.symm.trans hchar; rfl)
    apply String.toList_inj.mp
    rw [trim, String.toList_ofList, ← hchars]
    simp [wrap]
  have hhead : afterHead? "<script>" ("<script>" ++ (text ++ "</script>")) =
      some (text ++ "</script>") := afterHead?_eq_some_iff.mpr rfl
  have htail : beforeTail? "</script>" (text ++ "</script>") = some text :=
    beforeTail?_eq_some_iff.mpr rfl
  simp only [scriptBody, if_true, htrim, hhead, Option.getD_some, htail]

/-- Neither of the characters of the markers that close a script. -/
def Unmarked (text : List Char) : Prop :=
  ∀ char ∈ text, ∀ closing ∈ Token.closings .script, char ∉ closing

theorem ne_of_isBlank {char other : Char} (hblank : isBlank char = true)
    (hother : isBlank other = false) : char ≠ other := by
  rintro rfl
  rw [hblank] at hother
  cases hother

theorem BlankInLine.unmarked {text : String} (hblank : BlankInLine text) :
    Unmarked text.toList := by
  intro char hchar
  have hbrace := ne_of_isBlank (hblank char hchar).1
    (show isBlank '}' = false from rfl)
  have hpercent := ne_of_isBlank (hblank char hchar).1
    (show isBlank '%' = false from rfl)
  simp [Token.closings, hbrace, hpercent]

theorem BlankInLine.count_eq_zero {text : String}
    (hblank : BlankInLine text) : text.toList.count '\n' = 0 :=
  List.count_eq_zero.mpr fun hchar => (hblank _ hchar).2 rfl

/-- What is put around a script completes no line. -/
theorem count_wrap {front back : String} (hfront : BlankInLine front)
    (hback : BlankInLine back) (text : String) :
    (wrap front text back).toList.count '\n' = text.toList.count '\n' := by
  have hopening : "<script>".toList.count '\n' = 0 := by decide
  have hclosing : "</script>".toList.count '\n' = 0 := by decide
  simp only [wrap, String.toList_append, List.count_append,
    hfront.count_eq_zero, hback.count_eq_zero, hopening, hclosing,
    Nat.zero_add, Nat.add_zero]

/-- A marker that starts before a character that is not in it ends before
it. -/
theorem isPrefix_of_not_mem {marker text rest : List Char} {char : Char}
    (hstarts : marker <+: text ++ char :: rest) (habsent : char ∉ marker) :
    marker <+: text := by
  rcases List.prefix_or_prefix_of_prefix hstarts
    (List.prefix_append text (char :: rest)) with hwithin | hlonger
  · exact hwithin
  · obtain ⟨more, rfl⟩ := hlonger
    rw [List.prefix_append_right_inj] at hstarts
    cases more with
    | nil => rw [List.append_nil]
    | cons first more =>
        rw [List.cons_prefix_cons] at hstarts
        exact absurd (by simp [hstarts.1]) habsent

namespace ScanState

section

variable {body rest : List Char}

/-- No closing marker starts in a body that is passed. -/
theorem Passes.not_starts {token : Token} (hflat : token.isFlat = true)
    (hpasses : (enter token).Passes body rest) {place : Nat}
    (hplace : place < body.length) :
    ¬ Starts token.closings ((body ++ rest).drop place) := by
  rintro ⟨closing, hclosing, hstarts⟩
  have hnone := hpasses place hplace
  rw [foldl_pass_of_not_nestingAware (Token.isNestingAware_of_isFlat hflat),
    delimiter?_flat hflat, Option.map_eq_none_iff, List.find?_eq_none] at hnone
  exact hnone closing hclosing (by simpa using hstarts)

theorem passes_of_unmarked {text : List Char} (hunmarked : Unmarked text)
    (rest : List Char) : (enter .script).Passes text rest := by
  apply passes_flat rfl
  rintro place hplace ⟨closing, hclosing, hstarts⟩
  rw [drop_append_eq_cons hplace, ← List.nil_append (_ :: _)] at hstarts
  have hempty := isPrefix_of_not_mem hstarts
    (hunmarked _ (List.getElem_mem hplace) closing hclosing)
  exact Token.closings_ne_nil .script closing hclosing
    (List.prefix_nil.mp hempty)

/-- A body is passed also where a character that is in no closing marker comes
next. -/
theorem Passes.before_unmarked (hpasses : (enter .script).Passes body rest)
    {char : Char} (hunmarked : Unmarked [char]) (more : List Char) :
    (enter .script).Passes body (char :: more) := by
  apply passes_flat rfl
  rintro place hplace ⟨closing, hclosing, hstarts⟩
  rw [List.drop_append_of_le_length (Nat.le_of_lt hplace)] at hstarts
  have hwithin := isPrefix_of_not_mem hstarts
    (hunmarked char List.mem_cons_self closing hclosing)
  refine hpasses.not_starts rfl hplace ⟨closing, hclosing, ?_⟩
  rw [List.drop_append_of_le_length (Nat.le_of_lt hplace)]
  exact hwithin.trans (List.prefix_append _ _)

theorem Passes.append {first second : List Char}
    (hfirst : (enter .script).Passes first (second ++ rest))
    (hsecond : (enter .script).Passes second rest) :
    (enter .script).Passes (first ++ second) rest := by
  apply passes_flat rfl
  intro place hplace
  rw [List.append_assoc]
  by_cases hwithin : place < first.length
  · exact hfirst.not_starts rfl hwithin
  · have hlater := @Passes.not_starts _ _ .script rfl hsecond
      (place - first.length) (by simp at hplace; omega)
    rwa [List.drop_append, List.drop_eq_nil_of_le (by omega), List.nil_append]

/-- A script that is passed stays passed between tags. -/
theorem Passes.wrap {text front back : String}
    (hpasses : (enter .script).Passes text.toList rest)
    (hfront : BlankInLine front) (hback : BlankInLine back) :
    (enter .script).Passes (Stencil.wrap front text back).toList rest := by
  have hopening : Unmarked "<script>".toList := by
    simp [Unmarked, Token.closings]
  have hclosing : Unmarked "</script>".toList := by
    simp [Unmarked, Token.closings]
  have hfirst : Unmarked ['<'] := by
    simp [Unmarked, Token.closings]
  have hbehind := (passes_of_unmarked hclosing (back.toList ++ rest)).append
    (passes_of_unmarked hback.unmarked rest)
  have hbody := (hpasses.before_unmarked hfirst _).append hbehind
  have htag := (passes_of_unmarked hopening _).append hbody
  have hall := (passes_of_unmarked hfront.unmarked _).append htag
  simpa [Stencil.wrap] using hall

end

end ScanState

/-- Between two pieces stands what the table allows. -/
theorem Tiling.gap {token : Token} {ahead : List Char} {pieces : List Piece}
    (htiling : Tiling token ahead pieces) {earlier later : List Piece}
    {first second : Piece}
    (hsplit : pieces = earlier ++ first :: second :: later) :
    first.delimiter ∈ gaps first.token second.token := by
  induction htiling generalizing earlier with
  | done =>
      have hlength := congrArg List.length hsplit
      simp at hlength
      omega
  | @step token next body delimiter rest pieces hgap hself hrest ih =>
      cases earlier with
      | nil =>
          obtain ⟨after, closing, others, hhead⟩ := hrest.head
          rw [List.nil_append, List.cons.injEq] at hsplit
          obtain ⟨rfl, rfl⟩ := hsplit
          rw [List.cons.injEq] at hhead
          rw [hhead.1]
          exact hgap
      | cons piece earlier =>
          rw [List.cons_append, List.cons.injEq] at hsplit
          exact ih hsplit.2

theorem opening_of_script {first : Token} {gap : List Char}
    (hgap : gap ∈ gaps first .script) :
    first = .plain ∧ gap ∈ Token.openings .script := by
  unfold gaps at hgap
  cases first with
  | plain => exact ⟨rfl, hgap⟩
  | eof | script | comment | expr | startTag | endTag | message | action
  | absAction => cases hgap

/-- Where a closed script stands in a source: after literal text and a marker
that opens it, and before one that closes it. -/
structure ScriptAt (source : String) (script : Lexeme) (earlier : List Piece)
    (literal : Piece) (closing rest : List Char) : Prop where
  split : source.toList = piecesText earlier ++ literal.text ++
    (script.text.toList ++ (closing ++ rest))
  pieces : Stencil.pieces source = earlier ++ literal ::
    ⟨.script, script.text.toList, closing⟩ ::
      (ScanState.enter .plain).pieces rest
  plain : literal.token = .plain
  opens : literal.delimiter ∈ Token.openings .script
  closes : closing ∈ Token.closings .script
  passes : (ScanState.enter .script).Passes script.text.toList
    (closing ++ rest)
  lexeme : script = Piece.lexeme ⟨.script, script.text.toList, closing⟩
    (piecesText earlier ++ literal.text)

theorem Lexer.scriptAt {source : String} {script : Lexeme}
    (hscript : script ∈ (ofSource source).drain)
    (htoken : script.token = .script) (hends : ¬ EndsSource source script) :
    ∃ earlier literal closing rest,
      ScriptAt source script earlier literal closing rest := by
  have htiling := tiling_pieces source
  rw [drain_ofSource] at hscript
  obtain ⟨first, piece, last, hpieces, rfl⟩ := mem_layOut hscript
  rw [List.nil_append] at hends
  obtain ⟨left, hsource, hlater⟩ :=
    @ScanState.pieces_suffix .plain _ _ _ _ hpieces
  obtain ⟨token, body, closing⟩ := piece
  change token = .script at htoken
  subst htoken
  obtain ⟨earlier, literal, rfl⟩ : ∃ earlier literal,
      first = earlier ++ [literal] := by
    rcases first.eq_nil_or_concat' with rfl | hconcat
    · obtain ⟨_, _, _, hhead⟩ := htiling.head
      rw [hpieces, List.nil_append, List.cons.injEq, Piece.mk.injEq] at hhead
      cases hhead.1.1
    · exact hconcat
  rw [List.append_assoc, List.singleton_append] at hpieces
  have hgap := htiling.gap hpieces
  obtain ⟨hliteral, hopening⟩ := opening_of_script hgap
  have hbefore : piecesText (earlier ++ [literal]) =
      piecesText earlier ++ literal.text := by simp [piecesText]
  rw [hbefore] at hsource hends ⊢
  obtain ⟨rest, rfl, ⟨hnil, hrest⟩ | ⟨hclosing, hpasses, rfl⟩⟩ :=
    ScanState.split_of_script hlater
  · exact absurd (endsSource_of_split hsource hnil hrest) hends
  · refine ⟨earlier, literal, closing, rest, ?_, ?_, hliteral, hopening,
      hclosing, ?_, ?_⟩
    · simpa [Piece.lexeme] using hsource
    · simpa [Piece.lexeme] using hpieces
    · simpa [Piece.lexeme] using hpasses
    · simp [Piece.lexeme]

section

variable {source : String} {script : Lexeme} {earlier : List Piece}
  {literal : Piece} {closing rest : List Char} {front back : String}

theorem ScriptAt.toList_wrapSpan
    (hat : ScriptAt source script earlier literal closing rest) :
    (wrapSpan source script front back).toList =
      piecesText earlier ++ (literal.text ++
        ((wrap front script.text back).toList ++ (closing ++ rest))) := by
  have hbefore := @slice_of_split source [] (piecesText earlier ++ literal.text)
    _ (by simpa using hat.split)
  have hafter := @slice_of_split source
    (piecesText earlier ++ literal.text ++ script.text.toList)
    (closing ++ rest) [] (by simpa using hat.split)
  have hstart : script.span.start =
      byteWidth (piecesText earlier ++ literal.text) := by
    rw [hat.lexeme]
    rfl
  have hstop : script.span.stop = byteWidth
      (piecesText earlier ++ literal.text ++ script.text.toList) := by
    rw [byteWidth_append, ← hstart, hat.lexeme]
    simp [Piece.lexeme]
  have hlength : (utf8 source).length = byteWidth
      (piecesText earlier ++ literal.text ++ script.text.toList) +
        byteWidth (closing ++ rest) := by
    rw [length_utf8, hat.split, ← byteWidth_append]
    simp only [List.append_assoc]
  rw [wrapSpan, hstart, hstop, hlength]
  simp only [byteWidth, Nat.zero_add] at hbefore
  rw [hbefore, hafter]
  simp [List.append_assoc]

/-- Between tags a script is a span as before, and all other spans stay. -/
theorem ScriptAt.pieces_wrapSpan
    (hat : ScriptAt source script earlier literal closing rest)
    (hfront : BlankInLine front) (hback : BlankInLine back) :
    Stencil.pieces (wrapSpan source script front back) =
      earlier ++ literal ::
        ⟨.script, (wrap front script.text back).toList, closing⟩ ::
          (ScanState.enter .plain).pieces rest := by
  have hopening := @ScanState.pieces_of_opening .plain _ _ _ _ hat.pieces
    hat.plain hat.opens
  have hpasses := hat.passes.wrap hfront hback
  have hfound : ((wrap front script.text back).toList.foldl ScanState.pass
      (.enter .script)).delimiter? (closing ++ rest) =
        some ⟨closing, .enter .plain⟩ := by
    rw [ScanState.foldl_pass_of_not_nestingAware rfl]
    exact ScanState.delimiter?_closing hat.closes rest
  rw [Stencil.pieces, hat.toList_wrapSpan]
  refine (hopening _).trans ?_
  rw [ScanState.pieces_of_cut (by decide) (hpasses.cut_eq hfound)]

end

/-- The effect of a span does not depend on its place. -/
theorem Config.effects_of_directives (config : Config) (template : String)
    (afterComment : Bool) {first second : List Lexeme}
    (hsame : first.map Lexeme.directive = second.map Lexeme.directive) :
    config.effects template afterComment first =
      config.effects template afterComment second := by
  induction first generalizing second afterComment with
  | nil => rw [List.map_eq_nil_iff.mp hsame.symm]
  | cons lexeme rest ih =>
      obtain ⟨other, later, rfl, hlexeme, hlater⟩ :=
        List.map_eq_cons_iff.mp hsame.symm
      simp only [Lexeme.directive, Directive.mk.injEq] at hlexeme
      obtain ⟨htoken, htext, hline, hnext⟩ := hlexeme
      rw [effects, effects, ih _ hlater.symm, htoken]
      simp only [effect?, Lexeme.directive, htoken, htext, hline, hnext]

/-- Where pieces are laid out tells on the line of a span, and on nothing else
but its place. -/
theorem directives_layOut {before other : List Char}
    (hlines : before.count '\n' = other.count '\n') (pieces : List Piece) :
    (layOut before pieces).map Lexeme.directive =
      (layOut other pieces).map Lexeme.directive := by
  induction pieces generalizing before other with
  | nil => rfl
  | cons piece rest ih =>
      have hlater : (before ++ piece.text).count '\n' =
          (other ++ piece.text).count '\n' := by
        rw [List.count_append, List.count_append, hlines]
      simp only [layOut, List.map_cons, ih hlater, Lexeme.directive,
        Piece.lexeme, hlines]

/-- The effects of a source with a script in it: those before the script, its
own, and those after it. -/
theorem Config.effects_script (config : Config) (name : String)
    (earlier later : List Piece) {literal : Piece}
    (hliteral : literal.token = .plain) (body closing : List Char) :
    config.effects name false (layOut []
        (earlier ++ literal :: ⟨.script, body, closing⟩ :: later)) =
      config.effects name false (layOut [] earlier ++
          [literal.lexeme (piecesText earlier)]) ++
        .evaluate (scriptBody config.stripScriptTags (String.ofList body))
            (1 + (piecesText earlier ++ literal.text).count '\n') name ::
          config.effects name false
            (layOut (piecesText earlier ++ literal.text ++ (body ++ closing))
              later) := by
  rw [layOut_append, List.nil_append, layOut,
    config.effects_append_plain name false _ hliteral]
  rfl

/-- Putting a script between tags changes no effect. -/
theorem Config.effects_wrapSpan (config : Config) (name : String)
    (hstrip : config.stripScriptTags = true) {source : String}
    {script : Lexeme} {earlier : List Piece} {literal : Piece}
    {closing rest : List Char} {front back : String}
    (hat : ScriptAt source script earlier literal closing rest)
    (hbare : Bare script.text) (hfront : BlankInLine front)
    (hback : BlankInLine back) :
    config.effects name false (Lexer.ofSource source).drain =
      config.effects name false
        (Lexer.ofSource (wrapSpan source script front back)).drain := by
  have hlines : (piecesText earlier ++ literal.text ++
        (script.text.toList ++ closing)).count '\n' =
      (piecesText earlier ++ literal.text ++
        ((wrap front script.text back).toList ++ closing)).count '\n' := by
    simp only [List.count_append, count_wrap hfront hback]
  rw [Lexer.drain_ofSource, Lexer.drain_ofSource, hat.pieces,
    hat.pieces_wrapSpan hfront hback, config.effects_script _ _ _ hat.plain,
    config.effects_script _ _ _ hat.plain, hstrip, String.ofList_toList,
    String.ofList_toList, scriptBody_of_bare hbare,
    scriptBody_wrap hfront hback,
    config.effects_of_directives name false (directives_layOut hlines _)]

variable {μ σ : Type} [Sink σ]

/-- A pass knows of its source nothing but the effects that it calls for. -/
theorem Compiler.render_of_effects (compiler : Compiler μ)
    {first second : Template} (request : Request σ) (memory : μ)
    (hname : first.name = second.name)
    (heffects :
      compiler.config.effects first.name false
          (Lexer.ofSource first.source).drain =
        compiler.config.effects first.name false
          (Lexer.ofSource second.source).drain) :
    (compiler.render first request memory).Same
      (compiler.render second request memory) := by
  have hstart : compiler.start first request memory =
      compiler.start second request memory := by
    rw [start, start, hname]
  obtain ⟨taken, htakes, hfirst⟩ :=
    compiler.render_follow first request memory
  obtain ⟨other, hother, hsecond⟩ :=
    compiler.render_follow second request memory
  rw [heffects, hstart, hname] at htakes
  have hsame := (List.cons.inj (htakes.unique hother)).2
  rw [hfirst, hsecond, hsame, hstart]
  exact Report.same_ofPart first second _

/-- Putting a closed script between tags and blanks changes nothing of a pass
that takes them off again. -/
theorem Compiler.render_wrapSpan (compiler : Compiler μ)
    {first second : Template} (request : Request σ) (memory : μ)
    {script : Lexeme} {front back : String}
    (hstrip : compiler.config.stripScriptTags = true)
    (hscript : script ∈ (Lexer.ofSource first.source).drain)
    (htoken : script.token = .script)
    (hends : ¬ EndsSource first.source script)
    (hbare : Bare script.text) (hfront : BlankInLine front)
    (hback : BlankInLine back) (hname : first.name = second.name)
    (hsource : second.source = wrapSpan first.source script front back) :
    (compiler.render first request memory).Same
      (compiler.render second request memory) := by
  obtain ⟨earlier, literal, closing, rest, hat⟩ :=
    Lexer.scriptAt hscript htoken hends
  apply compiler.render_of_effects request memory hname
  rw [hsource]
  exact compiler.config.effects_wrapSpan first.name hstrip hat hbare hfront
    hback

namespace WrappedScriptWitness

/-- Every script writes itself and then fails. -/
def evaluator : Evaluator Unit := fun code _ =>
  .appendLine code (.fail (.message "no"))

def compiler : Compiler Unit where
  evaluator := evaluator

/-- A script that is like tags the wrong way round, right after a brace, and
another script on a later line. -/
def bare : Template :=
  .named ⟨"", 0⟩ "page"
    "a\n\x7d\x7b%</script>\x7d<script>%\x7d\n%\x7bs\x7d%"

def script : Lexeme :=
  ⟨.script, ⟨5, 23⟩, 2, "</script>\x7d<script>", some '%'⟩

/-- The same source with that script between tags, a tab before them and an
ideographic space after them. -/
def tagged : Template :=
  .named ⟨"", 0⟩ "page"
    ("a\n\x7d\x7b%\t<script></script>\x7d<script></script>\u3000%\x7d\n" ++
      "%\x7bs\x7d%")

theorem same_in_tags :
    (compiler.render tagged ({} : Request BoundedSink) ()).outcome =
        .page "a\n\x7d</script>\x7d<script>\n\ns\n" ∧
      (compiler.render tagged ({} : Request BoundedSink) ()).faults =
        [.evaluation "page" 2 (.message "no"),
          .evaluation "page" 3 (.message "no")] := by
  have hbare : Bare script.text := by
    refine ⟨?_, ?_, by decide +kernel, by decide +kernel⟩
    · rintro char ⟨⟩
      rfl
    · rintro char ⟨⟩
      rfl
  have hfront : BlankInLine "\t" := by
    simp [BlankInLine]
    decide
  have hback : BlankInLine "\u3000" := by
    simp [BlankInLine]
    decide
  have hends : ¬ EndsSource bare.source script := by
    unfold EndsSource
    decide +kernel
  have hsame := @Compiler.render_wrapSpan Unit BoundedSink _ compiler bare
    tagged {} () script "\t" "\u3000" rfl (by decide +kernel) rfl hends hbare
    hfront hback rfl (by decide +kernel)
  rw [← hsame.outcome, ← hsame.faults]
  exact ⟨by decide +kernel, by decide +kernel⟩

end WrappedScriptWitness

end Stencil
