/-
A pass that a directive ends.  Without a handler, the first directive that is
left to the dialect ends the pass, and nothing is lost with it: the page, the
table, the calls of the evaluator and the faults are those of the source that
breaks off right before the marker of that directive.
-/
import Stencil.BoundedSink
import Stencil.Proofs.Asking
import Stencil.Proofs.ExitPolicies
import Stencil.Proofs.Truncation

namespace Stencil

/-- Between a span that is not for the dialect and one that is stands the
opening marker of the second, and the first is literal text. -/
theorem opening_of_mem_gaps {first second : Token} {gap : List Char}
    (hfirst : first.isDialectal = false)
    (hsecond : second.isDialectal = true) (hgap : gap ∈ gaps first second) :
    first = .plain ∧ gap ∈ second.openings := by
  cases first with
  | plain =>
      cases second with
      | eof => cases hsecond
      | plain | script | comment | expr | startTag | endTag | message
      | action | absAction => exact ⟨rfl, hgap⟩
  | eof => cases hgap
  | script | comment =>
      cases second with
      | eof | plain | script | comment => cases hsecond
      | expr | startTag | endTag | message | action | absAction => cases hgap
  | expr | startTag | endTag | message | action | absAction => cases hfirst

/-- Right before the first piece for the dialect stands literal text, and then
the marker that opens the directive. -/
theorem Tiling.firstDialectal {token : Token} {ahead : List Char}
    {pieces : List Piece} (htiling : Tiling token ahead pieces)
    (htoken : token.isDialectal = false)
    (hsome : ∃ piece ∈ pieces, piece.token.isDialectal = true) :
    ∃ earlier literal directive later,
      pieces = earlier ++ literal :: directive :: later ∧
      literal.token = .plain ∧ directive.token.isDialectal = true ∧
      literal.delimiter ∈ directive.token.openings ∧
      ∀ piece ∈ earlier, piece.token.isDialectal = false := by
  induction htiling with
  | done =>
      obtain ⟨piece, hpiece, hdialectal⟩ := hsome
      rw [List.mem_singleton.mp hpiece] at hdialectal
      cases hdialectal
  | @step token next body delimiter rest pieces hgap hself hrest ih =>
      by_cases hnext : next.isDialectal = true
      · obtain ⟨after, closing, later, rfl⟩ := hrest.head
        obtain ⟨rfl, hopening⟩ := opening_of_mem_gaps htoken hnext hgap
        exact ⟨[], _, _, later, rfl, rfl, hnext, hopening,
          fun _ hpiece => absurd hpiece List.not_mem_nil⟩
      · have hlater : ∃ piece ∈ pieces, piece.token.isDialectal = true := by
          obtain ⟨piece, hpiece, hdialectal⟩ := hsome
          rcases List.mem_cons.mp hpiece with rfl | hpiece
          · rw [htoken] at hdialectal
            cases hdialectal
          · exact ⟨piece, hpiece, hdialectal⟩
        obtain ⟨earlier, literal, directive, later, rfl, hliteral, hdirective,
          hopening, hearlier⟩ := ih (Bool.eq_false_iff.mpr hnext) hlater
        refine ⟨_ :: earlier, literal, directive, later, rfl, hliteral,
          hdirective, hopening, ?_⟩
        intro piece hpiece
        rcases List.mem_cons.mp hpiece with rfl | hpiece
        · exact htoken
        · exact hearlier piece hpiece

/-- The effects before a literal text, its own, and those after it. -/
theorem Config.effects_append_plain (config : Config) (template : String)
    (afterComment : Bool) (earlier : List Lexeme) {literal : Lexeme}
    (hliteral : literal.token = .plain) (rest : List Lexeme) :
    config.effects template afterComment (earlier ++ literal :: rest) =
      config.effects template afterComment (earlier ++ [literal]) ++
        config.effects template false rest := by
  induction earlier generalizing afterComment with
  | nil =>
      have hother : (Token.plain == Token.comment) = false := rfl
      simp [effects, hliteral, hother]
  | cons lexeme earlier ih =>
      simp only [List.cons_append, effects, ih, List.append_assoc]

/-- The effect of literal text is in its text alone. -/
theorem Config.effects_of_same_text (config : Config) (template : String)
    (afterComment : Bool) (earlier : List Lexeme) {first second : Lexeme}
    (hfirst : first.token = .plain) (hsecond : second.token = .plain)
    (htext : first.text = second.text) :
    config.effects template afterComment (earlier ++ [first]) =
      config.effects template afterComment (earlier ++ [second]) := by
  induction earlier generalizing afterComment with
  | nil => simp [effects, effect?, hfirst, hsecond, htext]
  | cons lexeme earlier ih => simp only [List.cons_append, effects, ih]

section

variable {μ σ : Type} {compiler : Compiler μ}

/-- Without handlers the two hooks do nothing. -/
theorem Compiler.ask_of_base (hbase : compiler.dialect = .base)
    {occasion : Occasion} (hhook : occasion.directive? = none)
    (pass : Pass μ σ) :
    compiler.ask occasion pass = (.done, pass.note (.asked occasion)) := by
  cases occasion with
  | head | finish =>
      simp [ask, hbase, Dialect.base, Dialect.handler, Handler.run,
        Pass.note]
  | expr | message | action | startTag | endTag => cases hhook

/-- Without handlers every directive is rejected, and nothing is done. -/
theorem Compiler.ask_of_base_directive (hbase : compiler.dialect = .base)
    {occasion : Occasion} {directive : Directive}
    (hdirective : occasion.directive? = some directive) (pass : Pass μ σ) :
    compiler.ask occasion pass =
      (.failed directive.unimplemented, pass.note (.asked occasion)) := by
  cases occasion with
  | head | finish => cases hdirective
  | expr | message | action | startTag | endTag =>
      cases hdirective
      simp [ask, hbase, Dialect.base, Dialect.handler, Handler.run,
        Pass.note]

variable [Sink σ]

/-- Without handlers only an effect that asks about a directive fails. -/
theorem Compiler.follow_of_base (hbase : compiler.dialect = .base)
    {effects : List Effect}
    (hown : ∀ effect ∈ effects, effect.directive? = none)
    (pass : Pass μ σ) (fault : Fault) :
    (compiler.follow effects pass).1 ≠ .failed fault := by
  intro hfailed
  obtain ⟨earlier, effect, rest, reached, rfl, _, hfollow, _⟩ :=
    compiler.follow_ends effects pass (by simp [hfailed])
  rw [hfollow] at hfailed
  obtain ⟨occasion, rfl, _⟩ := perform_failed hfailed
  have hhook : occasion.directive? = none := hown (.ask occasion) (by simp)
  have hask := compiler.ask_of_base hbase hhook reached
  rw [perform_ask, hask] at hfailed
  cases hfailed

/-- Without handlers effects that end well ask about no directive. -/
theorem Compiler.directive?_of_follow_done (hbase : compiler.dialect = .base)
    {effects : List Effect} {pass : Pass μ σ}
    (hdone : (compiler.follow effects pass).1 = .done) :
    ∀ effect ∈ effects, effect.directive? = none := by
  intro effect heffect
  obtain ⟨earlier, later, rfl⟩ := List.append_of_mem heffect
  rw [follow_append] at hdone
  cases hdirective : effect.directive? with
  | none => rfl
  | some directive =>
      exfalso
      generalize compiler.follow earlier pass = part at hdone
      rcases part with ⟨_ | fault | _, reached⟩
      · cases effect with
        | literal | evaluate => cases hdirective
        | ask occasion =>
            have hask := compiler.ask_of_base_directive hbase hdirective
              reached
            rw [andThen_done, follow_cons, perform_ask, hask] at hdone
            cases hdone
      · cases hdone
      · cases hdone

/-- The same page, with the same calls and faults, but under another source
and with another end. -/
structure Report.SamePage (first second : Report μ σ) : Prop where
  output : first.template.output = second.template.output
  lineMap : first.template.lineMap = second.template.lineMap
  calls : calls first.events = calls second.events
  faults : first.faults = second.faults

/-- The first directive of a source that is left to the dialect, right after
the source up to its marker. -/
structure FirstDialectal (source : String) (directive : Lexeme)
    (before : String) : Prop where
  dialectal : directive.token.isDialectal = true
  first : ∃ earlier later,
    (Lexer.ofSource source).drain = earlier ++ directive :: later ∧
    ∀ lexeme ∈ earlier, lexeme.token.isDialectal = false
  line : directive.line =
    1 + lineBreaks (slice source ⟨0, directive.span.start⟩)
  marker : ∃ opening ∈ directive.token.openings,
    slice? source ⟨0, directive.span.start⟩ =
      some (before ++ String.ofList opening)

/-- The source up to the first marker for the dialect has the same spans: only
the literal text before the marker is not followed by one any more. -/
theorem Lexer.firstDialectal {source : String}
    (hsome : ∃ lexeme ∈ (ofSource source).drain,
      lexeme.token.isDialectal = true) :
    ∃ earlier literal directive later before last,
      (ofSource source).drain = earlier ++ literal :: directive :: later ∧
      literal.token = .plain ∧
      (∀ lexeme ∈ earlier, lexeme.token.isDialectal = false) ∧
      FirstDialectal source directive before ∧
      (ofSource before).drain =
        earlier ++ { literal with nextChar := none } :: [last] ∧
      last.token = .eof := by
  have htiling := tiling_pieces source
  have hpieces : ∃ piece ∈ Stencil.pieces source,
      piece.token.isDialectal = true := by
    obtain ⟨lexeme, hlexeme, hdialectal⟩ := hsome
    rw [drain_ofSource] at hlexeme
    obtain ⟨_, piece, _, hpieces, rfl⟩ := mem_layOut hlexeme
    exact ⟨piece, by simp [hpieces], hdialectal⟩
  obtain ⟨earlier, literal, directive, later, hsplit, hliteral, hdirective,
    hopening, hearlier⟩ := htiling.firstDialectal rfl hpieces
  have hsource : source.toList = piecesText earlier ++ literal.text ++
      (directive.text ++ piecesText later) := by
    rw [← htiling.piecesText, hsplit]
    simp [piecesText]
  have hdrain : (ofSource source).drain = layOut [] earlier ++
      literal.lexeme (piecesText earlier) ::
        directive.lexeme (piecesText earlier ++ literal.text) ::
          layOut (piecesText earlier ++ literal.text ++ directive.text)
            later := by
    rw [drain_ofSource, hsplit, layOut_append]
    rfl
  have hbefore := drain_of_shorter hsplit
    (fun piece hpiece htoken => by
      have hown := hearlier piece hpiece
      rw [htoken] at hown
      cases hown)
    (by rw [hliteral]; decide)
  have hmem : directive.lexeme (piecesText earlier ++ literal.text) ∈
      (ofSource source).drain := by simp [hdrain]
  have hown : ∀ lexeme ∈ layOut [] earlier,
      lexeme.token.isDialectal = false := by
    intro lexeme hlexeme
    obtain ⟨_, piece, _, rfl, rfl⟩ := mem_layOut hlexeme
    exact hearlier piece (by simp)
  refine ⟨_, _, _, _, _, _, hdrain, hliteral, hown,
    ⟨hdirective, ⟨_, _, hdrain.trans (List.append_cons _ _ _), ?_⟩,
      line_of_mem_drain hmem, ?_⟩, hbefore, rfl⟩
  · intro lexeme hlexeme
    rcases List.mem_append.mp hlexeme with hlexeme | hlexeme
    · exact hown lexeme hlexeme
    · rw [List.mem_singleton.mp hlexeme]
      change literal.token.isDialectal = false
      rw [hliteral]
      rfl
  · refine ⟨literal.delimiter, hopening, ?_⟩
    have hslice := @slice?_of_split source []
      (piecesText earlier ++ literal.text) _ hsource
    simpa [byteWidth, Piece.lexeme, Piece.text, String.ofList_append,
      String.append_assoc] using hslice

/-- The effects up to the first directive for the dialect, and the one that
asks about it. -/
theorem Config.effects_firstDialectal (config : Config) (template : String)
    {earlier : List Lexeme} {literal directive last : Lexeme}
    (later : List Lexeme)
    (hearlier : ∀ lexeme ∈ earlier, lexeme.token.isDialectal = false)
    (hliteral : literal.token = .plain)
    (hdirective : directive.token.isDialectal = true)
    (hlast : last.token = .eof) :
    ∃ quiet occasion rest,
      config.effects template false
        (earlier ++ literal :: directive :: later) =
          quiet ++ .ask occasion :: rest ∧
      config.effects template false
        (earlier ++ { literal with nextChar := none } :: [last]) = quiet ∧
      occasion.directive? = some directive.directive ∧
      ∀ effect ∈ quiet, effect.directive? = none := by
  have hend : config.effects template false [last] = [] := by
    simp [effects, effect?, hlast]
  have hquiet : config.effects template false
      (earlier ++ { literal with nextChar := none } :: [last]) =
        config.effects template false (earlier ++ [literal]) := by
    have hcut : ({ literal with nextChar := none } : Lexeme).token =
      .plain := hliteral
    rw [config.effects_append_plain template false earlier hcut, hend,
      List.append_nil]
    exact config.effects_of_same_text template false earlier hcut hliteral rfl
  have hown : (config.effects template false
      (earlier ++ [literal])).filterMap Effect.directive? = [] := by
    rw [config.directives_effects, List.map_eq_nil_iff,
      List.filter_eq_nil_iff]
    intro lexeme hlexeme
    rcases List.mem_append.mp hlexeme with hlexeme | hlexeme
    · simp [hearlier lexeme hlexeme]
    · rw [List.mem_singleton.mp hlexeme, hliteral]
      decide
  have hask := config.directive?_effect? template false directive
  rw [hdirective, if_pos rfl, Option.bind_eq_some_iff] at hask
  obtain ⟨effect, heffect, hasked⟩ := hask
  cases effect with
  | literal | evaluate => cases hasked
  | ask occasion =>
      refine ⟨_, occasion, config.effects template
        (directive.token == .comment) later, ?_, hquiet, hasked, ?_⟩
      · rw [config.effects_append_plain template false earlier hliteral,
          effects, heffect]
        rfl
      · exact List.filterMap_eq_nil_iff.mp hown

/-- A scan that does not stop within some effects takes them all also where
they are all that there is. -/
theorem Compiler.Takes.all_of_longer {start : Pass μ σ}
    {effects all more short : List Effect}
    (htakes : compiler.Takes start effects (all ++ more))
    (hshort : compiler.Takes start all short) : short = all := by
  obtain ⟨left, rfl, hexits⟩ := hshort.split
  cases left with
  | nil => exact (List.append_nil short).symm
  | cons effect left =>
      refine absurd (hexits (List.cons_ne_nil effect left)) ?_
      exact htakes.first short (effect :: left ++ more)
        (List.append_assoc short _ more) (by simp)

/-- A pass that fails has not only effects that ask about nothing. -/
theorem Compiler.not_prefix_of_failed (hbase : compiler.dialect = .base)
    {start : Pass μ σ} {quiet taken : List Effect} {fault : Fault}
    (hquiet : ∀ effect ∈ quiet, effect.directive? = none)
    (hfailed : (compiler.follow (between taken) start).1 = .failed fault) :
    ¬ taken <+: quiet := by
  intro hshort
  refine compiler.follow_of_base hbase ?_ start fault hfailed
  intro effect heffect
  simp only [between, List.mem_cons, List.mem_append, List.not_mem_nil,
    or_false] at heffect
  rcases heffect with rfl | heffect | rfl
  · rfl
  · exact hquiet effect (hshort.subset heffect)
  · rfl

/-- A pass that fails has taken the effects before the first one that asks
about a directive, and that one. -/
theorem Compiler.taken_of_failed (hbase : compiler.dialect = .base)
    {start : Pass μ σ} {quiet rest taken : List Effect} {asks : Effect}
    {fault : Fault} (hquiet : ∀ effect ∈ quiet, effect.directive? = none)
    (htaken : taken <+: quiet ++ asks :: rest)
    (hfailed : (compiler.follow (between taken) start).1 = .failed fault) :
    ∃ more, taken = quiet ++ asks :: more := by
  have hlong := compiler.not_prefix_of_failed hbase hquiet hfailed
  obtain ⟨left, hsplit⟩ := htaken
  rcases List.append_eq_append_iff.mp hsplit.symm with
    ⟨more, rfl, hmore⟩ | ⟨after, rfl, _⟩
  · rcases more with _ | ⟨first, more⟩
    · exact absurd (by simp) hlong
    · cases hmore
      exact ⟨more, rfl⟩
  · exact absurd (List.prefix_append taken after) hlong

/-- A pass that a directive ends has the effects before it, and then asks
about it; the pass over the source before its marker has the same effects, and
goes on to its end. -/
theorem Compiler.follow_firstDialectal (hbase : compiler.dialect = .base)
    {start : Pass μ σ} {quiet rest taken short : List Effect}
    {occasion : Occasion} {directive : Directive} {fault : Fault}
    (hquiet : ∀ effect ∈ quiet, effect.directive? = none)
    (hdirective : occasion.directive? = some directive)
    (htakes : compiler.Takes start
      (.ask .head :: (quiet ++ .ask occasion :: rest)) (.ask .head :: taken))
    (hfailed : (compiler.follow (between taken) start).1 = .failed fault)
    (hshort : compiler.Takes start (.ask .head :: quiet)
      (.ask .head :: short)) :
    ∃ mid : Pass μ σ,
      compiler.follow (between taken) start =
        (.failed directive.unimplemented, mid.note (.asked occasion)) ∧
      compiler.follow (between short) start =
        (.done, mid.note (.asked .finish)) := by
  obtain ⟨more, rfl⟩ := compiler.taken_of_failed hbase hquiet
    htakes.isPrefix_of_cons hfailed
  have hall : .ask .head :: short = .ask .head :: quiet :=
    htakes.all_of_longer hshort
  obtain rfl : short = quiet := (List.cons.inj hall).2
  have hwhole : between (short ++ .ask occasion :: more) =
      (.ask .head :: short) ++ .ask occasion :: (more ++ [.ask .finish]) := by
    simp [between]
  have hcut : between short = (.ask .head :: short) ++ [.ask .finish] := rfl
  have hown : ∀ effect ∈ Effect.ask .head :: short,
      effect.directive? = none := by
    intro effect heffect
    rcases List.mem_cons.mp heffect with rfl | heffect
    · rfl
    · exact hquiet effect heffect
  have hgoes := compiler.follow_of_base hbase hown start fault
  rw [hwhole, follow_append] at hfailed ⊢
  rw [hcut, follow_append]
  generalize compiler.follow (.ask .head :: short) start = part
    at hfailed hgoes ⊢
  rcases part with ⟨_ | other | _, mid⟩
  · refine ⟨mid, ?_, ?_⟩
    · rw [andThen_done, follow_cons, perform_ask,
        compiler.ask_of_base_directive hbase hdirective mid]
      rfl
    · rw [andThen_done, follow_singleton, perform_ask,
        compiler.ask_of_base hbase rfl mid]
  · cases hfailed
    exact absurd rfl hgoes
  · cases hfailed

/-- The effects of a source ask about no directive exactly where none is left
to the dialect. -/
theorem Config.forall_directive?_eq_none_iff (config : Config)
    (template : String) (lexemes : List Lexeme) :
    (∀ effect ∈ config.effects template false lexemes,
        effect.directive? = none) ↔
      ∀ lexeme ∈ lexemes, lexeme.token.isDialectal = false := by
  rw [← List.filterMap_eq_nil_iff, config.directives_effects,
    List.map_eq_nil_iff, List.filter_eq_nil_iff]
  simp only [Bool.not_eq_true]

theorem calls_concat_asked (events : List Event) (occasion : Occasion) :
    calls (events ++ [.asked occasion]) = calls events := by
  rw [calls_append]
  exact List.append_nil _

/-- A pass that fails has some directive for the dialect in its source. -/
theorem Compiler.exists_dialectal_of_failed (hbase : compiler.dialect = .base)
    {start : Pass μ σ} {template : String} {lexemes : List Lexeme}
    {taken : List Effect} {fault : Fault}
    (htaken : taken <+: compiler.config.effects template false lexemes)
    (hfailed : (compiler.follow (between taken) start).1 = .failed fault) :
    ∃ lexeme ∈ lexemes, lexeme.token.isDialectal = true := by
  by_contra hnone
  have hown : ∀ lexeme ∈ lexemes, lexeme.token.isDialectal = false := by
    intro lexeme hlexeme
    apply Bool.eq_false_iff.mpr
    intro hdialectal
    exact hnone ⟨lexeme, hlexeme, hdialectal⟩
  have hquiet := (compiler.config.forall_directive?_eq_none_iff template
    lexemes).mpr hown
  exact compiler.not_prefix_of_failed hbase hquiet hfailed htaken

/-- A pass that ends well under the policy that scans to the end has no
directive for the dialect in its source. -/
theorem Compiler.not_dialectal_of_done (hbase : compiler.dialect = .base)
    (hpolicy : compiler.config.exitPolicy = .suppressOutput)
    {start : Pass μ σ} {template : String} {lexemes : List Lexeme}
    {taken : List Effect}
    (htakes : compiler.Takes start
      (.ask .head :: compiler.config.effects template false lexemes)
      (.ask .head :: taken))
    (hdone : (compiler.follow (between taken) start).1 = .done) :
    ∀ lexeme ∈ lexemes, lexeme.token.isDialectal = false := by
  have hsame : compiler.withPolicy .suppressOutput = compiler := by
    rw [withPolicy, ← hpolicy]
  have hown := compiler.directive?_of_follow_done hbase hdone
  apply (compiler.config.forall_directive?_eq_none_iff template lexemes).mp
  intro effect heffect
  generalize compiler.config.effects template false lexemes = effects
    at htakes heffect
  rw [← hsame] at htakes
  have hall : taken = effects := (List.cons.inj (takes_all htakes)).2
  exact hown effect (by simp [between, hall, heffect])

/-- A pass that fails, and the one over the source before the marker of the
first directive for the dialect, come to the same place; there the one asks
about the directive, and the other comes to its end. -/
theorem Compiler.render_of_failed (hbase : compiler.dialect = .base)
    {template : Template} {request : Request σ} {memory : μ}
    (hsink : request.sink = none) {fault : Fault}
    (hfailed : (compiler.render template request memory).outcome =
      .failed fault) :
    ∃ directive before occasion, ∃ mid : Pass μ σ,
      FirstDialectal template.source directive before ∧
      mid.host.sink = none ∧
      compiler.render template request memory =
        .ofPart template (.failed directive.directive.unimplemented,
          mid.note (.asked occasion)) ∧
      compiler.render (template.setSource before) request memory =
        .ofPart (template.setSource before)
          (.done, mid.note (.asked .finish)) := by
  obtain ⟨taken, htakes, hreport⟩ :=
    compiler.render_follow template request memory
  have hending := Report.ending_of_outcome template
    (compiler.follow (between taken)
      (compiler.start template request memory))
  rw [← hreport, hfailed] at hending
  have hsome := compiler.exists_dialectal_of_failed hbase
    htakes.isPrefix_of_cons hending
  obtain ⟨earlier, literal, directive, later, before, last, hdrain, hliteral,
    hearlier, hfirst, hbefore, hlast⟩ := Lexer.firstDialectal hsome
  obtain ⟨quiet, occasion, rest, hwhole, hcut, hdirective, hquiet⟩ :=
    compiler.config.effects_firstDialectal template.name later hearlier
      hliteral hfirst.dialectal hlast
  obtain ⟨short, hshort, hreported⟩ :=
    compiler.render_follow (template.setSource before) request memory
  rw [hdrain, hwhole] at htakes
  -- The shorter source makes the pass start alike: only its spans differ.
  change compiler.Takes (compiler.start template request memory)
    (.ask .head :: compiler.config.effects template.name false
      (Lexer.ofSource before).drain) _ at hshort
  change compiler.render (template.setSource before) request memory =
    .ofPart (template.setSource before) (compiler.follow (between short)
      (compiler.start template request memory)) at hreported
  rw [hbefore, hcut] at hshort
  obtain ⟨mid, hlong, hmid⟩ := compiler.follow_firstDialectal hbase hquiet
    hdirective htakes hending hshort
  have hnosink := compiler.sink_follow (between short)
    (compiler.start template request memory)
  rw [hmid] at hnosink hreported
  rw [hlong] at hreport
  exact ⟨directive, before, occasion, mid, hfirst,
    hnosink.trans (congrArg (Option.map _) hsink), hreport, hreported⟩

/-- Without handlers and without a sink, a directive that ends a pass leaves
exactly the page of the source before its marker; and under the policy that
scans to the end, only a source without such a directive gives a page. -/
theorem Compiler.abort_leaves_page_before (compiler : Compiler μ)
    (template : Template) (request : Request σ) (memory : μ)
    (hbase : compiler.dialect = .base) (hsink : request.sink = none) :
    (∀ fault,
      (compiler.render template request memory).outcome = .failed fault →
      ∃ directive before,
        FirstDialectal template.source directive before ∧
        fault =
          .unimplementedDirective directive.token directive.line ∧
        (compiler.render (template.setSource before) request
          memory).outcome =
            .page (compiler.render template request memory).template.output ∧
        (compiler.render template request memory).SamePage
          (compiler.render (template.setSource before) request memory)) ∧
    (compiler.config.exitPolicy = .suppressOutput →
      ∀ text,
      (compiler.render template request memory).outcome = .page text →
      ∀ lexeme ∈ (Lexer.ofSource template.source).drain,
        lexeme.token.isDialectal = false) := by
  constructor
  · intro fault hfailed
    obtain ⟨directive, before, occasion, mid, hfirst, hnosink, hreport,
      hreported⟩ := compiler.render_of_failed hbase hsink hfailed
    rw [Report.ofPart_done _ (by exact hnosink)] at hreported
    rw [hreport] at hfailed
    refine ⟨directive, before, hfirst, ?_, ?_, ?_⟩
    · exact (Outcome.failed.inj hfailed).symm
    · rw [hreported, hreport]
      rfl
    · rw [hreported, hreport]
      refine ⟨rfl, rfl, ?_, rfl⟩
      simp only [Report.ofPart, Pass.note, calls_concat_asked]
  · intro hpolicy text hpage
    obtain ⟨taken, htakes, hreport⟩ :=
      compiler.render_follow template request memory
    have hending := Report.ending_of_outcome template
      (compiler.follow (between taken)
        (compiler.start template request memory))
    rw [← hreport, hpage] at hending
    exact compiler.not_dialectal_of_done hbase hpolicy htakes hending

end

namespace AbortedPassWitness

/-- Every script writes itself and then fails. -/
def evaluator : Evaluator Unit := fun code _ =>
  .append code (.fail (.message "no"))

def compiler : Compiler Unit where
  evaluator := evaluator
  config := { swallowCommentLineBreak := true }

/-- A comment asks for a line break, and the text after it ends like a
marker. -/
def template : Template :=
  .named ⟨"", 0⟩ "page" "a\n%\x7bs\x7d%*\x7bc\x7d*\n@#\x7bt/\x7d$\x7bx\x7d"

def report : Report Unit BoundedSink := compiler.render template {} ()

theorem page_before :
    report.outcome = .failed (.unimplementedDirective .startTag 3) ∧
    report.template.output = "a\ns@" ∧
    report.faults = [.evaluation "page" 2 (.message "no")] ∧
    (∃ directive before, FirstDialectal template.source directive before ∧
      (compiler.render (template.setSource before)
        ({} : Request BoundedSink) ()).outcome = .page "a\ns@" ∧
      (compiler.render (template.setSource before)
        ({} : Request BoundedSink) ()).faults =
          [.evaluation "page" 2 (.message "no")]) ∧
    ∀ lexeme ∈ (Lexer.ofSource "a%\x7bs\x7d%").drain,
      lexeme.token.isDialectal = false := by
  have houtcome : report.outcome =
      .failed (.unimplementedDirective .startTag 3) := by decide +kernel
  have houtput : report.template.output = "a\ns@" := by decide +kernel
  have hfaults : report.faults =
      [.evaluation "page" 2 (.message "no")] := by decide +kernel
  have hleaves := fun template => compiler.abort_leaves_page_before template
    ({} : Request BoundedSink) () rfl rfl
  refine ⟨houtcome, houtput, hfaults, ?_, ?_⟩
  · obtain ⟨directive, before, hfirst, _, hpage, hsame⟩ :=
      (hleaves template).1 _ houtcome
    refine ⟨directive, before, hfirst, ?_, ?_⟩
    · rw [hpage, ← houtput]
      rfl
    · exact hsame.faults.symm.trans hfaults
  · exact (hleaves (.named ⟨"", 0⟩ "page" "a%\x7bs\x7d%")).2 rfl "as"
      (by decide +kernel)

end AbortedPassWitness

end Stencil
