/-
A comment takes away the line break right after it.  Of a literal text that
stands right after a comment the page is given all but the line break at its
beginning, if such breaks are swallowed; of every other one it is given all,
whatever went on before it.
-/
import Stencil.Proofs.AbortedPass
import Stencil.Proofs.Taking

namespace Stencil

/-- The texts that end a line. -/
def lineEnds : List String := ["\r\n", "\n"]

/-- What the page is given of a literal text, by the kind of the span right
before it. -/
structure Config.Hands (config : Config) (previous : Option Token)
    (text handed : String) : Prop where
  shortened : config.swallowCommentLineBreak = true →
    previous = some .comment →
    ∀ ending ∈ lineEnds, ∀ rest, text = ending ++ rest → handed = rest
  whole : ¬ (config.swallowCommentLineBreak = true ∧
      previous = some .comment ∧
      ∃ ending ∈ lineEnds, ∃ rest, text = ending ++ rest) →
    handed = text

/-- The literal texts among spans, each with the kind of the span right before
it. -/
def literalSpans (previous : Option Token) :
    List Lexeme → List (Option Token × String)
  | [] => []
  | lexeme :: rest =>
      (if lexeme.token = .plain then [(previous, lexeme.text)] else []) ++
        literalSpans (some lexeme.token) rest

def Effect.literal? : Effect → Option String
  | .literal text => some text
  | .evaluate .. | .ask _ => none

/-- The texts that effects give to the page. -/
def literals (effects : List Effect) : List String :=
  effects.filterMap Effect.literal?

theorem literals_between (taken : List Effect) :
    literals (between taken) = literals taken := by
  have hhead : (Effect.ask .head).literal? = none := rfl
  have hfinish : (Effect.ask .finish).literal? = none := rfl
  simp [literals, between, hhead, hfinish]

theorem dropLineBreak_append {ending : String} (hending : ending ∈ lineEnds)
    (rest : String) : dropLineBreak (ending ++ rest) = rest := by
  have hhead := fun ending => (@afterHead?_eq_some_iff ending _ rest).mpr rfl
  rcases List.mem_pair.mp hending with rfl | rfl
  · rw [dropLineBreak, hhead]
  · have hother : afterHead? "\r\n" ("\n" ++ rest) = none := by
      simp [afterHead?]
    rw [dropLineBreak, hother, hhead]
    rfl

theorem dropLineBreak_of_not {text : String}
    (hnone : ¬ ∃ ending ∈ lineEnds, ∃ rest, text = ending ++ rest) :
    dropLineBreak text = text := by
  have hhead : ∀ ending ∈ lineEnds, afterHead? ending text = none := by
    intro ending hending
    rw [Option.eq_none_iff_forall_not_mem]
    intro rest hrest
    exact hnone ⟨ending, hending, rest, afterHead?_eq_some_iff.mp hrest⟩
  rw [dropLineBreak, hhead "\r\n" (by decide), hhead "\n" (by decide)]
  rfl

/-- The text that a literal span calls for is the one that is handed over. -/
theorem Config.hands_effect? (config : Config) (template : String)
    (previous : Option Token) {lexeme : Lexeme}
    (hplain : lexeme.token = .plain) :
    ∃ handed, config.effect? template (previous == some .comment) lexeme =
        some (.literal handed) ∧
      config.Hands previous lexeme.text handed := by
  by_cases hshort : previous = some .comment ∧
      config.swallowCommentLineBreak = true
  · refine ⟨dropLineBreak lexeme.text, by simp [effect?, hplain, hshort],
      ?_, ?_⟩
    · rintro - - ending hending rest htext
      rw [htext, dropLineBreak_append hending]
    · intro hnot
      exact dropLineBreak_of_not fun hending =>
        hnot ⟨hshort.2, hshort.1, hending⟩
  · refine ⟨lexeme.text, by simp [effect?, hplain, hshort], ?_, fun _ => rfl⟩
    intro hset hprevious
    exact absurd ⟨hprevious, hset⟩ hshort

/-- Other spans call for no literal text. -/
theorem Config.literal?_effect? (config : Config) (template : String)
    (afterComment : Bool) {lexeme : Lexeme}
    (hother : lexeme.token ≠ .plain) :
    literals (config.effect? template afterComment lexeme).toList = [] := by
  unfold effect?
  cases htoken : lexeme.token with
  | plain => exact absurd htoken hother
  | eof | comment | script | expr | message | action | absAction | startTag
  | endTag => rfl

/-- Whether a break is taken away is said by the span right before alone. -/
theorem Config.hands_effects (config : Config) (template : String)
    (previous : Option Token) (lexemes : List Lexeme) :
    List.Forall₂ (fun span => config.Hands span.1 span.2)
      (literalSpans previous lexemes)
      (literals (config.effects template (previous == some .comment)
        lexemes)) := by
  induction lexemes generalizing previous with
  | nil => exact .nil
  | cons lexeme rest ih =>
      have hrest := ih (some lexeme.token)
      rw [literalSpans, effects, literals, List.filterMap_append, ← literals]
      by_cases hplain : lexeme.token = .plain
      · obtain ⟨handed, heffect, hhands⟩ :=
          config.hands_effect? template previous hplain
        rw [if_pos hplain, heffect]
        exact .cons hhands hrest
      · rw [if_neg hplain, config.literal?_effect? template _ hplain]
        exact hrest

/-- The page with this output, without an open tag or a requested exit. -/
structure Page.Printed (page : Page) (output : String) : Prop where
  output : page.output = output
  bodies : page.bodies = []
  exiting : page.exiting = false
  exited : page.exited = false

theorem Page.Printed.plain {page : Page} {output : String}
    (hprinted : page.Printed output) (text : String) :
    (page.plain text).Printed (output ++ text) := by
  have hplain : page.plain text = page.push text := by
    simp [Page.plain, print, unlessExited, checkExit, hprinted.bodies,
      hprinted.exiting, hprinted.exited]
  rw [hplain, push_eq]
  exact ⟨congrArg (· ++ text) hprinted.output, hprinted.bodies,
    hprinted.exiting, hprinted.exited⟩

variable {μ σ : Type} [Sink σ]

/-- Literal texts end up on the page one after the other. -/
theorem Compiler.follow_literals (compiler : Compiler μ) (texts : List String)
    {pass : Pass μ σ} {output : String}
    (hprinted : pass.host.page.Printed output) :
    ∃ last, compiler.follow (texts.map .literal) pass = (.done, last) ∧
      last.host.page.Printed (output ++ String.join texts) := by
  induction texts generalizing pass output with
  | nil => exact ⟨pass, rfl, by simpa using hprinted⟩
  | cons text rest ih =>
      obtain ⟨last, hlast, houtput⟩ := @ih
        ({ pass with
          host := { pass.host with page := pass.host.page.plain text } }.note
            (.literal text)) _ (hprinted.plain text)
      refine ⟨last, ?_, ?_⟩
      · rw [List.map_cons, follow_cons]
        exact hlast
      · rwa [String.join_cons, ← String.append_assoc]

/-- How a pass that takes these effects hands over these literal texts. -/
structure Compiler.HandsOver (compiler : Compiler μ) (template : Template)
    (request : Request σ) (memory : μ) (taken : List Effect)
    (spans : List (Option Token × String)) : Prop where
  report : compiler.render template request memory =
    .ofPart template (compiler.follow (between taken)
      (compiler.start template request memory))
  inOrder : spans <+:
    literalSpans none (Lexer.ofSource template.source).drain
  handed : List.Forall₂ (fun span => compiler.config.Hands span.1 span.2)
    spans
    (literals (journal (compiler.render template request memory).events))
  /-- A page is given all of them, unless an exit stops the scan. -/
  all : ∀ text,
    (compiler.render template request memory).outcome = .page text →
    spans = literalSpans none (Lexer.ofSource template.source).drain ∨
      compiler.ExitsAfter (compiler.start template request memory)
        (.ask .head :: taken)
  /-- Each is literal text for the page that there is then. -/
  plain : ∀ earlier text later,
    (compiler.render template request memory).events =
      earlier ++ .literal text :: later →
    ∃ before rest,
      between taken = journal earlier ++ .literal text :: rest ∧
      compiler.follow (journal earlier)
        (compiler.start template request memory) = (.done, before) ∧
      compiler.follow (between taken)
          (compiler.start template request memory) =
        compiler.follow rest
          ({ before with
            host := { before.host with
              page := before.host.page.plain text } }.note (.literal text))

/-- The literal texts that effects are begun with are those of the first
literal spans. -/
theorem Config.hands_of_isPrefix (config : Config) (template : String)
    (lexemes : List Lexeme) {texts : List String}
    (htexts : texts <+: literals (config.effects template false lexemes)) :
    List.Forall₂ (fun span => config.Hands span.1 span.2)
      ((literalSpans none lexemes).take texts.length) texts := by
  have hall : List.Forall₂ (fun span => config.Hands span.1 span.2)
      ((literalSpans none lexemes).take texts.length)
      ((literals (config.effects template false lexemes)).take texts.length) :=
    List.forall₂_take _ (config.hands_effects template none lexemes)
  rwa [← List.prefix_iff_eq_take.mp htexts] at hall

section

variable {compiler : Compiler μ} {template : Template} {request : Request σ}
  {memory : μ} {taken : List Effect}

/-- A pass writes no literal texts but those that its spans call for, in their
order. -/
theorem Compiler.literals_render_isPrefix
    (htakes : compiler.Takes (compiler.start template request memory)
      (.ask .head :: compiler.config.effects template.name false
        (Lexer.ofSource template.source).drain) (.ask .head :: taken))
    (hreport : compiler.render template request memory =
      .ofPart template (compiler.follow (between taken)
        (compiler.start template request memory))) :
    literals (journal (compiler.render template request memory).events) <+:
      literals (compiler.config.effects template.name false
        (Lexer.ofSource template.source).drain) := by
  have hwritten := (journal_render_isPrefix hreport).filterMap Effect.literal?
  refine List.IsPrefix.trans ?_
    (htakes.isPrefix_of_cons.filterMap Effect.literal?)
  rwa [← literals, ← literals, literals_between] at hwritten

/-- A pass that ends with a page has written the literal texts of all that it
takes. -/
theorem Compiler.literals_render_of_page
    (hreport : compiler.render template request memory =
      .ofPart template (compiler.follow (between taken)
        (compiler.start template request memory)))
    {text : String}
    (hpage : (compiler.render template request memory).outcome = .page text) :
    literals (journal (compiler.render template request memory).events) =
      literals taken := by
  have hdone := Report.ending_of_outcome template
    (compiler.follow (between taken)
      (compiler.start template request memory))
  rw [← hreport, hpage] at hdone
  rw [events_render hreport, compiler.journal_follow _ _ hdone]
  exact literals_between taken

/-- A literal text that a pass writes is text for the page that there is after
all that the pass did before. -/
theorem Compiler.follow_literal_event
    (hreport : compiler.render template request memory =
      .ofPart template (compiler.follow (between taken)
        (compiler.start template request memory)))
    {earlier later : List Event} {text : String}
    (hsplit : (compiler.render template request memory).events =
      earlier ++ .literal text :: later) :
    ∃ before rest,
      between taken = journal earlier ++ .literal text :: rest ∧
      compiler.follow (journal earlier)
        (compiler.start template request memory) = (.done, before) ∧
      compiler.follow (between taken)
          (compiler.start template request memory) =
        compiler.follow rest
          ({ before with
            host := { before.host with
              page := before.host.page.plain text } }.note
                (.literal text)) := by
  obtain ⟨before, hbefore, -⟩ := compiler.follow_event
    ((events_render hreport).symm.trans hsplit)
  obtain ⟨rest, hrest⟩ := journal_render_isPrefix hreport
  rw [hsplit, journal, List.map_append, List.map_cons, ← journal,
    List.append_assoc, List.cons_append] at hrest
  refine ⟨before, _, hrest.symm, hbefore, ?_⟩
  rw [← hrest, follow_append, hbefore, andThen_done, follow_cons]
  rfl

end

theorem Compiler.exists_handsOver (compiler : Compiler μ)
    (template : Template) (request : Request σ) (memory : μ) :
    ∃ taken spans,
      compiler.HandsOver template request memory taken spans := by
  obtain ⟨taken, htakes, hreport⟩ :=
    compiler.render_follow template request memory
  refine ⟨taken, _, hreport, List.take_prefix _ _,
    compiler.config.hands_of_isPrefix _ _
      (literals_render_isPrefix htakes hreport), ?_,
    fun _ _ _ hsplit => follow_literal_event hreport hsplit⟩
  intro text hpage
  obtain ⟨rest, hsplit, hexits⟩ := htakes.split
  by_cases hrest : rest = []
  · left
    rw [hrest, List.append_nil, List.cons.injEq] at hsplit
    have hsame := (compiler.config.hands_effects template.name none
      (Lexer.ofSource template.source).drain).length_eq
    apply List.take_of_length_le
    rw [literals_render_of_page hreport hpage, hsame, ← hsplit.2]
    exact Nat.le_refl _
  · exact Or.inr (hexits hrest)

/-- Without directives but comments, all effects are literal texts. -/
theorem Config.effects_of_comments (config : Config) (template : String)
    (afterComment : Bool) {lexemes : List Lexeme}
    (hcomments : ∀ lexeme ∈ lexemes,
      lexeme.token ∈ [.plain, .comment, .eof]) :
    (literals (config.effects template afterComment lexemes)).map .literal =
      config.effects template afterComment lexemes := by
  induction lexemes generalizing afterComment with
  | nil => rfl
  | cons lexeme rest ih =>
      obtain ⟨hfirst, hrest⟩ := List.forall_mem_cons.mp hcomments
      have hlater := ih (lexeme.token == .comment) hrest
      rw [effects, literals, List.filterMap_append, List.map_append,
        ← literals, ← literals, hlater]
      congr 1
      unfold effect?
      rcases List.mem_cons.mp hfirst with hplain | hother
      · rw [hplain]
        dsimp only
        split <;> rfl
      · rcases List.mem_pair.mp hother with hcomment | heof
        · rw [hcomment]
          rfl
        · rw [heof]
          rfl

/-- Without handlers literal texts make the page up, and nothing else does. -/
theorem Compiler.follow_literals_of_base {compiler : Compiler μ}
    (hbase : compiler.dialect = .base) (template : Template)
    (request : Request σ) (memory : μ) (texts : List String) :
    ∃ last,
      compiler.follow (.ask .head :: texts.map .literal)
        (compiler.start template request memory) = (.done, last) ∧
      last.host.page.Printed (String.join texts) := by
  have hblank : ((compiler.start template request memory).note
      (.asked .head)).host.page.Printed "" := ⟨rfl, rfl, rfl, rfl⟩
  obtain ⟨last, hlast, hprinted⟩ := compiler.follow_literals texts hblank
  refine ⟨last, ?_, by simpa using hprinted⟩
  rw [follow_cons, perform_ask, ask_of_base hbase rfl]
  exact hlast

/-- Where all directives are comments, the page is the literal texts as they
are handed over. -/
theorem Compiler.outcome_of_comments {compiler : Compiler μ}
    (hbase : compiler.dialect = .base) (template : Template)
    (request : Request σ) (memory : μ)
    (hcomments : ∀ lexeme ∈ (Lexer.ofSource template.source).drain,
      lexeme.token ∈ [.plain, .comment, .eof]) :
    (compiler.render template request memory).outcome =
      .page (String.join (literals (compiler.config.effects template.name
        false (Lexer.ofSource template.source).drain))) := by
  obtain ⟨taken, htakes, hreport⟩ :=
    compiler.render_follow template request memory
  obtain ⟨rest, hsplit, hexits⟩ := htakes.split
  have heffects := compiler.config.effects_of_comments template.name false
    hcomments
  rw [List.cons_append, List.cons.injEq] at hsplit
  generalize literals (compiler.config.effects template.name false
    (Lexer.ofSource template.source).drain) = texts at heffects ⊢
  rw [← heffects, List.map_eq_append_iff] at hsplit
  obtain ⟨-, first, second, rfl, rfl, rfl⟩ := hsplit
  obtain ⟨last, hlast, hprinted⟩ :=
    follow_literals_of_base hbase template request memory first
  -- No exit is requested, so nothing is left out.
  have hnone : second = [] := by
    by_contra hsome
    obtain ⟨pass, hpass, -, hexiting⟩ := hexits (by simpa using hsome)
    rw [hlast, Prod.mk.injEq] at hpass
    rw [← hpass.2, hprinted.exiting] at hexiting
    exact Bool.false_ne_true hexiting
  have hfinish : compiler.follow (between (first.map .literal))
      (compiler.start template request memory) =
        (.done, last.note (.asked .finish)) := by
    rw [between, ← List.cons_append, follow_append, hlast, andThen_done,
      follow_singleton, perform_ask, ask_of_base hbase rfl]
  rw [hnone, List.append_nil, hreport, hfinish, Report.ofPart]
  change Outcome.page
    (last.note (.asked .finish)).deliver.host.page.output = _
  rw [Pass.page_deliver]
  exact congrArg Outcome.page hprinted.output

theorem eq_plain_or_eof_of_gaps {next : Token} {gap : List Char}
    (hgap : gap ∈ gaps .comment next) : next = .plain ∨ next = .eof := by
  unfold gaps at hgap
  cases next with
  | plain => exact Or.inl rfl
  | eof => exact Or.inr rfl
  | script | expr | startTag | endTag | message | action | absAction
  | comment => cases hgap

theorem Lexer.next_of_comment {source : String} {earlier later : List Lexeme}
    {comment next : Lexeme}
    (hsplit : (ofSource source).drain = earlier ++ comment :: next :: later)
    (hcomment : comment.token = .comment) :
    next.token = .plain ∨ next.token = .eof := by
  have hchain := @Tiling.chain source _ [] _ _ (tiling_pieces source) rfl
  rw [← drain_ofSource, hsplit, List.isChain_append_cons_cons] at hchain
  obtain ⟨gap, hgap, -⟩ := hchain.2.1.gap
  rw [hcomment] at hgap
  exact eq_plain_or_eof_of_gaps hgap

/-- A comment takes away the line break right after it, and nothing else.
What follows it is literal text; and where a source holds nothing but comments
and text, the page is that text. -/
theorem Compiler.comment_takes_line_break (compiler : Compiler μ)
    (template : Template) (request : Request σ) (memory : μ) :
    (∀ earlier comment next later,
      (Lexer.ofSource template.source).drain =
        earlier ++ comment :: next :: later →
      comment.token = .comment →
      next.token = .plain ∨ next.token = .eof) ∧
    (∃ taken spans,
      compiler.HandsOver template request memory taken spans) ∧
    (compiler.dialect = .base →
      (∀ lexeme ∈ (Lexer.ofSource template.source).drain,
        lexeme.token ∈ [.plain, .comment, .eof]) →
      ∃ texts,
        List.Forall₂ (fun span => compiler.config.Hands span.1 span.2)
          (literalSpans none (Lexer.ofSource template.source).drain) texts ∧
        (compiler.render template request memory).outcome =
          .page (String.join texts)) := by
  refine ⟨fun _ _ _ _ hsplit hcomment => Lexer.next_of_comment hsplit hcomment,
    compiler.exists_handsOver template request memory, ?_⟩
  intro hbase hcomments
  exact ⟨_, compiler.config.hands_effects template.name none _,
    outcome_of_comments hbase template request memory hcomments⟩

namespace CommentBreaksWitness

def compiler : Compiler Unit where
  evaluator := fun _ _ => .done
  config := { swallowCommentLineBreak := true }

/-- Two line breaks after a comment, and one that no comment is before. -/
def template : Template :=
  .named ⟨"", 0⟩ "page" "a\n*\x7bc\x7d*\r\n\nb*\x7b\x7d*c*\x7bd"

def drained : List Lexeme := (Lexer.ofSource template.source).drain

/-- The last comment is not closed. -/
def comment : Lexeme := ⟨.comment, ⟨18, 19⟩, 4, "d", none⟩

def last : Lexeme := ⟨.eof, ⟨19, 19⟩, 4, "", none⟩

theorem one_break_taken :
    (compiler.render template ({} : Request BoundedSink) ()).outcome =
        .page "a\n\nbc" ∧
      drained = drained.take 5 ++ comment :: last :: [] ∧
      (last.token = .plain ∨ last.token = .eof) := by
  obtain ⟨hnext, -, hpage⟩ := compiler.comment_takes_line_break template
    ({} : Request BoundedSink) ()
  obtain ⟨texts, htexts, houtcome⟩ := hpage rfl (by decide +kernel)
  have hspans : literalSpans none (Lexer.ofSource template.source).drain =
      [(none, "a\n"), (some .comment, "\r\n" ++ "\nb"),
        (some .comment, "c")] := by decide +kernel
  rw [hspans] at htexts
  obtain _ | ⟨hfirst, _ | ⟨hsecond, _ | ⟨hthird, _ | _⟩⟩⟩ := htexts
  have hbreakless : ∀ ending ∈ lineEnds, afterHead? ending "c" = none := by
    decide +kernel
  have hwhole := hthird.whole fun hbreak => by
    obtain ⟨-, -, ending, hending, rest, htext⟩ := hbreak
    have hrest := afterHead?_eq_some_iff.mpr htext
    rw [hbreakless ending hending] at hrest
    cases hrest
  rw [houtcome, hfirst.whole (by simp), hwhole,
    hsecond.shortened rfl rfl "\r\n" (by decide) "\nb" rfl]
  have hsplit : drained = drained.take 5 ++ comment :: last :: [] := by
    decide +kernel
  exact ⟨by decide +kernel, hsplit, hnext _ comment last [] hsplit rfl⟩

end CommentBreaksWitness

end Stencil
