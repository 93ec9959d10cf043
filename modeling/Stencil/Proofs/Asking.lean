/-
The spans that make a pass ask its dialect.  The engine has a meaning of its
own for text, scripts and comments; for every other directive it asks, once
and with that directive, in the order of the source.
-/
import Stencil.Proofs.PassFold

namespace Stencil

/-- The kinds of directive that only a dialect gives a meaning. -/
def Token.isDialectal : Token → Bool
  | .expr | .startTag | .endTag | .message | .action | .absAction => true
  | .eof | .plain | .script | .comment => false

/-- The directive that an occasion is about; the two hooks are about none. -/
def Occasion.directive? : Occasion → Option Directive
  | .expr directive | .message directive | .action directive _
  | .startTag directive | .endTag directive => some directive
  | .head | .finish => none

/-- The directive that an effect asks about. -/
def Effect.directive? : Effect → Option Directive
  | .ask occasion => occasion.directive?
  | .literal _ | .evaluate .. => none

/-- The effect of a span asks about its directive if that is left to the
dialect, and about none otherwise. -/
theorem Config.directive?_effect? (config : Config) (template : String)
    (afterComment : Bool) (lexeme : Lexeme) :
    (config.effect? template afterComment lexeme).bind Effect.directive? =
      if lexeme.token.isDialectal then some lexeme.directive else none := by
  unfold effect?
  cases htoken : lexeme.token with
  | plain =>
      dsimp only
      split <;> rfl
  | eof | script | comment => rfl
  | expr | startTag | endTag | message | action | absAction => rfl

/-- A pass asks about the directives that are left to the dialect, in the
order of the source. -/
theorem Config.directives_effects (config : Config) (template : String)
    (afterComment : Bool) (lexemes : List Lexeme) :
    (config.effects template afterComment lexemes).filterMap
        Effect.directive? =
      (lexemes.filter (·.token.isDialectal)).map Lexeme.directive := by
  induction lexemes generalizing afterComment with
  | nil => rfl
  | cons lexeme rest ih =>
      have hfirst := config.directive?_effect? template afterComment lexeme
      rw [effects, List.filterMap_append, ih, List.filter_cons]
      cases hdialectal : lexeme.token.isDialectal with
      | true =>
          rw [hdialectal, if_pos rfl, Option.bind_eq_some_iff] at hfirst
          obtain ⟨effect, heffect, hdirective⟩ := hfirst
          simp [heffect, hdirective]
      | false =>
          rw [hdialectal] at hfirst
          cases heffect : config.effect? template afterComment lexeme with
          | none => rfl
          | some effect =>
              rw [heffect] at hfirst
              have hnone : effect.directive? = none := hfirst
              simp [hnone]

/-- The two hooks are about no directive. -/
theorem directives_between (taken : List Effect) :
    (between taken).filterMap Effect.directive? =
      taken.filterMap Effect.directive? := by
  have hhead : (Effect.ask .head).directive? = none := rfl
  have hfinish : (Effect.ask .finish).directive? = none := rfl
  simp [between, hhead, hfinish]

/-- The directives that a pass asks about are the first ones of its source
that are left to the dialect. -/
theorem Compiler.directives_of_takes {μ σ : Type} [Sink σ]
    (compiler : Compiler μ) {name : String} {lexemes : List Lexeme}
    {start : Pass μ σ} {taken done : List Effect}
    (htakes : compiler.Takes start
      (.ask .head :: compiler.config.effects name false lexemes)
      (.ask .head :: taken))
    (hdone : done <+: between taken) :
    done.filterMap Effect.directive? <+:
      (lexemes.filter (·.token.isDialectal)).map Lexeme.directive := by
  rw [← compiler.config.directives_effects name false lexemes]
  exact (directives_between taken ▸ hdone.filterMap Effect.directive?).trans
    (htakes.isPrefix_of_cons.filterMap _)

end Stencil
