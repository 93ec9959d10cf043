/-
Two passes side by side.  What the hooks and the single spans keep between two
passes over one source, whole passes keep, and the two end in the same way.
-/
import Stencil.Compiler

namespace Stencil

variable {μ ν σ τ : Type} {relation : Pass μ σ → Pass ν τ → Prop}

/-- Parts of two passes that end in the same way, and leave them related. -/
structure Together (relation : Pass μ σ → Pass ν τ → Prop)
    (first : Ending × Pass μ σ) (second : Ending × Pass ν τ) : Prop where
  ending : first.1 = second.1
  passes : relation first.2 second.2

theorem Together.andThen {first : Ending × Pass μ σ}
    {second : Ending × Pass ν τ} (hparts : Together relation first second)
    {next : Pass μ σ → Ending × Pass μ σ}
    {other : Pass ν τ → Ending × Pass ν τ}
    (hnext : ∀ {left right}, relation left right →
      Together relation (next left) (other right)) :
    Together relation (Stencil.andThen first next)
      (Stencil.andThen second other) := by
  obtain ⟨ending, left⟩ := first
  obtain ⟨ending', right⟩ := second
  obtain ⟨hending, hpasses⟩ := hparts
  cases hending
  cases ending with
  | done => exact hnext hpasses
  | failed fault => exact ⟨rfl, hpasses⟩
  | stuck => exact ⟨rfl, hpasses⟩

variable [Sink σ] [Sink τ]

/-- A relation between passes that every single thing two compilers do
keeps. -/
structure Compiler.Lockstep (first : Compiler μ) (second : Compiler ν)
    (relation : Pass μ σ → Pass ν τ → Prop) : Prop where
  stops : ∀ {left right}, relation left right →
    first.stopsAt left = second.stopsAt right
  ask : ∀ occasion {left right}, relation left right →
    Together relation (first.ask occasion left) (second.ask occasion right)
  literal : ∀ text {left right}, relation left right →
    relation (first.literal text left) (second.literal text right)
  script : ∀ lexeme {left right}, relation left right →
    Together relation (first.script lexeme left) (second.script lexeme right)
  comment : ∀ {left right}, relation left right →
    relation { left with afterComment := true }
      { right with afterComment := true }

variable {first : Compiler μ} {second : Compiler ν}

theorem Compiler.Lockstep.dispatch
    (hstep : Compiler.Lockstep first second relation) (lexeme : Lexeme)
    {left : Pass μ σ} {right : Pass ν τ} (hrelated : relation left right) :
    Together relation (first.dispatch lexeme left)
      (second.dispatch lexeme right) := by
  unfold Compiler.dispatch
  split
  · exact ⟨rfl, hstep.literal lexeme.text hrelated⟩
  · exact hstep.script lexeme hrelated
  · exact ⟨rfl, hstep.comment hrelated⟩
  · split
    · exact hstep.ask _ hrelated
    · exact ⟨rfl, hrelated⟩

theorem Compiler.Lockstep.scan
    (hstep : Compiler.Lockstep first second relation) (lexer : Lexer)
    {left : Pass μ σ} {right : Pass ν τ} (hrelated : relation left right) :
    Together relation (first.scan lexer left) (second.scan lexer right) := by
  rw [Compiler.scan, Compiler.scan, hstep.stops hrelated]
  split
  · exact ⟨rfl, hrelated⟩
  · split
    · exact ⟨rfl, hrelated⟩
    · rename_i hmore
      have hlt := lexer.next_remaining_lt hmore
      exact (hstep.dispatch (lexer.next.2.lexeme lexer.next.1)
        hrelated).andThen fun hlater => hstep.scan lexer.next.2 hlater
termination_by lexer.remaining

theorem Compiler.Lockstep.run
    (hstep : Compiler.Lockstep first second relation) (lexer : Lexer)
    {left : Pass μ σ} {right : Pass ν τ} (hrelated : relation left right) :
    Together relation (first.run lexer left) (second.run lexer right) :=
  (hstep.ask .head hrelated).andThen fun hheaded =>
    (hstep.scan lexer hheaded).andThen fun hscanned =>
      hstep.ask .finish hscanned

end Stencil
