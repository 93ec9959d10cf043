/-
What a pass takes of the effects that its source calls for is settled by these
effects and by its start.  The events that it leaves are of the first effects
that it takes.
-/
import Stencil.Proofs.Journal
import Stencil.Proofs.PassFold

namespace Stencil

variable {μ σ : Type} [Sink σ] {compiler : Compiler μ} {start : Pass μ σ}
  {effects taken other : List Effect}

/-- Of two scans of the same effects none stops within what the other takes. -/
theorem Compiler.Takes.unique (htakes : compiler.Takes start effects taken)
    (hother : compiler.Takes start effects other) : taken = other := by
  obtain ⟨rest, hsplit, hexits⟩ := htakes.split
  obtain ⟨left, hleft, hleaves⟩ := hother.split
  rcases List.append_eq_append_iff.mp (hsplit.symm.trans hleft) with
    ⟨more, rfl, rfl⟩ | ⟨more, rfl, rfl⟩
  · by_cases hmore : more = []
    · rw [hmore, List.append_nil]
    · exact absurd (hexits (by simp [hmore])) (hother.first _ _ rfl hmore)
  · by_cases hmore : more = []
    · rw [hmore, List.append_nil]
    · exact absurd (hleaves (by simp [hmore])) (htakes.first _ _ rfl hmore)

/-- Later effects only add events. -/
theorem Compiler.events_isPrefix (compiler : Compiler μ)
    (earlier later : List Effect) (pass : Pass μ σ) :
    (compiler.follow earlier pass).2.events <+:
      (compiler.follow (earlier ++ later) pass).2.events := by
  rw [follow_append]
  by_cases hdone : (compiler.follow earlier pass).1 = .done
  · obtain ⟨next, hnext⟩ := exists_of_done hdone
    obtain ⟨events, -, -, hevents, -⟩ := compiler.follow_noted later next
    rw [hnext, andThen_done, hevents]
    exact List.prefix_append _ _
  · have hsame := andThen_of_ne_done hdone (compiler.follow later)
    exact hsame.symm ▸ List.prefix_rfl

variable {template : Template} {request : Request σ} {memory : μ}

theorem Compiler.events_render
    (hreport : compiler.render template request memory =
      .ofPart template (compiler.follow (between taken)
        (compiler.start template request memory))) :
    (compiler.render template request memory).events =
      (compiler.follow (between taken)
        (compiler.start template request memory)).2.events := by
  rw [hreport, Report.events_ofPart]

theorem Compiler.journal_render_isPrefix
    (hreport : compiler.render template request memory =
      .ofPart template (compiler.follow (between taken)
        (compiler.start template request memory))) :
    journal (compiler.render template request memory).events <+:
      between taken := by
  obtain ⟨events, hjournal, -, hevents, -⟩ := compiler.follow_noted
    (between taken) (compiler.start template request memory)
  rw [events_render hreport, hevents]
  exact hjournal

end Stencil
