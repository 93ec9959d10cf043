/-
What the page operations keep, every pass keeps.  Scripts and handlers reach
the page through its operations only, and so does the scan; a property of the
blank page that each operation keeps is one of every page that a pass leaves.
-/
import Stencil.Proofs.PageRuns

namespace Stencil

/-- Each operation on a page keeps a property. -/
def Page.Keeps (property : Page → Prop) : Prop :=
  ∀ page op, property page → property (page.apply op).2

/-- The operations that mark an output line or discard all marks. -/
def PageOp.isMarking : PageOp → Bool
  | .markLine _ | .clear => true
  | .print _ | .println _ | .printForced _ | .plain _ | .plainLine _
  | .openTag | .closeTag | .requestExit => false

/-- What a property has to survive for the operations that mark nothing to
keep it: the few changes that these operations are made of. -/
structure Page.Steady (property : Page → Prop) : Prop where
  put : ∀ page char, property page → property (page.put char)
  bodies : ∀ page bodies, property page →
    property { page with bodies := bodies }
  request : ∀ page, property page → property { page with exiting := true }
  notice : ∀ page, page.exiting = true → property page →
    property { page with exited := true }

/-- What a property has to survive for every operation to keep it. -/
structure Page.Stable (property : Page → Prop) : Prop
    extends Page.Steady property where
  mark : ∀ page source, property page →
    property (page.push (page.lineMarker ++ toString source)) →
    property { page.push (page.lineMarker ++ toString source) with
      pendingMark := some source }
  clear : ∀ page, property page → property
    { page with output := "", line := 0, pendingMark := none, lineMap := [] }

variable {μ σ : Type} {property : Page → Prop}

theorem Page.Steady.push (hsteady : Page.Steady property) {page : Page}
    (hpage : property page) (text : String) : property (page.push text) := by
  rw [Page.push]
  induction text.toList generalizing page with
  | nil => exact hpage
  | cons char rest ih => exact ih (hsteady.put page char hpage)

theorem Page.Steady.checkExit (hsteady : Page.Steady property) {page : Page}
    (hpage : property page) : property page.checkExit := by
  rw [Page.checkExit]
  split
  · rename_i hexiting
    exact hsteady.notice page hexiting hpage
  · exact hpage

theorem Page.Steady.unlessExited (hsteady : Page.Steady property)
    {page : Page} (hpage : property page) {change : Page → Page}
    (hchange : ∀ page, property page → property (change page)) :
    property (page.unlessExited change) := by
  simp only [Page.unlessExited]
  split
  · exact hsteady.checkExit hpage
  · exact hchange _ (hsteady.checkExit hpage)

theorem Page.Steady.print (hsteady : Page.Steady property) {page : Page}
    (hpage : property page) (text : String) : property (page.print text) :=
  hsteady.unlessExited hpage fun _ hpage => hsteady.push hpage text

theorem Page.Steady.println (hsteady : Page.Steady property) {page : Page}
    (hpage : property page) (text : String) : property (page.println text) :=
  hsteady.unlessExited hpage fun _ hpage =>
    hsteady.push (hsteady.push hpage text) "\n"

theorem Page.Steady.capture (hsteady : Page.Steady property) {page : Page}
    (hpage : property page) (text : String) :
    property (page.capture text) := by
  rw [Page.capture]
  split
  · exact hpage
  · split
    · exact hpage
    · exact hsteady.bodies page _ hpage

/-- A property that survives the changes is kept by every operation that marks
nothing. -/
theorem Page.Steady.apply (hsteady : Page.Steady property) {page : Page}
    (hpage : property page) {op : PageOp} (hop : op.isMarking = false) :
    property (page.apply op).2 := by
  cases op with
  | print text => exact hsteady.print hpage text
  | println text => exact hsteady.println hpage text
  | printForced text => exact hsteady.checkExit (hsteady.push hpage text)
  | plain text =>
      simp only [Page.apply, Page.plain]
      split
      · exact hsteady.print hpage text
      · exact hsteady.capture hpage text
  | plainLine text =>
      simp only [Page.apply, Page.plainLine]
      split
      · exact hsteady.println hpage text
      · exact hsteady.capture (hsteady.capture hpage text) "\n"
  | openTag => exact hsteady.bodies page _ hpage
  | closeTag =>
      simp only [Page.apply, Page.closeTag]
      split
      · exact hpage
      · exact hsteady.bodies page _ hpage
  | requestExit => exact hsteady.request page hpage
  | markLine | clear => cases hop

theorem Page.Stable.keeps (hstable : Page.Stable property) :
    Page.Keeps property := by
  intro page op hpage
  cases op with
  | markLine source =>
      exact hstable.unlessExited hpage fun page hpage =>
        hstable.mark page source hpage (hstable.push hpage _)
  | clear =>
      exact hstable.unlessExited hpage fun page hpage =>
        hstable.clear page hpage
  | print | println | printForced | plain | plainLine | openTag | closeTag
  | requestExit => exact hstable.apply hpage rfl

theorem Page.Keeps.applyAll (hkeeps : Page.Keeps property) {page : Page}
    (hpage : property page) (ops : List PageOp) :
    property (page.applyAll ops) := by
  induction ops generalizing page with
  | nil => exact hpage
  | cons op rest ih => exact ih (hkeeps page op hpage)

theorem Page.Keeps.handler (hkeeps : Page.Keeps property)
    (handler : Handler μ) (host : Host μ σ) (hpage : property host.page) :
    property (handler.run host).2.page := by
  rw [handler.page_run]
  exact hkeeps.applyAll hpage _

theorem Page.Keeps.ask (hkeeps : Page.Keeps property)
    (compiler : Compiler μ) (occasion : Occasion) (pass : Pass μ σ)
    (hpage : property pass.host.page) :
    property (compiler.ask occasion pass).2.host.page := by
  rw [compiler.host_ask]
  exact hkeeps.handler _ pass.host hpage

theorem Page.Keeps.literal (hkeeps : Page.Keeps property)
    (compiler : Compiler μ) (text : String) (pass : Pass μ σ)
    (hpage : property pass.host.page) :
    property (compiler.literal text pass).host.page :=
  hkeeps pass.host.page (.plain _) hpage

theorem andThen_page (part : Ending × Pass μ σ)
    {next : Pass μ σ → Ending × Pass μ σ}
    (hnext : ∀ pass : Pass μ σ, property pass.host.page →
      property (next pass).2.host.page)
    (hpage : property part.2.host.page) :
    property (andThen part next).2.host.page := by
  rcases part with ⟨_ | fault | _, pass⟩
  · exact hnext pass hpage
  · exact hpage
  · exact hpage

variable [Sink σ]

theorem Page.Keeps.script (hkeeps : Page.Keeps property)
    (limit : Option Nat) (script : Script μ) (waited : Nat)
    (host : Host μ σ) (hpage : property host.page) :
    property (script.run limit waited host).2.page := by
  rw [script.page_run]
  exact hkeeps.applyAll hpage _

theorem Page.Keeps.dispatch (hkeeps : Page.Keeps property)
    (compiler : Compiler μ) (lexeme : Lexeme) (pass : Pass μ σ)
    (hpage : property pass.host.page) :
    property (compiler.dispatch lexeme pass).2.host.page := by
  unfold Compiler.dispatch
  split
  · exact hkeeps.literal compiler lexeme.text pass hpage
  · have hscript := hkeeps.script compiler.config.scriptTimeoutMs
      (compiler.evaluator
        (scriptBody compiler.config.stripScriptTags lexeme.text)
        ⟨pass.template, lexeme.line, pass.host.page.scope⟩) 0 pass.host hpage
    simp only [Compiler.script, Pass.note]
    split
    · exact hscript
    · rw [Pass.host_report]
      exact hscript
    · rw [Pass.host_report]
      exact hscript
    · exact hscript
  · exact hpage
  · split
    · exact hkeeps.ask compiler _ pass hpage
    · exact hpage

theorem Page.Keeps.scan (hkeeps : Page.Keeps property)
    (compiler : Compiler μ) (lexer : Lexer) (pass : Pass μ σ)
    (hpage : property pass.host.page) :
    property (compiler.scan lexer pass).2.host.page := by
  rw [Compiler.scan]
  split
  · exact hpage
  · split
    · exact hpage
    · rename_i hmore
      have hlt := lexer.next_remaining_lt hmore
      have hdispatch := hkeeps.dispatch compiler
        (lexer.next.2.lexeme lexer.next.1) pass hpage
      split
      · rename_i later hdone
        rw [hdone] at hdispatch
        exact hkeeps.scan compiler lexer.next.2 later hdispatch
      · exact hdispatch
termination_by lexer.remaining

theorem Page.Keeps.run (hkeeps : Page.Keeps property)
    (compiler : Compiler μ) (lexer : Lexer) (pass : Pass μ σ)
    (hpage : property pass.host.page) :
    property (compiler.run lexer pass).2.host.page := by
  refine andThen_page _ ?_ (hkeeps.ask compiler .head pass hpage)
  intro headed hheaded
  refine andThen_page _ ?_ (hkeeps.scan compiler lexer headed hheaded)
  intro scanned hscanned
  exact hkeeps.ask compiler .finish scanned hscanned

/-- A pass that ends keeps with the template a page that has the property. -/
theorem Page.Keeps.render (hkeeps : Page.Keeps property)
    (compiler : Compiler μ) (template : Template) (request : Request σ)
    (memory : μ)
    (hblank : property (.blank compiler.scope compiler.config.lineMarker))
    (hends : (compiler.render template request memory).outcome ≠ .stuck) :
    ∃ page, property page ∧
      (compiler.render template request memory).template =
        template.withPage page := by
  have hrun := hkeeps.run compiler (.ofSource template.source)
    (compiler.start template request memory) hblank
  exact ⟨_, hrun, Report.template_ofPart template _ hends⟩

end Stencil
