/-
A pass over a template.  Spans are taken in the order of the source: literal
text goes to the page, a script is run to its end before the next span is
taken, a directive goes to the dialect.  A fault of the dialect ends the pass;
every other fault is reported, and the pass goes on.  A page that is complete
is delivered to the sink.
-/
import Stencil.Blank
import Stencil.Config
import Stencil.Dialect
import Stencil.Template

namespace Stencil

/-- What a script body is handed over as.  With `strip`, white space at its
ends goes, and then a tag before and a tag after it. -/
def scriptBody (strip : Bool) (text : String) : String :=
  if strip then
    let code := trim text
    let code := (afterHead? "<script>" code).getD code
    (beforeTail? "</script>" code).getD code
  else text

/-- A text without the line break that it begins with. -/
def dropLineBreak (text : String) : String :=
  match afterHead? "\r\n" text with
  | some rest => rest
  | none => (afterHead? "\n" text).getD text

/-- What a pass did, in order. -/
inductive Event where
  /-- Literal text was handed to the page. -/
  | literal (text : String)
  /-- Code was handed to the evaluator, and ended. -/
  | script (code : String) (line : Nat) (template : String)
      (ending : ScriptEnd)
  /-- The dialect was asked. -/
  | asked (occasion : Occasion)
  deriving DecidableEq, Repr

/-- A pass under way. -/
structure Pass (μ σ : Type) where
  host : Host μ σ
  /-- The name of the template. -/
  template : String
  /-- A comment came before, and no literal text since. -/
  afterComment : Bool
  /-- Whether someone listens to faults that are recovered from. -/
  listening : Bool
  /-- The faults that the listener was given. -/
  faults : List Fault
  events : List Event

variable {μ σ : Type}

def Pass.note (pass : Pass μ σ) (event : Event) : Pass μ σ :=
  { pass with events := pass.events ++ [event] }

/-- Give a fault to the listener, if there is one. -/
def Pass.report (pass : Pass μ σ) (fault : Fault) : Pass μ σ :=
  if pass.listening then { pass with faults := pass.faults ++ [fault] }
  else pass

@[simp] theorem Pass.host_report (pass : Pass μ σ) (fault : Fault) :
    (pass.report fault).host = pass.host := by
  rw [report]
  split <;> rfl

@[simp] theorem Pass.template_report (pass : Pass μ σ) (fault : Fault) :
    (pass.report fault).template = pass.template := by
  rw [report]
  split <;> rfl

@[simp] theorem Pass.afterComment_report (pass : Pass μ σ) (fault : Fault) :
    (pass.report fault).afterComment = pass.afterComment := by
  rw [report]
  split <;> rfl

@[simp] theorem Pass.events_report (pass : Pass μ σ) (fault : Fault) :
    (pass.report fault).events = pass.events := by
  rw [report]
  split <;> rfl

/-- How a part of a pass ended. -/
inductive Ending where
  | done
  | failed (fault : Fault)
  /-- A script never settles. -/
  | stuck
  deriving DecidableEq, Repr

/-- How asking the dialect ended, by what its handler gave. -/
def Ending.ofResult : Except Fault Unit → Ending
  | .ok () => .done
  | .error fault => .failed fault

theorem Ending.ofResult_eq_done_iff (result : Except Fault Unit) :
    Ending.ofResult result = .done ↔ result = .ok () := by
  cases result with
  | ok => simp [ofResult]
  | error given => simp [ofResult]

theorem Ending.ofResult_eq_failed_iff (result : Except Fault Unit)
    (fault : Fault) :
    Ending.ofResult result = .failed fault ↔ result = .error fault := by
  cases result with
  | ok => simp [ofResult]
  | error given => simp [ofResult]

theorem Ending.ofResult_ne_stuck (result : Except Fault Unit) :
    Ending.ofResult result ≠ .stuck := by
  cases result with
  | ok => simp [ofResult]
  | error given => simp [ofResult]

/-- Go on after a part of a pass that ended well. -/
def andThen (part : Ending × Pass μ σ)
    (next : Pass μ σ → Ending × Pass μ σ) : Ending × Pass μ σ :=
  match part with
  | (.done, pass) => next pass
  | stopped => stopped

/-- What renders templates: an evaluator, a dialect, the names that they can
refer to, and the settings. -/
structure Compiler (μ : Type) where
  evaluator : Evaluator μ
  dialect : Dialect μ := {}
  scope : Scope := []
  config : Config := {}

/-- Ask the dialect. -/
def Compiler.ask (compiler : Compiler μ) (occasion : Occasion)
    (pass : Pass μ σ) : Ending × Pass μ σ :=
  let pass := pass.note (.asked occasion)
  match (compiler.dialect.handler occasion).run pass.host with
  | (.ok (), host) => (.done, { pass with host := host })
  | (.error fault, host) => (.failed fault, { pass with host := host })

/-- All that asking the dialect does to a pass. -/
theorem Compiler.ask_eq (compiler : Compiler μ) (occasion : Occasion)
    (pass : Pass μ σ) :
    compiler.ask occasion pass =
      (.ofResult ((compiler.dialect.handler occasion).run pass.host).1,
        { pass with
          host := ((compiler.dialect.handler occasion).run pass.host).2
          events := pass.events ++ [.asked occasion] }) := by
  simp only [ask, Pass.note]
  generalize (compiler.dialect.handler occasion).run pass.host = run
  rcases run with ⟨_ | fault, host⟩
  · rfl
  · rfl

/-- Hand literal text to the page. -/
def Compiler.literal (compiler : Compiler μ) (text : String)
    (pass : Pass μ σ) : Pass μ σ :=
  let text :=
    if pass.afterComment ∧ compiler.config.swallowCommentLineBreak then
      dropLineBreak text
    else text
  { pass with
    host := { pass.host with page := pass.host.page.plain text }
    afterComment := false }.note (.literal text)

/-- Run a script, and report it if it did not settle. -/
def Compiler.script [Sink σ] (compiler : Compiler μ) (lexeme : Lexeme)
    (pass : Pass μ σ) : Ending × Pass μ σ :=
  let code := scriptBody compiler.config.stripScriptTags lexeme.text
  let script := compiler.evaluator code
    ⟨pass.template, lexeme.line, pass.host.page.scope⟩
  let (ending, host) :=
    script.run compiler.config.scriptTimeoutMs 0 pass.host
  let pass := { pass with host := host }.note
    (.script code lexeme.line pass.template ending)
  match ending with
  | .settled => (.done, pass)
  | .failed error =>
      (.done, pass.report (.evaluation pass.template lexeme.line error))
  | .overdue limit => (.done, pass.report (.timeout lexeme.line limit))
  | .stuck => (.stuck, pass)

/-- Do what a span calls for. -/
def Compiler.dispatch [Sink σ] (compiler : Compiler μ) (lexeme : Lexeme)
    (pass : Pass μ σ) : Ending × Pass μ σ :=
  match lexeme.token with
  | .plain => (.done, compiler.literal lexeme.text pass)
  | .script => compiler.script lexeme pass
  | .comment => (.done, { pass with afterComment := true })
  | _ =>
      match lexeme.directive.occasion? with
      | some occasion => compiler.ask occasion pass
      | none => (.done, pass)

/-- Whether the scan ends here because an exit has been requested. -/
def Compiler.stopsAt (compiler : Compiler μ) (pass : Pass μ σ) : Bool :=
  compiler.config.exitPolicy == .abortScan && pass.host.page.exiting

/-- Take spans from the lexer and do what they call for, up to the end of
input, a requested stop, or a part that does not end well. -/
def Compiler.scan [Sink σ] (compiler : Compiler μ) (lexer : Lexer)
    (pass : Pass μ σ) : Ending × Pass μ σ :=
  if compiler.stopsAt pass then (.done, pass)
  else if hmore : lexer.next.1 = .eof then (.done, pass)
  else
    have := lexer.next_remaining_lt hmore
    match compiler.dispatch (lexer.next.2.lexeme lexer.next.1) pass with
    | (.done, pass) => compiler.scan lexer.next.2 pass
    | stopped => stopped
termination_by lexer.remaining

/-- All of a pass but the delivery of its page. -/
def Compiler.run [Sink σ] (compiler : Compiler μ) (lexer : Lexer)
    (pass : Pass μ σ) : Ending × Pass μ σ :=
  andThen (compiler.ask .head pass) fun pass =>
    andThen (compiler.scan lexer pass) fun pass =>
      compiler.ask .finish pass

/-- What a pass is given besides the template. -/
structure Request (σ : Type) where
  /-- What scripts can read. -/
  input : Option (List UInt8) := none
  /-- Where the page is delivered. -/
  sink : Option σ := none
  /-- Whether someone listens to faults that are recovered from. -/
  listening : Bool := true

/-- A pass at its start. -/
def Compiler.start (compiler : Compiler μ) (template : Template)
    (request : Request σ) (memory : μ) : Pass μ σ where
  host :=
    { page := .blank compiler.scope compiler.config.lineMarker
      input := request.input
      sink := request.sink
      memory := memory }
  template := template.name
  afterComment := false
  listening := request.listening
  faults := []
  events := []

/-- Deliver the page to the sink, if there is one. -/
def Pass.deliver [Sink σ] (pass : Pass μ σ) : Pass μ σ :=
  match pass.host.sink with
  | none => pass
  | some sink =>
      match Sink.deliver sink (utf8 pass.host.page.output) with
      | (.ok (), sink) =>
          { pass with host := { pass.host with sink := some sink } }
      | (.error error, sink) =>
          { pass with host := { pass.host with sink := some sink } }.report
            (.sink error)

@[simp] theorem Pass.events_deliver [Sink σ] (pass : Pass μ σ) :
    pass.deliver.events = pass.events := by
  rw [deliver]
  split
  · rfl
  · split
    · rfl
    · exact events_report _ _

@[simp] theorem Pass.page_deliver [Sink σ] (pass : Pass μ σ) :
    pass.deliver.host.page = pass.host.page := by
  rw [deliver]
  split
  · rfl
  · split
    · rfl
    · rw [host_report]

/-- What became of a pass. -/
inductive Outcome where
  | page (text : String)
  | failed (fault : Fault)
  /-- It never ends. -/
  | stuck
  deriving DecidableEq, Repr

/-- A finished pass: its outcome, the template with its page, and what else
can be seen of it. -/
structure Report (μ σ : Type) where
  outcome : Outcome
  template : Template
  /-- The faults that the listener was given. -/
  faults : List Fault
  events : List Event
  sink : Option σ
  memory : μ

/-- The template with the page and the table of a pass. -/
def Template.withPage (template : Template) (page : Page) : Template :=
  { template with output := page.output, lineMap := page.lineMap }

/-- What is reported of a pass that ended so.  The page and its table are kept
with the template also when a fault ended the pass; a pass that never ends
keeps nothing. -/
def Report.ofPart [Sink σ] (template : Template) :
    Ending × Pass μ σ → Report μ σ
  | (.done, pass) =>
      let pass := pass.deliver
      { outcome := .page pass.host.page.output
        template := template.withPage pass.host.page
        faults := pass.faults
        events := pass.events
        sink := pass.host.sink
        memory := pass.host.memory }
  | (.failed fault, pass) =>
      { outcome := .failed fault
        template := template.withPage pass.host.page
        faults := pass.faults
        events := pass.events
        sink := pass.host.sink
        memory := pass.host.memory }
  | (.stuck, pass) =>
      { outcome := .stuck
        template := template
        faults := pass.faults
        events := pass.events
        sink := pass.host.sink
        memory := pass.host.memory }

/-- A pass that ends leaves its page and its table with the template. -/
theorem Report.template_ofPart [Sink σ] (template : Template)
    (part : Ending × Pass μ σ)
    (hends : (Report.ofPart template part).outcome ≠ .stuck) :
    (Report.ofPart template part).template =
      template.withPage part.2.host.page := by
  rcases part with ⟨_ | fault | _, pass⟩
  · rw [← pass.page_deliver]
    rfl
  · rfl
  · exact absurd rfl hends

/-- Render a template. -/
def Compiler.render [Sink σ] (compiler : Compiler μ) (template : Template)
    (request : Request σ) (memory : μ) : Report μ σ :=
  .ofPart template
    (compiler.run (.ofSource template.source)
      (compiler.start template request memory))

end Stencil
