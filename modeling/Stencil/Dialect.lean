/-
Dialects give the directives other than scripts and comments a meaning.  A
handler is a tree of page operations; it may look at the page, and it may end
in a fault.
-/
import Stencil.Directive
import Stencil.Script

namespace Stencil

/-- What a handler can see of the page. -/
structure PageView where
  output : String
  lineMap : List Nat
  line : Nat
  level : Nat
  exiting : Bool
  exited : Bool
  scope : Scope

def Page.view (page : Page) : PageView where
  output := page.output
  lineMap := page.lineMap
  line := page.line
  level := page.level
  exiting := page.exiting
  exited := page.exited
  scope := page.scope

/-- What is left to do of a handler. -/
inductive Handler (μ : Type) where
  | done
  | fail (fault : Fault)
  /-- Do a page operation; the reply is the body that the end of a captured
  tag gives back. -/
  | act (op : PageOp) (next : Option String → Handler μ)
  | look (next : PageView → Handler μ)
  | recall (next : μ → Handler μ)
  | remember (memory : μ) (next : Handler μ)

variable {μ σ : Type}

/-- Run a handler.  What it did before a fault stays done. -/
def Handler.run : Handler μ → Host μ σ → Except Fault Unit × Host μ σ
  | .done, host => (.ok (), host)
  | .fail fault, host => (.error fault, host)
  | .act op next, host =>
      let (reply, page) := host.page.apply op
      (next reply).run { host with page := page }
  | .look next, host => (next host.page.view).run host
  | .recall next, host => (next host.memory).run host
  | .remember memory next, host => next.run { host with memory := memory }

/-- When a dialect is asked: before the first span, at each directive that the
engine does not interpret itself, and after the last span. -/
inductive Occasion where
  | head
  | expr (directive : Directive)
  | message (directive : Directive)
  | action (directive : Directive) (absolute : Bool)
  | startTag (directive : Directive)
  | endTag (directive : Directive)
  | finish
  deriving DecidableEq, Repr

/-- The handlers of a dialect.  One that is not given does nothing before the
first and after the last span, and rejects every directive as unimplemented. -/
structure Dialect (μ : Type) where
  head : Handler μ := .done
  expr : Directive → Handler μ := fun directive =>
    .fail directive.unimplemented
  message : Directive → Handler μ := fun directive =>
    .fail directive.unimplemented
  action : Directive → Bool → Handler μ := fun directive _ =>
    .fail directive.unimplemented
  startTag : Directive → Handler μ := fun directive =>
    .fail directive.unimplemented
  endTag : Directive → Handler μ := fun directive =>
    .fail directive.unimplemented
  finish : Handler μ := .done

/-- The dialect without handlers. -/
def Dialect.base : Dialect μ := {}

/-- The handler for an occasion. -/
def Dialect.handler (dialect : Dialect μ) : Occasion → Handler μ
  | .head => dialect.head
  | .expr directive => dialect.expr directive
  | .message directive => dialect.message directive
  | .action directive absolute => dialect.action directive absolute
  | .startTag directive => dialect.startTag directive
  | .endTag directive => dialect.endTag directive
  | .finish => dialect.finish

/-- The occasion that a directive gives, if it is one for the dialect. -/
def Directive.occasion? (directive : Directive) : Option Occasion :=
  match directive.token with
  | .expr => some (.expr directive)
  | .message => some (.message directive)
  | .action => some (.action directive false)
  | .absAction => some (.action directive true)
  | .startTag => some (.startTag directive)
  | .endTag => some (.endTag directive)
  | .eof | .plain | .script | .comment => none

end Stencil
