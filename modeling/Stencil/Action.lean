/-
Handlers written as lists of actions.  The argument of an action is a text, or
names something of the directive, of the page, or of the body of the tag that
the handler closed last.
-/
import Stencil.Blank
import Stencil.Dialect

namespace Stencil

inductive Argument where
  | literal (text : String)
  /-- The body of the directive. -/
  | directiveText
  /-- The body of the directive without white space at its ends. -/
  | trimmedText
  | directiveLine
  /-- The character after the directive, if there is one. -/
  | nextChar
  | tokenName
  /-- The body of the tag closed last. -/
  | closedBody
  | level
  | outputLine
  | lineMap
  /-- What the trimmed body of the directive is bound to. -/
  | binding
  deriving DecidableEq, Repr

/-- The argument that a text stands for. -/
def Argument.ofText : String → Argument
  | "$text" => .directiveText
  | "$trim" => .trimmedText
  | "$line" => .directiveLine
  | "$next" => .nextChar
  | "$token" => .tokenName
  | "$body" => .closedBody
  | "$level" => .level
  | "$outline" => .outputLine
  | "$map" => .lineMap
  | "$scope" => .binding
  | text => .literal text

/-- The text of an argument.  A name that is not bound is a fault. -/
def Argument.resolve (argument : Argument) (directive : Directive)
    (view : PageView) (body : String) : Except Fault String :=
  match argument with
  | .literal text => .ok text
  | .directiveText => .ok directive.text
  | .trimmedText => .ok (trim directive.text)
  | .directiveLine => .ok (toString directive.line)
  | .nextChar => .ok ((directive.nextChar.map String.singleton).getD "")
  | .tokenName => .ok directive.token.name
  | .closedBody => .ok body
  | .level => .ok (toString view.level)
  | .outputLine => .ok (toString view.line)
  | .lineMap =>
      .ok ("[" ++ String.intercalate ", " (view.lineMap.map toString) ++ "]")
  | .binding =>
      let name := trim directive.text
      match view.scope.lookup name with
      | some value => .ok value.plainText
      | none => .error (directive.fail ("unknown binding '" ++ name ++ "'"))

inductive Action where
  | print (argument : Argument)
  | println (argument : Argument)
  | printForced (argument : Argument)
  | plain (argument : Argument)
  | plainLine (argument : Argument)
  /-- Mark a line, by default the line of the directive. -/
  | markLine (line : Option Nat)
  | openTag
  | closeTag
  | clear
  | requestExit
  /-- Reject the directive. -/
  | fail (argument : Argument)
  | unimplemented
  /-- Claim that a script was overdue. -/
  | timeout (ms : Nat)
  /-- Reject the directive where no tag is being captured. -/
  | needTag
  deriving DecidableEq, Repr

variable {μ : Type}

/-- Resolve an argument and go on with its text. -/
def Argument.use (argument : Argument) (directive : Directive)
    (body : String) (next : String → Handler μ) : Handler μ :=
  .look fun view =>
    match argument.resolve directive view body with
    | .ok text => next text
    | .error fault => .fail fault

/-- The handler that does some actions in order for a directive.  `body` is
the body of the tag closed last. -/
def handlerOf (directive : Directive) : List Action → String → Handler μ
  | [], _ => .done
  | action :: rest, body =>
      let go := handlerOf directive rest
      match action with
      | .print argument =>
          argument.use directive body fun text =>
            .act (.print text) fun _ => go body
      | .println argument =>
          argument.use directive body fun text =>
            .act (.println text) fun _ => go body
      | .printForced argument =>
          argument.use directive body fun text =>
            .act (.printForced text) fun _ => go body
      | .plain argument =>
          argument.use directive body fun text =>
            .act (.plain text) fun _ => go body
      | .plainLine argument =>
          argument.use directive body fun text =>
            .act (.plainLine text) fun _ => go body
      | .markLine line =>
          .act (.markLine (line.getD directive.line)) fun _ => go body
      | .openTag => .act .openTag fun _ => go body
      | .closeTag => .act .closeTag fun body? => go (body?.getD "<none>")
      | .clear => .act .clear fun _ => go body
      | .requestExit => .act .requestExit fun _ => go body
      | .fail argument =>
          argument.use directive body fun text => .fail (directive.fail text)
      | .unimplemented => .fail directive.unimplemented
      | .timeout ms => .fail (.timeout directive.line ms)
      | .needTag =>
          .look fun view =>
            if view.level = 0 then
              .fail (directive.fail "end tag without start tag")
            else go body

/-- The handlers of a dialect as lists of actions, where they are given. -/
structure ActionTable where
  head : Option (List Action) := none
  finish : Option (List Action) := none
  expr : Option (List Action) := none
  message : Option (List Action) := none
  action : Option (List Action) := none
  absAction : Option (List Action) := none
  startTag : Option (List Action) := none
  endTag : Option (List Action) := none

/-- What stands in for a directive where there is none. -/
def Directive.standIn : Directive := ⟨.eof, "", 0, none⟩

/-- The handler of a list that may be missing. -/
def handlerOr (default : Handler μ) (actions? : Option (List Action))
    (directive : Directive) : Handler μ :=
  match actions? with
  | none => default
  | some actions => handlerOf directive actions ""

/-- The dialect of a table.  A list that is not given leaves its occasion to
the base dialect. -/
def ActionTable.dialect (table : ActionTable) : Dialect μ where
  head := handlerOr .done table.head .standIn
  finish := handlerOr .done table.finish .standIn
  expr directive :=
    handlerOr (.fail directive.unimplemented) table.expr directive
  message directive :=
    handlerOr (.fail directive.unimplemented) table.message directive
  action directive absolute :=
    handlerOr (.fail directive.unimplemented)
      (if absolute then table.absAction else table.action) directive
  startTag directive :=
    handlerOr (.fail directive.unimplemented) table.startTag directive
  endTag directive :=
    handlerOr (.fail directive.unimplemented) table.endTag directive

end Stencil
