/-
A small command language for scripts.  Code is a sequence of calls, separated
by semicolons; each is a name followed by one argument between parentheses.
The calls are done in order, and the first that fails ends the script.
-/
import Stencil.Blank
import Stencil.Decimal
import Stencil.Script
import Stencil.Utf8

namespace Stencil

inductive Command where
  /-- Write the argument. -/
  | write (text : String)
  | writeLine (text : String)
  /-- Wait for some milliseconds. -/
  | sleep (ms : Nat)
  | badNumber (text : String)
  | hang
  | exit
  /-- Fail with the argument. -/
  | fail (text : String)
  /-- Fail in the context of the argument. -/
  | failWithin (text : String)
  /-- Write what a name is bound to. -/
  | scope (name : String)
  /-- Write all bound names. -/
  | names
  /-- Write the rest of the input. -/
  | read
  /-- Write the argument to the sink. -/
  | send (text : String)
  /-- Shut the sink down. -/
  | close
  | templateName
  | line
  | unknown (name : String)
  | malformed (call : String)
  deriving DecidableEq, Repr

/-- The command of a name and its argument. -/
def Command.ofCall (name argument : String) : Command :=
  match name with
  | "write" => .write argument
  | "writeln" => .writeLine argument
  | "sleep" =>
      match word64? argument with
      | some ms => .sleep ms
      | none => .badNumber argument
  | "hang" => .hang
  | "exit" => .exit
  | "fail" => .fail argument
  | "wrap" => .failWithin argument
  | "scope" => .scope argument
  | "keys" => .names
  | "read" => .read
  | "sink" => .send argument
  | "close" => .close
  | "name" => .templateName
  | "line" => .line
  | _ => .unknown name

/-- Read one call.  The name ends at the first opening parenthesis, and the
argument at a closing one that ends the call. -/
def Command.ofText (text : String) : Command :=
  match beforeTail? ")" text with
  | none => .malformed text
  | some inner =>
      let name := inner.toList.takeWhile (· != '(')
      match inner.toList.drop name.length with
      | [] => .malformed text
      | _ :: argument =>
          .ofCall (String.ofList name) (String.ofList argument)

/-- The commands of some code.  Empty calls are left out. -/
def commandsOf (code : String) : List Command :=
  let calls := (code.toList.splitOn ';').map (fun call =>
    trim (String.ofList call))
  (calls.filter (· != "")).map Command.ofText

variable {μ : Type}

/-- The script that writes a text where one is, and fails where not. -/
def Script.appendOrFail (text? : Option String) (message : String)
    (next : Script μ) : Script μ :=
  match text? with
  | some text => .append text next
  | none => .fail (.message message)

/-- Go on after a call on the sink that went well. -/
def Script.afterSending (reply : Except SinkError Nat) (next : Script μ) :
    Script μ :=
  match reply with
  | .ok _ => next
  | .error error => .fail (.message error.text)

/-- The script that does one command and then the rest. -/
def Command.script (view : ScriptView) (command : Command)
    (next : Script μ) : Script μ :=
  match command with
  | .write text => .append text next
  | .writeLine text => .appendLine text next
  | .sleep ms => .wait ms next
  | .badNumber text => .fail (.message ("bad number '" ++ text ++ "'"))
  | .hang => .hang
  | .exit => .requestExit next
  | .fail text => .fail (.message text)
  | .failWithin text => .fail (.context text (.message "inner"))
  | .scope name =>
      .appendOrFail ((view.scope.lookup name).map Value.plainText)
        ("unbound '" ++ name ++ "'") next
  | .names => .append (String.intercalate "," view.scope.names) next
  | .read =>
      .read none fun
        | none => .append "<no input>" next
        | some bytes =>
            .appendOrFail (ofUtf8? bytes) "input is not UTF-8" next
  | .send text =>
      .send (.writeAll (utf8 text)) fun
        | none => .append "<no sink>" next
        | some reply => .afterSending reply next
  | .close =>
      .send .shutdown fun
        | none => next
        | some reply => .afterSending reply next
  | .templateName => .append view.template next
  | .line => .append (toString view.line) next
  | .unknown name => .fail (.message ("unknown command '" ++ name ++ "'"))
  | .malformed call => .fail (.message ("malformed call '" ++ call ++ "'"))

/-- The evaluator of the command language.  It remembers nothing. -/
def evaluateCommands : Evaluator μ := fun code view =>
  (commandsOf code).foldr (fun command next => command.script view next) .done

end Stencil
