/-
A directive as a handler sees it: what was written and on which line, but not
at which offset.
-/
import Stencil.Lexer
import Stencil.Fault

namespace Stencil

structure Directive where
  token : Token
  /-- The body between the delimiters, with its white space. -/
  text : String
  /-- The line, counted from 1, on which the body starts. -/
  line : Nat
  /-- The first character after the body. -/
  nextChar : Option Char
  deriving DecidableEq, Repr

/-- The directive that a completed span holds. -/
def Lexeme.directive (lexeme : Lexeme) : Directive :=
  ⟨lexeme.token, lexeme.text, lexeme.line, lexeme.nextChar⟩

/-- The fault of a directive that has no handler. -/
def Directive.unimplemented (directive : Directive) : Fault :=
  .unimplementedDirective directive.token directive.line

/-- The fault of a handler that rejects its directive. -/
def Directive.fail (directive : Directive) (message : String) : Fault :=
  .directive directive.token directive.line message

theorem Directive.isFatal_unimplemented (directive : Directive) :
    directive.unimplemented.isFatal = true := rfl

theorem Directive.isFatal_fail (directive : Directive) (message : String) :
    (directive.fail message).isFatal = true := rfl

end Stencil
