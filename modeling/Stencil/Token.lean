/-
The kinds of span that a template source is cut into, and their wire names.
Reading a wire name accepts exactly the names that are written.
-/

namespace Stencil

/-- What a span of template source is.  Next to each directive stand the
delimiters that open and close it. -/
inductive Token where
  /-- End of input. -/
  | eof
  /-- Literal text outside any directive. -/
  | plain
  /-- Opened by `%{` or `{%`, closed by `}%` or `%}`. -/
  | script
  /-- `${ … }` with balanced braces inside. -/
  | expr
  /-- `#{ … }` with balanced braces inside. -/
  | startTag
  /-- `#{/ … }`, or the `/}` that ends a start tag. -/
  | endTag
  /-- `&{ … }` -/
  | message
  /-- `@{ … }` -/
  | action
  /-- `@@{ … }` -/
  | absAction
  /-- `*{ … }*` -/
  | comment
  deriving DecidableEq, Repr, Inhabited

/-- Every kind, in the order of declaration. -/
def Token.all : List Token :=
  [.eof, .plain, .script, .expr, .startTag, .endTag, .message, .action,
    .absAction, .comment]

theorem Token.mem_all (token : Token) : token ∈ Token.all := by
  cases token <;> simp [Token.all]

/-- The stable upper-case name, used in messages and on the wire. -/
def Token.name : Token → String
  | .eof => "EOF"
  | .plain => "PLAIN"
  | .script => "SCRIPT"
  | .expr => "EXPR"
  | .startTag => "START_TAG"
  | .endTag => "END_TAG"
  | .message => "MESSAGE"
  | .action => "ACTION"
  | .absAction => "ABS_ACTION"
  | .comment => "COMMENT"

instance : ToString Token := ⟨Token.name⟩

/-- The kind with the given wire name, spelled exactly. -/
def Token.ofName? (name : String) : Option Token :=
  Token.all.find? (fun token => token.name == name)

theorem Token.ofName?_name (token : Token) :
    Token.ofName? token.name = some token := by
  cases token <;> decide

theorem Token.name_of_ofName? {name : String} {token : Token}
    (hfound : Token.ofName? name = some token) : token.name = name := by
  simpa using List.find?_some hfound

/-- The kinds whose bodies may hold balanced pairs of braces. -/
def Token.isNestingAware : Token → Bool
  | .expr | .startTag => true
  | _ => false

end Stencil
