/-
The values that names are bound to, and their compact text: no spaces, the
fields of an object in the order of their names.
-/
import Stencil.Binding
import Stencil.Number

namespace Stencil

inductive Value where
  | null
  | bool (value : Bool)
  | number (value : Number)
  | string (text : String)
  | array (items : List Value)
  | object (fields : List (String × Value))
  deriving Inhabited

/-- A character inside a quoted text.  Quotes, backslashes and control
characters are escaped; every other character stands for itself. -/
def quotedChar (char : Char) : String :=
  if char = '"' then "\\\""
  else if char = '\\' then "\\\\"
  else if char = '\n' then "\\n"
  else if char = '\r' then "\\r"
  else if char = '\t' then "\\t"
  else if char.toNat = 0x08 then "\\b"
  else if char.toNat = 0x0C then "\\f"
  else if char.toNat < 0x20 then
    "\\u00" ++ String.ofList
      [Nat.digitChar (char.toNat / 16), Nat.digitChar (char.toNat % 16)]
  else String.singleton char

def quoted (text : String) : String :=
  "\"" ++ String.join (text.toList.map quotedChar) ++ "\""

mutual

/-- The compact text of a value. -/
def Value.compact : Value → String
  | .null => "null"
  | .bool value => if value then "true" else "false"
  | .number value => value.text
  | .string text => quoted text
  | .array items => "[" ++ String.intercalate "," (compactItems items) ++ "]"
  | .object fields =>
      "\x7b" ++ String.intercalate "," ((bindAll (compactFields fields)).map
        (fun field => quoted field.1 ++ ":" ++ field.2)) ++ "\x7d"

def compactItems : List Value → List String
  | [] => []
  | item :: rest => item.compact :: compactItems rest

def compactFields : List (String × Value) → List (String × String)
  | [] => []
  | (name, value) :: rest => (name, value.compact) :: compactFields rest

end

/-- A value as page text: a string stands for itself, any other value for its
compact text. -/
def Value.plainText : Value → String
  | .string text => text
  | value => value.compact

/-- The names that the directives of a page can refer to. -/
abbrev Scope := List (String × Value)

/-- A scope from bindings in any order. -/
def Scope.ofList (pairs : List (String × Value)) : Scope := bindAll pairs

/-- The names bound in a scope, in order. -/
def Scope.names (scope : Scope) : List String := scope.map Prod.fst

end Stencil
