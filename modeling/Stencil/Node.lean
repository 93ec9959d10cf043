/-
Nodes in YAML notation: scalars, sequences and mappings.  An anchor gives a
node a name, and an alias stands in place of a node that has one.

Names are kept as numbers.  The number of a name is how many different names
were given before, among which it counts itself if it is given again.  So a
number may pass on to a node with another name: an alias stands for the last
node of the whole text that bears the number its name had at the alias.
-/
import Stencil.Scalar

namespace Stencil

inductive Node where
  | scalar (anchor : Option String) (value : Scalar)
  | sequence (anchor : Option String) (items : List Node)
  | mapping (anchor : Option String) (entries : List (Node × Node))
  | alias (name : String)
  deriving Inhabited, Repr

/-- A node of which nothing is written. -/
def Node.empty : Node := .scalar none { text := "" }

/-- Whether nothing was written for a node but perhaps its name and its tag. -/
def Node.isEmpty : Node → Bool
  | .scalar _ value => value.text == "" && value.style == .plain
  | _ => false

/-- The names given so far. -/
structure Names where
  /-- The different names with their numbers. -/
  numbers : List (String × Nat) := []
  /-- What bears each number, the last one first: a scalar, or none where it
  is a collection. -/
  bearers : List (Nat × Option Scalar) := []
  deriving DecidableEq, Repr

namespace Names

/-- Give a name to what was read, if it has one. -/
def bind (names : Names) (anchor : Option String) (scalar : Option Scalar) :
    Names :=
  match anchor with
  | none => names
  | some name =>
      let number := names.numbers.length
      { numbers :=
          (name, number) :: names.numbers.filter (fun known => known.1 != name)
        bearers := (number, scalar) :: names.bearers }

/-- The number of a name, if it is known. -/
def number? (names : Names) (name : String) : Option Nat :=
  names.numbers.lookup name

/-- The scalar that bears a number, if a scalar does. -/
def bearer? (names : Names) (number : Nat) : Option Scalar :=
  (names.bearers.lookup number).join

theorem number?_bind_self (names : Names) (name : String)
    (scalar : Option Scalar) :
    (names.bind (some name) scalar).number? name =
      some names.numbers.length := by
  simp [bind, number?]

theorem bearer?_bind_self (names : Names) (name : String)
    (scalar : Option Scalar) :
    (names.bind (some name) scalar).bearer? names.numbers.length =
      scalar := by
  simp [bind, bearer?]

end Names

/-- What a node holds before all names are known. -/
inductive Held where
  | scalar (value : Scalar)
  | collection
  | bearerOf (number : Nat)
  deriving DecidableEq, Repr

/-- The scalar that is held, if it is one. -/
def Held.scalar? (names : Names) : Held → Option Scalar
  | .scalar value => some value
  | .collection => none
  | .bearerOf number => names.bearer? number

mutual

/-- What a node holds, and the names that are known after it.  An alias needs a
name that is known. -/
def Node.held? (names : Names) : Node → Option (Held × Names)
  | .scalar anchor value => some (.scalar value, names.bind anchor value)
  | .sequence anchor items =>
      (namesAfterItems? (names.bind anchor none) items).map fun names =>
        (.collection, names)
  | .mapping anchor entries =>
      (heldEntries? (names.bind anchor none) entries).map fun (_, names) =>
        (.collection, names)
  | .alias name =>
      (names.number? name).map fun number => (.bearerOf number, names)

def namesAfterItems? (names : Names) : List Node → Option Names
  | [] => some names
  | item :: items =>
      (item.held? names).bind fun (_, names) => namesAfterItems? names items

/-- What the entries of a mapping hold, and the names known after them. -/
def heldEntries? (names : Names) : List (Node × Node) →
    Option (List (Held × Held) × Names)
  | [] => some ([], names)
  | (key, value) :: entries =>
      (key.held? names).bind fun (key, names) =>
        (value.held? names).bind fun (value, names) =>
          (heldEntries? names entries).map fun (entries, names) =>
            ((key, value) :: entries, names)

end

/-- The scalars of the entries of a mapping that is a whole text.  A collection
stands as none. -/
def scalarEntries? (anchor : Option String) (entries : List (Node × Node)) :
    Option (List (Option Scalar × Option Scalar)) :=
  (heldEntries? (Names.bind {} anchor none) entries).map fun (held, names) =>
    held.map fun (key, value) => (key.scalar? names, value.scalar? names)

end Stencil
