/-
Scalars in YAML notation that stand in a block of lines of their own, below a
bar or an angle bracket.

The lines of the block are indented alike.  Below a bar every line break
stands for itself; below an angle bracket one between two words stands for a
space.
-/
import Stencil.Scalar

namespace Stencil

/-- A line, and the break that ends it, if one does. -/
structure TextLine where
  chars : List Char
  ending : Option Char
  deriving DecidableEq, Repr

def TextLine.text (line : TextLine) : List Char :=
  line.chars ++ line.ending.toList

/-- The lines of a text. -/
def textLines : List Char → List TextLine
  | [] => []
  | char :: rest =>
      if isBreak char then ⟨[], some char⟩ :: textLines rest
      else
        match textLines rest with
        | [] => [⟨[char], none⟩]
        | line :: lines => { line with chars := char :: line.chars } :: lines

theorem textLines_text (chars : List Char) :
    (textLines chars).flatMap TextLine.text = chars := by
  induction chars with
  | nil => rfl
  | cons char rest ih =>
      unfold textLines
      split
      · simp [TextLine.text, ih]
      · cases hlines : textLines rest with
        | nil => simp_all [TextLine.text]
        | cons line lines => simp_all [TextLine.text]

/-- How many spaces a line begins with. -/
def TextLine.indent (line : TextLine) : Nat :=
  (line.chars.takeWhile (· == ' ')).length

/-- Whether a line holds nothing but spaces, at most the given number. -/
def TextLine.isEmpty (line : TextLine) (indent : Nat) : Bool :=
  line.indent == line.chars.length && decide (line.chars.length ≤ indent)

/-- Whether a tab stands where a line is still to be indented. -/
def TextLine.tabbed (line : TextLine) : Bool :=
  line.chars[line.indent]? == some '\t'

/-- What becomes of the line breaks at the end of a block. -/
inductive Chomping where
  | strip
  | clip
  | keep
  deriving DecidableEq, Repr

/-- The sign for the line breaks at the end, if it comes next. -/
def chomping? : List Char → Option (Chomping × List Char)
  | '+' :: rest => some (.keep, rest)
  | '-' :: rest => some (.strip, rest)
  | _ => none

/-- The digit for the indentation, if one comes next. -/
def increment? : List Char → Option (Nat × List Char)
  | char :: rest =>
      if '0' ≤ char ∧ char ≤ '9' then some (char.toNat - '0'.toNat, rest)
      else none
  | [] => none

/-- The sign and the digit after the bar, in either order. -/
def blockSigns (chars : List Char) : Chomping × Option Nat × List Char :=
  match chomping? chars with
  | some (chomping, rest) =>
      match increment? rest with
      | some (increment, rest) => (chomping, some increment, rest)
      | none => (chomping, none, rest)
  | none =>
      match increment? chars with
      | none => (.clip, none, chars)
      | some (increment, rest) =>
          match chomping? rest with
          | some (chomping, rest) => (chomping, some increment, rest)
          | none => (.clip, some increment, rest)

/-- What follows a line on which only a comment may still stand. -/
def afterLine? (chars : List Char) : Option (List Char) :=
  let rest := chars.dropWhile isGap
  let rest :=
    if rest.head? = some '#' then rest.dropWhile (fun char => !isBreak char)
    else rest
  match rest with
  | [] => some []
  | char :: rest => if isBreak char then some rest else none

/-- How far the lines of a block are indented: as far as the first that is
not empty, and at least as far as `floor` and as any empty line before it. -/
def blockIndent? (floor : Nat) : List TextLine → Option Nat
  | [] => some (max floor 1)
  | line :: lines =>
      if line.indent = line.chars.length ∧ line.ending.isSome then
        (blockIndent? floor lines).map (max line.indent)
      else if line.tabbed then none
      else some (max line.indent (max floor 1))

/-- What the line breaks before a line stand for: the one that ends the line
before it, and those of the empty lines between. -/
def joinLines (literal bent : Bool) (ending : Option Char)
    (empty : List Char) : List Char :=
  if !literal && ending == some '\n' && !bent then
    if empty.isEmpty then [' '] else empty
  else ending.toList ++ empty

/-- Read the lines of a block.  Gives the text, and the lines that are left.
`bent` says that the line before begins with a gap. -/
def blockLines? (literal : Bool) (chomping : Chomping) (indent : Nat)
    (bent : Bool) (ending : Option Char) (empty : List Char) :
    List TextLine → Option (List Char × List TextLine)
  | [] => some (blockTail chomping ending empty, [])
  | line :: lines =>
      if line.isEmpty indent then
        match line.ending with
        | none => some (blockTail chomping ending empty, [])
        | some char =>
            blockLines? literal chomping indent bent ending
              (empty ++ [char]) lines
      else if line.indent < indent then
        if line.tabbed then none
        else some (blockTail chomping ending empty, line :: lines)
      else
        let chars := line.chars.drop indent
        let begins := chars.head?.any isGap
        (blockLines? literal chomping indent begins line.ending [] lines).map
          fun (text, left) =>
            (joinLines literal (bent || begins) ending empty ++ chars ++ text,
              left)
where
  /-- The line breaks that are kept at the end of a block. -/
  blockTail (chomping : Chomping) (ending : Option Char)
      (empty : List Char) : List Char :=
    match chomping with
    | .strip => []
    | .clip => ending.toList
    | .keep => ending.toList ++ empty

/-- Whether a block of lines is announced here. -/
def beginsBlock : List Char → Bool
  | [] => false
  | char :: _ => char == '|' || char == '>'

/-- Read a block of lines in a node that is indented at least to `floor`. -/
def blockScalar? (floor : Nat) (cursor : Cursor) : Option (Scalar × Cursor) := do
  let literal := cursor.rest.head? == some '|'
  let (chomping, increment, rest) := blockSigns (cursor.rest.drop 1)
  let lines := textLines (← afterLine? rest)
  let indent ← match increment with
    | none => blockIndent? floor lines
    | some 0 => none
    | some increment => some (floor - 1 + increment)
  let (text, left) ←
    blockLines? literal chomping indent false none [] lines
  return (⟨String.ofList text, if literal then .literal else .folded, none⟩,
    cursor.leave (left.flatMap TextLine.text) true)

end Stencil
