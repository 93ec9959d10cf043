/-
The page that a pass writes: the output, the exit switch, the table that ties
output lines to source lines, and the tag bodies being captured.

A mark ties the output line in progress to a source line; it reaches the table
when that line is completed.  Once an exit has been requested, the next
operation that looks at the switch freezes the page, and only forced printing
still adds to it.  While a tag body is captured, literal text goes there.
-/
import Stencil.Value
import Stencil.Span

namespace Stencil

structure Page where
  output : String
  /-- An exit has been requested. -/
  exiting : Bool
  /-- The request has been noticed, and the page is frozen. -/
  exited : Bool
  /-- The number of completed output lines. -/
  line : Nat
  /-- The source line recorded for the output line in progress. -/
  pendingMark : Option Nat
  /-- The source line of each completed output line, 0 where none is known. -/
  lineMap : List Nat
  /-- The tag bodies being captured, the innermost first. -/
  bodies : List String
  scope : Scope
  /-- What a mark writes before its line number. -/
  lineMarker : String

/-- An empty page. -/
def Page.blank (scope : Scope) (lineMarker : String) : Page where
  output := ""
  exiting := false
  exited := false
  line := 0
  pendingMark := none
  lineMap := []
  bodies := []
  scope := scope
  lineMarker := lineMarker

/-- How many tags are being captured. -/
def Page.level (page : Page) : Nat := page.bodies.length

/-- The table with an entry for one line, padded with 0 up to it. -/
def recordLine (lineMap : List Nat) (line source : Nat) : List Nat :=
  (lineMap ++ List.replicate (line + 1 - lineMap.length) 0).set line source

/-- Complete the output line in progress: its mark, if any, is recorded. -/
def Page.endLine (page : Page) : Page :=
  { page with
    line := page.line + 1
    pendingMark := none
    lineMap :=
      match page.pendingMark with
      | none => page.lineMap
      | some source => recordLine page.lineMap page.line source }

/-- Add one character to the output. -/
def Page.put (page : Page) (char : Char) : Page :=
  let page := { page with output := page.output.push char }
  if char = '\n' then page.endLine else page

/-- Add a text to the output. -/
def Page.push (page : Page) (text : String) : Page :=
  text.toList.foldl Page.put page

/-- Notice a requested exit. -/
def Page.checkExit (page : Page) : Page :=
  if page.exiting then { page with exited := true } else page

/-- Notice a requested exit, and change the page only if it is not frozen. -/
def Page.unlessExited (page : Page) (change : Page → Page) : Page :=
  let page := page.checkExit
  if page.exited then page else change page

def Page.print (page : Page) (text : String) : Page :=
  page.unlessExited (fun page => page.push text)

def Page.println (page : Page) (text : String) : Page :=
  page.unlessExited (fun page => (page.push text).push "\n")

/-- Print also onto a frozen page. -/
def Page.printForced (page : Page) (text : String) : Page :=
  (page.push text).checkExit

/-- Discard what was printed, together with the table. -/
def Page.clear (page : Page) : Page :=
  page.unlessExited fun page =>
    { page with output := "", line := 0, pendingMark := none, lineMap := [] }

/-- Write a marker for a source line, and record that line as the origin of
the output line in progress. -/
def Page.markLine (page : Page) (source : Nat) : Page :=
  page.unlessExited fun page =>
    { page.push (page.lineMarker ++ toString source) with
      pendingMark := some source }

/-- Add to the innermost captured body, unless an exit has been requested. -/
def Page.capture (page : Page) (text : String) : Page :=
  if page.exiting then page
  else
    match page.bodies with
    | [] => page
    | body :: outer => { page with bodies := (body ++ text) :: outer }

/-- Literal text: into the innermost captured body, or else onto the page. -/
def Page.plain (page : Page) (text : String) : Page :=
  if page.bodies.isEmpty then page.print text else page.capture text

/-- Literal text and a line break. -/
def Page.plainLine (page : Page) (text : String) : Page :=
  if page.bodies.isEmpty then page.println text
  else (page.capture text).capture "\n"

/-- Start to capture a tag body. -/
def Page.openTag (page : Page) : Page :=
  { page with bodies := "" :: page.bodies }

/-- Stop capturing the innermost tag, and give its body if there is one. -/
def Page.closeTag (page : Page) : Option String × Page :=
  match page.bodies with
  | [] => (none, page)
  | body :: outer => (some body, { page with bodies := outer })

/-- Ask that the page stop growing, from the next print on. -/
def Page.requestExit (page : Page) : Page := { page with exiting := true }

/-- The operations on a page, as data. -/
inductive PageOp where
  | print (text : String)
  | println (text : String)
  | printForced (text : String)
  | plain (text : String)
  | plainLine (text : String)
  | markLine (source : Nat)
  | openTag
  | closeTag
  | clear
  | requestExit
  deriving DecidableEq, Repr

/-- Do an operation.  Only the end of a captured tag gives something back. -/
def Page.apply (page : Page) : PageOp → Option String × Page
  | .print text => (none, page.print text)
  | .println text => (none, page.println text)
  | .printForced text => (none, page.printForced text)
  | .plain text => (none, page.plain text)
  | .plainLine text => (none, page.plainLine text)
  | .markLine source => (none, page.markLine source)
  | .openTag => (none, page.openTag)
  | .closeTag => page.closeTag
  | .clear => (none, page.clear)
  | .requestExit => (none, page.requestExit)

/-- Do operations one after the other. -/
def Page.applyAll (page : Page) (ops : List PageOp) : Page :=
  ops.foldl (fun page op => (page.apply op).2) page

theorem Page.push_append (page : Page) (left right : String) :
    page.push (left ++ right) = (page.push left).push right := by
  simp [push]

theorem Page.push_empty (page : Page) : page.push "" = page := rfl

theorem Page.output_put (page : Page) (char : Char) :
    (page.put char).output = page.output.push char := by
  unfold put
  split <;> rfl

theorem Page.line_put (page : Page) (char : Char) :
    (page.put char).line = page.line + if char = '\n' then 1 else 0 := by
  unfold put
  split <;> rfl

/-- All that pushing a text does: the first line break in it completes the
line in progress, and no later one meets a mark. -/
theorem Page.push_eq (page : Page) (text : String) :
    page.push text =
      { page with
        output := page.output ++ text
        line := page.line + lineBreaks text
        pendingMark :=
          if '\n' ∈ text.toList then none else page.pendingMark
        lineMap :=
          if '\n' ∈ text.toList then page.endLine.lineMap
          else page.lineMap } := by
  have hfold : ∀ (chars : List Char) (page : Page),
      chars.foldl put page =
        { page with
          output := page.output ++ String.ofList chars
          line := page.line + chars.count '\n'
          pendingMark := if '\n' ∈ chars then none else page.pendingMark
          lineMap :=
            if '\n' ∈ chars then page.endLine.lineMap
            else page.lineMap } := by
    intro chars
    induction chars with
    | nil => simp
    | cons char rest ih =>
        intro page
        have houtput : page.output.push char ++ String.ofList rest =
            page.output ++ String.ofList (char :: rest) := by
          apply String.toList_inj.mp
          simp
        rw [List.foldl_cons, ih, output_put, houtput, line_put]
        by_cases hbreak : char = '\n'
        · subst hbreak
          simp [put, endLine, Nat.add_assoc, Nat.add_comm 1]
        · have hne : '\n' ≠ char := Ne.symm hbreak
          simp [put, endLine, hbreak, hne]
  simpa [push, lineBreaks] using hfold text.toList page

/-- Pushing adds the text to the output, and nothing else. -/
theorem Page.output_push (page : Page) (text : String) :
    (page.push text).output = page.output ++ text := by
  rw [push_eq]

/-- Pushing completes one output line for each line break. -/
theorem Page.line_push (page : Page) (text : String) :
    (page.push text).line = page.line + lineBreaks text := by
  rw [push_eq]

theorem length_recordLine (lineMap : List Nat) (line source : Nat) :
    (recordLine lineMap line source).length = max lineMap.length (line + 1) := by
  simp only [recordLine, List.length_set, List.length_append,
    List.length_replicate]
  omega

end Stencil
