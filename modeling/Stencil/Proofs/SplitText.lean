/-
Text in pieces.  Two calls that write the same way do what one call does with
both texts, and a line is a text with a line break.  So the output and the
table do not show in which calls a text was written.
-/
import Stencil.Proofs.TagCapture

namespace Stencil

/-- The ways in which text is written. -/
inductive Channel where
  | print
  | forced
  | plain
  deriving DecidableEq, Repr

/-- The operation that writes a text in one call. -/
def Channel.write : Channel → String → PageOp
  | .print => .print
  | .forced => .printForced
  | .plain => .plain

/-- What an operation writes, and in which way. -/
def PageOp.written? : PageOp → Option (Channel × String)
  | .print text => some (.print, text)
  | .println text => some (.print, text ++ "\n")
  | .printForced text => some (.forced, text)
  | .plain text => some (.plain, text)
  | .plainLine text => some (.plain, text ++ "\n")
  | .markLine _ | .openTag | .closeTag | .clear | .requestExit => none

/-- Write a text before other operations: in one call with the first of them if
that writes the same way, and in none if there is no text. -/
def Channel.before (channel : Channel) (text : String) (ops : List PageOp) :
    List PageOp :=
  if text = "" then ops
  else
    match ops with
    | [] => [channel.write text]
    | op :: rest =>
        match op.written? with
        | none => channel.write text :: op :: rest
        | some (other, more) =>
            if other = channel then channel.write (text ++ more) :: rest
            else channel.write text :: op :: rest

/-- The operations with each text written in as few calls as possible. -/
def merged : List PageOp → List PageOp
  | [] => []
  | op :: rest =>
      match op.written? with
      | none => op :: merged rest
      | some (channel, text) => channel.before text (merged rest)

/-- Two changes that leave the switch alone, each made unless the page is
frozen, are one. -/
theorem Page.unlessExited_unlessExited (page : Page) {change : Page → Page}
    (hexiting : ∀ page : Page, (change page).exiting = page.exiting)
    (hexited : ∀ page : Page, (change page).exited = page.exited)
    (later : Page → Page) :
    (page.unlessExited change).unlessExited later =
      page.unlessExited fun page => later (change page) := by
  cases hnow : page.exiting with
  | true =>
      have hnoticed : { page with exited := true }.exiting = true := hnow
      rw [unlessExited_of_exiting hnow, unlessExited_of_exiting hnow,
        unlessExited_of_exiting hnoticed]
  | false =>
      have hlater := hexiting page
      have hfrozen := hexited page
      cases hdone : page.exited with
      | true => simp [unlessExited, checkExit, hnow, hdone]
      | false =>
          rw [hnow] at hlater
          rw [hdone] at hfrozen
          rw [unlessExited_of_running hnow hdone,
            unlessExited_of_running hlater hfrozen,
            unlessExited_of_running hnow hdone]

theorem Page.print_print (page : Page) (first second : String) :
    (page.print first).print second = page.print (first ++ second) := by
  have hexited : ∀ page : Page, (page.push first).exited = page.exited := by
    intro page
    rw [push_eq]
  simp only [print, push_append]
  exact page.unlessExited_unlessExited (fun page => page.exiting_push first)
    hexited _

theorem Page.println_eq (page : Page) (text : String) :
    page.println text = page.print (text ++ "\n") := by
  simp only [println, print, push_append]

theorem Page.checkExit_push (page : Page) (text : String) :
    page.checkExit.push text = (page.push text).checkExit := by
  rw [checkExit, checkExit, exiting_push]
  split
  · rw [push_eq, push_eq]
    rfl
  · rfl

theorem Page.checkExit_checkExit (page : Page) :
    page.checkExit.checkExit = page.checkExit := by
  cases hexiting : page.exiting with
  | true | false => simp [checkExit, hexiting]

theorem Page.printForced_printForced (page : Page) (first second : String) :
    (page.printForced first).printForced second =
      page.printForced (first ++ second) := by
  rw [printForced, printForced, printForced, checkExit_push,
    checkExit_checkExit, push_append]

theorem Page.plain_plain (page : Page) (first second : String) :
    (page.plain first).plain second = page.plain (first ++ second) := by
  by_cases hlevel : page.level = 0
  · have hnil : page.bodies = [] := List.eq_nil_of_length_eq_zero hlevel
    have hprinted : (page.print first).bodies = [] := by
      rw [← hnil]
      exact page.bodies_unlessExited fun page => page.bodies_push first
    simp only [plain, hnil, hprinted, List.isEmpty_nil, if_true, print_print]
  · have hcaptured : (page.capture first).level ≠ 0 := by
      simpa [capture_eq, level] using hlevel
    rw [(apply_of_open hlevel).1, (apply_of_open hlevel).1,
      (apply_of_open hcaptured).1, capture_capture]

theorem Page.plainLine_eq (page : Page) (text : String) :
    page.plainLine text = page.plain (text ++ "\n") := by
  rw [plainLine, plain, println_eq, capture_capture]

/-- Two texts written the same way are written as one. -/
theorem Page.apply_write_write (page : Page) (channel : Channel)
    (first second : String) :
    ((page.apply (channel.write first)).2.apply (channel.write second)).2 =
      (page.apply (channel.write (first ++ second))).2 := by
  cases channel with
  | print => exact page.print_print first second
  | forced => exact page.printForced_printForced first second
  | plain => exact page.plain_plain first second

/-- An operation that writes does nothing but write. -/
theorem Page.apply_of_written (page : Page) {op : PageOp} {channel : Channel}
    {text : String} (hwritten : op.written? = some (channel, text)) :
    (page.apply op).2 = (page.apply (channel.write text)).2 := by
  cases op with
  | print | printForced | plain => cases hwritten; rfl
  | println text =>
      cases hwritten
      exact page.println_eq text
  | plainLine text =>
      cases hwritten
      exact page.plainLine_eq text
  | markLine | openTag | closeTag | clear | requestExit => cases hwritten

/-- The page, as if no exit had been noticed yet. -/
def Page.unnoticed (page : Page) : Page := { page with exited := false }

/-- Only a requested exit has been noticed. -/
def Page.Noticed (page : Page) : Prop :=
  page.exited = true → page.exiting = true

section

variable {page : Page}

theorem Page.Noticed.applyAll (hnoticed : page.Noticed)
    (ops : List PageOp) : (page.applyAll ops).Noticed :=
  exiting_of_exited_stable.keeps.applyAll hnoticed ops

theorem Page.Reachable.noticed (hreachable : page.Reachable) :
    page.Noticed := by
  obtain ⟨scope, lineMarker, ops, rfl⟩ := hreachable
  exact Page.Noticed.applyAll (fun hexited => hexited) ops

theorem Page.Noticed.exited (hnoticed : page.Noticed)
    (hexiting : page.exiting = false) : page.exited = false := by
  cases hexited : page.exited with
  | false => rfl
  | true => rw [← hexiting, hnoticed hexited]

/-- Whether an exit has been noticed yet shows in nothing else that an
operation does. -/
theorem Page.Noticed.unnoticed_apply (hnoticed : page.Noticed)
    (op : PageOp) :
    (page.apply op).2.unnoticed = (page.unnoticed.apply op).2.unnoticed := by
  cases hexiting : page.exiting with
  | true =>
      have hsame : page.unnoticed.exiting = true := hexiting
      rw [apply_of_exiting hexiting, apply_of_exiting hsame, push_eq, push_eq]
      rfl
  | false =>
      have hsame : page.unnoticed = page := by
        rw [unnoticed, ← hnoticed.exited hexiting]
      rw [hsame]

theorem Page.Noticed.unnoticed_applyAll (hnoticed : page.Noticed)
    (ops : List PageOp) :
    (page.applyAll ops).unnoticed =
      (page.unnoticed.applyAll ops).unnoticed := by
  induction ops using List.reverseRecOn with
  | nil => rfl
  | append_singleton ops op ih =>
      have hfresh : page.unnoticed.Noticed := fun hexited => nomatch hexited
      rw [applyAll_append, applyAll_append]
      exact ((hnoticed.applyAll ops).unnoticed_apply op).trans
        (ih ▸ ((hfresh.applyAll ops).unnoticed_apply op).symm)

/-- Writing nothing at most notices an exit. -/
theorem Page.Noticed.unnoticed_write_empty (hnoticed : page.Noticed)
    (channel : Channel) :
    (page.apply (channel.write "")).2.unnoticed = page.unnoticed := by
  cases hexiting : page.exiting with
  | true =>
      rw [apply_of_exiting hexiting]
      cases channel with
      | print | forced | plain => rfl
  | false =>
      have hrunning := hnoticed.exited hexiting
      have hprint : page.print "" = page :=
        unlessExited_of_running hexiting hrunning _
      cases channel with
      | print => exact congrArg unnoticed hprint
      | forced => simp [apply, Channel.write, printForced, push_empty,
          checkExit, hexiting]
      | plain =>
          have hcapture : page.capture "" = page := by
            have hbodies : page.bodies.modifyHead (· ++ "") = page.bodies := by
              cases page.bodies <;> simp
            simp only [capture_eq, ite_self, hbodies]
          simp only [apply, Channel.write, plain, hprint, hcapture, ite_self]

theorem Page.Noticed.applyAll_before (hnoticed : page.Noticed)
    (channel : Channel) (text : String) (ops : List PageOp) :
    (page.applyAll (channel.before text ops)).unnoticed =
      ((page.apply (channel.write text)).2.applyAll ops).unnoticed := by
  have hwrite : (page.apply (channel.write text)).2.Noticed :=
    hnoticed.applyAll [channel.write text]
  unfold Channel.before
  split
  · rename_i hempty
    rw [hnoticed.unnoticed_applyAll, hwrite.unnoticed_applyAll, hempty,
      hnoticed.unnoticed_write_empty]
  · split
    · rfl
    · rename_i op rest
      split
      · rfl
      · rename_i other more hwritten
        split
        · rename_i hsame
          subst hsame
          rw [applyAll_cons, applyAll_cons, apply_of_written _ hwritten,
            apply_write_write]
        · rfl

theorem Page.Noticed.applyAll_merged (hnoticed : page.Noticed)
    (ops : List PageOp) :
    (page.applyAll (merged ops)).unnoticed = (page.applyAll ops).unnoticed := by
  induction ops generalizing page with
  | nil => rfl
  | cons op rest ih =>
      have hop : (page.apply op).2.Noticed := hnoticed.applyAll [op]
      rw [merged]
      split
      · rw [applyAll_cons, applyAll_cons, ih hop]
      · rename_i channel text hwritten
        rw [hnoticed.applyAll_before, ← apply_of_written _ hwritten, ih hop,
          applyAll_cons]

end

/-- Writing in pieces is writing the whole: the texts of two calls of a kind
join, captured or not, and a line is a text with a line break.  So histories
that write the same texts in other calls leave the same output and table. -/
theorem Page.writing_joins :
    (∀ (page : Page) (first second : String),
      (page.print first).print second = page.print (first ++ second) ∧
      (page.printForced first).printForced second =
        page.printForced (first ++ second) ∧
      (page.plain first).plain second = page.plain (first ++ second)) ∧
    (∀ (page : Page) (text : String),
      page.println text = page.print (text ++ "\n") ∧
      page.plainLine text = page.plain (text ++ "\n")) ∧
    ∀ (page : Page) (ops others : List PageOp), page.Reachable →
      merged ops = merged others →
      (page.applyAll ops).output = (page.applyAll others).output ∧
      (page.applyAll ops).lineMap = (page.applyAll others).lineMap := by
  refine ⟨?_, ?_, ?_⟩
  · intro page first second
    exact ⟨page.print_print first second,
      page.printForced_printForced first second, page.plain_plain first second⟩
  · intro page text
    exact ⟨page.println_eq text, page.plainLine_eq text⟩
  · intro page ops others hreachable hmerged
    have hops := hreachable.noticed.applyAll_merged ops
    have hothers := hreachable.noticed.applyAll_merged others
    rw [hmerged] at hops
    have hsame := hops.symm.trans hothers
    exact ⟨(congrArg Page.output hsame :), (congrArg Page.lineMap hsame :)⟩

namespace SplitTextWitness

/-- A mark is pending, and the text after it goes on in a tag. -/
def start : Page :=
  (Page.blank [] "// ").applyAll [.print "a\n", .markLine 7]

/-- Two lines, the first of them marked, and a captured one. -/
def ops : List PageOp :=
  [.println "b\nc", .openTag, .plainLine "d", .plain "", .requestExit,
    .print "", .printForced "e\nf"]

/-- The same text in other calls. -/
def others : List PageOp :=
  [.plain "", .print "b", .print "\n", .println "c", .openTag, .plain "d\n",
    .requestExit, .printForced "e", .printForced "", .printForced "\nf"]

theorem same_in_pieces :
    start.Reachable ∧ merged ops = merged others ∧
    (start.applyAll ops).output = "a\n// 7b\nc\ne\nf" ∧
    (start.applyAll others).output = "a\n// 7b\nc\ne\nf" ∧
    (start.applyAll others).lineMap = [0, 7] := by
  have hreachable : start.Reachable := ⟨[], "// ", _, rfl⟩
  have hmerged : merged ops = merged others := by decide +kernel
  obtain ⟨houtput, hlineMap⟩ :=
    Page.writing_joins.2.2 start ops others hreachable hmerged
  have hpage : (start.applyAll ops).output = "a\n// 7b\nc\ne\nf" ∧
      (start.applyAll ops).lineMap = [0, 7] := by decide +kernel
  exact ⟨hreachable, hmerged, hpage.1, houtput ▸ hpage.1, hlineMap ▸ hpage.2⟩

end SplitTextWitness

end Stencil
