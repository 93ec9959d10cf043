/-
An exit freezes the page for good.  Whatever is done once an exit has been
requested, the output only grows by what is printed by force, the table only
by the mark that was pending, and no tag captures anything any more.
-/
import Stencil.Proofs.PageInvariant

namespace Stencil

/-- What an operation prints by force. -/
def PageOp.forced : PageOp → String
  | .printForced text => text
  | .print _ | .println _ | .plain _ | .plainLine _ | .markLine _
  | .openTag | .closeTag | .clear | .requestExit => ""

/-- All that operations print by force, in order. -/
def forcedText (ops : List PageOp) : String :=
  String.join (ops.map PageOp.forced)

/-- Whether an operation looks at the exit switch, with so many tags being
captured. -/
def PageOp.notices (op : PageOp) (level : Nat) : Bool :=
  match op with
  | .print _ | .println _ | .printForced _ | .markLine _ | .clear => true
  | .plain _ | .plainLine _ => level == 0
  | .openTag | .closeTag | .requestExit => false

/-- What an operation that captures nothing does to the tags: one that is
opened has an empty body, and the one that is closed is the innermost. -/
def PageOp.tags (op : PageOp) (bodies : List String) : List String :=
  match op with
  | .openTag => "" :: bodies
  | .closeTag => bodies.tail
  | .print _ | .println _ | .printForced _ | .plain _ | .plainLine _
  | .markLine _ | .clear | .requestExit => bodies

/-- The tags after operations that capture nothing. -/
def tagsAfter (ops : List PageOp) (bodies : List String) : List String :=
  ops.foldl (fun bodies op => op.tags bodies) bodies

theorem forcedText_cons (op : PageOp) (rest : List PageOp) :
    forcedText (op :: rest) = op.forced ++ forcedText rest := by
  rw [forcedText, List.map_cons, String.join_cons, ← forcedText]

theorem forcedText_eq_empty {ops : List PageOp}
    (hunforced : ∀ text, .printForced text ∉ ops) : forcedText ops = "" := by
  induction ops with
  | nil => rfl
  | cons op rest ih =>
      rw [forcedText_cons, ih fun text hmem =>
        hunforced text (List.mem_cons_of_mem op hmem)]
      cases op with
      | printForced text => exact absurd List.mem_cons_self (hunforced text)
      | print | println | plain | plainLine | markLine | openTag | closeTag
      | clear | requestExit => rfl

theorem Page.closeTag_eq (page : Page) :
    page.closeTag =
      (page.bodies.head?, { page with bodies := page.bodies.tail }) := by
  rcases page with ⟨_, _, _, _, _, _, _ | ⟨body, outer⟩, _, _⟩
  · rfl
  · rfl

theorem Page.level_beq_zero (page : Page) :
    (page.level == 0) = page.bodies.isEmpty := by
  rw [level]
  cases page.bodies with
  | nil => rfl
  | cons body outer => rfl

variable {page : Page}

theorem Page.unlessExited_of_exiting (hexiting : page.exiting = true)
    (change : Page → Page) :
    page.unlessExited change = { page with exited := true } := by
  simp only [unlessExited, checkExit, hexiting, if_true]

theorem Page.capture_of_exiting (hexiting : page.exiting = true)
    (text : String) : page.capture text = page := by
  rw [capture, if_pos hexiting]

theorem Page.plain_of_exiting (hexiting : page.exiting = true)
    (text : String) :
    page.plain text =
      { page with exited := page.exited || page.level == 0 } := by
  rw [plain, level_beq_zero, print, unlessExited_of_exiting hexiting,
    capture_of_exiting hexiting]
  cases page.bodies.isEmpty with
  | true => simp
  | false => simp

theorem Page.plainLine_of_exiting (hexiting : page.exiting = true)
    (text : String) :
    page.plainLine text =
      { page with exited := page.exited || page.level == 0 } := by
  rw [plainLine, level_beq_zero, println, unlessExited_of_exiting hexiting,
    capture_of_exiting hexiting, capture_of_exiting hexiting]
  cases page.bodies.isEmpty with
  | true => simp
  | false => simp

/-- All that one operation does once an exit has been requested. -/
theorem Page.apply_of_exiting (hexiting : page.exiting = true)
    (op : PageOp) :
    (page.apply op).2 =
      { page.push op.forced with
        exited := page.exited || op.notices page.level
        bodies := op.tags page.bodies } := by
  cases op with
  | print | println | markLine | clear =>
      simp [apply, print, println, markLine, clear,
        unlessExited_of_exiting hexiting, PageOp.forced, PageOp.notices,
        PageOp.tags, push_empty]
  | printForced text =>
      simp [apply, printForced, checkExit, push_eq, hexiting, PageOp.forced,
        PageOp.notices, PageOp.tags]
  | plain text =>
      simp [apply, plain_of_exiting hexiting, PageOp.forced, PageOp.notices,
        PageOp.tags, push_empty]
  | plainLine text =>
      simp [apply, plainLine_of_exiting hexiting, PageOp.forced,
        PageOp.notices, PageOp.tags, push_empty]
  | openTag =>
      simp [apply, openTag, PageOp.forced, PageOp.notices, PageOp.tags,
        push_empty]
  | closeTag =>
      simp [apply, closeTag_eq, PageOp.forced, PageOp.notices, PageOp.tags,
        push_empty]
  | requestExit =>
      simp [apply, requestExit, PageOp.forced, PageOp.notices, PageOp.tags,
        push_empty, ← hexiting]

theorem Page.exiting_apply (hexiting : page.exiting = true) (op : PageOp) :
    (page.apply op).2.exiting = true := by
  rw [apply_of_exiting hexiting, push_eq]
  exact hexiting

/-- What captures and the switch do not show is not touched by pushing. -/
theorem Page.push_update (page : Page) (exited : Bool)
    (bodies : List String) (text : String) :
    Page.push { page with exited := exited, bodies := bodies } text =
      { page.push text with exited := exited, bodies := bodies } := by
  rw [push_eq, push_eq]
  rfl

/-- All that operations do once an exit has been requested. -/
theorem Page.applyAll_of_exiting (hexiting : page.exiting = true)
    (ops : List PageOp) :
    page.applyAll ops =
      { page.push (forcedText ops) with
        exited := (page.applyAll ops).exited
        bodies := tagsAfter ops page.bodies } := by
  induction ops generalizing page with
  | nil => rfl
  | cons op rest ih =>
      rw [applyAll_cons, ih (exiting_apply hexiting op),
        apply_of_exiting hexiting op, push_update, forcedText_cons,
        push_append]
      rfl

/-- The switch is noticed by the first operation that looks at it. -/
theorem Page.exited_applyAll_iff (hexiting : page.exiting = true)
    (ops : List PageOp) :
    (page.applyAll ops).exited = true ↔
      page.exited = true ∨ ∃ earlier op later, ops = earlier ++ op :: later ∧
        op.notices (page.applyAll earlier).level = true := by
  induction ops generalizing page with
  | nil => simp [applyAll]
  | cons first rest ih =>
      rw [applyAll_cons, ih (exiting_apply hexiting first),
        apply_of_exiting hexiting first, Bool.or_eq_true, or_assoc]
      apply or_congr_right
      constructor
      · rintro (hfirst | ⟨earlier, op, later, rfl, hop⟩)
        · exact ⟨[], first, rest, rfl, hfirst⟩
        · refine ⟨first :: earlier, op, later, rfl, ?_⟩
          rw [applyAll_cons, apply_of_exiting hexiting first]
          exact hop
      · rintro ⟨earlier, op, later, hsplit, hop⟩
        cases earlier with
        | nil =>
            cases hsplit
            exact Or.inl hop
        | cons _ earlier =>
            cases hsplit
            rw [applyAll_cons, apply_of_exiting hexiting first] at hop
            exact Or.inr ⟨earlier, op, later, rfl, hop⟩

/-- Every tag is one that was open before, with its body as it was, or one
opened since, with nothing in it. -/
theorem tagsAfter_split (ops : List PageOp) (bodies : List String) :
    ∃ opened closed,
      tagsAfter ops bodies =
        List.replicate opened "" ++ bodies.drop closed := by
  have hstack : ∀ opened closed, ∃ later further,
      tagsAfter ops (List.replicate opened "" ++ bodies.drop closed) =
        List.replicate later "" ++ bodies.drop further := by
    induction ops with
    | nil => exact fun opened closed => ⟨opened, closed, rfl⟩
    | cons op rest ih =>
        intro opened closed
        cases op with
        | openTag => exact ih (opened + 1) closed
        | closeTag =>
            cases opened with
            | zero =>
                obtain ⟨later, further, hrest⟩ := ih 0 (closed + 1)
                refine ⟨later, further, ?_⟩
                rw [← hrest, ← List.tail_drop]
                rfl
            | succ opened => exact ih opened closed
        | print | println | printForced | plain | plainLine | markLine
        | clear | requestExit => exact ih opened closed
  exact hstack 0 0

/-- How a page is after further operations, when an exit had been requested
before them. -/
structure Page.Frozen (page : Page) (ops : List PageOp) : Prop where
  output : (page.applyAll ops).output = page.output ++ forcedText ops
  /-- Only the mark that was pending can still reach the table. -/
  lineMap : (page.applyAll ops).lineMap =
    match page.pendingMark with
    | none => page.lineMap
    | some source =>
        if '\n' ∈ (forcedText ops).toList then
          recordLine page.lineMap page.line source
        else page.lineMap
  pendingMark : (page.applyAll ops).pendingMark =
    if '\n' ∈ (forcedText ops).toList then none else page.pendingMark
  bodies : (page.applyAll ops).bodies = tagsAfter ops page.bodies
  tags : ∃ opened closed, (page.applyAll ops).bodies =
    List.replicate opened "" ++ page.bodies.drop closed
  closed : ((page.applyAll ops).apply .closeTag).1 =
    (tagsAfter ops page.bodies).head?
  exiting : (page.applyAll ops).exiting = true
  exited : (page.applyAll ops).exited = true ↔
    page.exited = true ∨ ∃ earlier op later, ops = earlier ++ op :: later ∧
      op.notices (page.applyAll earlier).level = true

/-- A page is frozen only where an exit has been requested. -/
theorem Page.exiting_of_exited_stable :
    Page.Stable fun page => page.exited = true → page.exiting = true where
  put page char hpage := by
    rw [put]
    split <;> exact hpage
  mark page source _ hpushed := hpushed
  clear _ hpage := hpage
  bodies _ _ hpage := hpage
  request _ _ _ := rfl
  notice _ hexiting _ _ := hexiting

/-- An exit freezes the page for good. -/
theorem Page.exit_freezes :
    (∀ (scope : Scope) (lineMarker : String) (ops : List PageOp),
      ((Page.blank scope lineMarker).applyAll ops).exited = true →
      ((Page.blank scope lineMarker).applyAll ops).exiting = true) ∧
    ∀ (page : Page) (ops : List PageOp), page.exiting = true →
      page.Frozen ops := by
  constructor
  · intro scope lineMarker ops
    exact Page.exiting_of_exited_stable.keeps.applyAll (fun h => h) ops
  · intro page ops hexiting
    have hops := applyAll_of_exiting hexiting ops
    have hbodies := congrArg Page.bodies hops
    rw [push_eq] at hops
    refine ⟨?_, ?_, ?_, hbodies, ?_, ?_, ?_, exited_applyAll_iff hexiting ops⟩
    · rw [hops]
    · rw [hops]
      cases hmark : page.pendingMark with
      | none => simp [endLine, hmark]
      | some source => simp [endLine, hmark]
    · rw [hops]
    · rw [hbodies]
      exact tagsAfter_split ops page.bodies
    · rw [apply, closeTag_eq, hbodies]
    · rw [hops]
      exact hexiting

namespace FrozenWitness

/-- Inside a tag, with a mark pending, an exit has been requested. -/
def start : Page :=
  (Page.blank [] "// ").applyAll
    [.print "a\n", .markLine 7, .openTag, .plain "b", .requestExit]

/-- Text that is dropped, and text that is printed by force. -/
def ops : List PageOp :=
  [.plain "c", .openTag, .plain "d", .closeTag, .closeTag, .markLine 8,
    .printForced "!\n", .clear]

theorem frozen :
    start.exiting = true ∧ start.exited = false ∧
    (start.applyAll ops).output = "a\n// 7!\n" ∧
    (start.applyAll ops).lineMap = [0, 7] ∧
    ((start.applyAll (ops.take 3)).apply .closeTag).1 = some "" ∧
    ((start.applyAll (ops.take 4)).apply .closeTag).1 = some "b" ∧
    (start.applyAll (ops.take 5)).exited = false ∧
    (start.applyAll (ops.take 6)).exited = true := by
  have hexiting : start.exiting = true := by decide +kernel
  have hfrozen := fun ops => Page.exit_freezes.2 start ops hexiting
  refine ⟨hexiting, by decide +kernel, ?_, ?_, ?_, ?_, by decide +kernel, ?_⟩
  · rw [(hfrozen ops).output]
    decide +kernel
  · rw [(hfrozen ops).lineMap]
    decide +kernel
  · rw [(hfrozen _).closed]
    decide +kernel
  · rw [(hfrozen _).closed]
    decide +kernel
  · rw [(hfrozen _).exited]
    exact Or.inr ⟨ops.take 5, .markLine 8, [], rfl, rfl⟩

end FrozenWitness

end Stencil
