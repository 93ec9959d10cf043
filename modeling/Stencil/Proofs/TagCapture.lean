/-
Tags capture as a stack.  A tag stays open up to the first operation that
closes more than was opened after it; closing gives back the innermost open tag
with the literal text written while it was the innermost one, and before any
exit.  Nothing that is captured shows on the page, and nothing else changes it.
-/
import Stencil.Proofs.MarkHistory

namespace Stencil

/-- The literal text that an operation writes. -/
def PageOp.literal : PageOp → String
  | .plain text => text
  | .plainLine text => text ++ "\n"
  | .print _ | .println _ | .printForced _ | .markLine _ | .openTag
  | .closeTag | .clear | .requestExit => ""

/-- The operations that a tag is captured with. -/
def PageOp.isCapturing : PageOp → Bool
  | .plain _ | .plainLine _ | .openTag | .closeTag => true
  | .print _ | .println _ | .printForced _ | .markLine _ | .clear
  | .requestExit => false

/-- A tag that is open before the operations is open after them: at no place
have they closed more tags than they have opened. -/
def KeepsOpen (ops : List PageOp) : Prop :=
  ∀ start, start <+: ops → start.count .closeTag ≤ start.count .openTag

instance (ops : List PageOp) : Decidable (KeepsOpen ops) :=
  decidable_of_iff
    (∀ start ∈ ops.inits, start.count .closeTag ≤ start.count .openTag)
    (by simp only [KeepsOpen, List.mem_inits])

/-- The places of the operations that opened a tag which is still open at the
end, the outermost first. -/
def openPlaces (ops : List PageOp) : List Nat :=
  (List.range ops.length).filter fun place =>
    ops[place]? = some .openTag ∧ KeepsOpen (ops.drop (place + 1))

/-- The place of the operation that opened the innermost open tag. -/
def innermost? (ops : List PageOp) : Option Nat := (openPlaces ops).getLast?

/-- The literal text of the operations before which the tag opened at a place
was the innermost open one, and no exit had been requested. -/
def captured (ops : List PageOp) (place : Nat) : String :=
  String.join ((List.range ops.length).map fun later =>
    if innermost? (ops.take later) = some place ∧
        .requestExit ∉ ops.take later then
      (ops[later]?.map PageOp.literal).getD ""
    else "")

/-- The bodies that operations give back, in order. -/
def Page.given (page : Page) : List PageOp → List String
  | [] => []
  | op :: rest => (page.apply op).1.toList ++ (page.apply op).2.given rest

theorem keepsOpen_concat (ops : List PageOp) (op : PageOp) :
    KeepsOpen (ops ++ [op]) ↔ KeepsOpen ops ∧
      (ops ++ [op]).count .closeTag ≤ (ops ++ [op]).count .openTag := by
  constructor
  · intro hkeeps
    refine ⟨?_, hkeeps _ List.prefix_rfl⟩
    exact fun start hstart =>
      hkeeps start (hstart.trans (List.prefix_append _ _))
  · rintro ⟨hkeeps, hall⟩ start hstart
    rcases List.prefix_concat_iff.mp hstart with rfl | hstart
    · exact hall
    · exact hkeeps start hstart

theorem openPlaces_lt {ops : List PageOp} {place : Nat}
    (hplace : place ∈ openPlaces ops) : place < ops.length :=
  List.mem_range.mp (List.mem_filter.mp hplace).1

/-- One more operation keeps of the open tags those that it does not close, and
opens at most one. -/
theorem openPlaces_concat (ops : List PageOp) (op : PageOp) :
    openPlaces (ops ++ [op]) =
      ((openPlaces ops).filter fun place =>
        (ops.drop (place + 1) ++ [op]).count .closeTag ≤
          (ops.drop (place + 1) ++ [op]).count .openTag) ++
        if op = .openTag then [ops.length] else [] := by
  rw [openPlaces, List.length_append, List.length_singleton, List.range_succ,
    List.filter_append, openPlaces, List.filter_filter]
  congr 1
  · apply List.filter_congr
    intro place hplace
    have hlt : place + 1 ≤ ops.length := List.mem_range.mp hplace
    rw [List.getElem?_append_left hlt, List.drop_append_of_le_length hlt,
      ← Bool.decide_and]
    simp only [keepsOpen_concat, and_comm, and_assoc]
  · have hempty : KeepsOpen [] := by
      intro start hstart
      rw [List.prefix_nil.mp hstart]
      exact Nat.le_refl 0
    by_cases hopen : op = .openTag
    · simp [hopen, hempty]
    · simp [hopen]

theorem keepsOpen_of_mem_openPlaces {ops : List PageOp} {place : Nat}
    (hplace : place ∈ openPlaces ops) : KeepsOpen (ops.drop (place + 1)) :=
  (of_decide_eq_true (List.mem_filter.mp hplace).2).2

/-- An operation that closes no tag closes none of the open ones. -/
theorem openPlaces_concat_of_ne {ops : List PageOp} {op : PageOp}
    (hop : op ≠ .closeTag) :
    openPlaces (ops ++ [op]) =
      openPlaces ops ++ if op = .openTag then [ops.length] else [] := by
  rw [openPlaces_concat, List.filter_eq_self.mpr]
  intro place hplace
  have hcounts := keepsOpen_of_mem_openPlaces hplace _ List.prefix_rfl
  have hnone : [op].count .closeTag = 0 := by simp [hop]
  rw [decide_eq_true_eq, List.count_append, List.count_append, hnone]
  exact Nat.le_trans hcounts (Nat.le_add_right _ _)

/-- After each operation that opened a tag, as many more tags were opened than
closed as are open inside that tag. -/
def CountsInside (ops : List PageOp) : Prop :=
  ∀ earlier place later, openPlaces ops = earlier ++ place :: later →
    (ops.drop (place + 1)).count .openTag =
      (ops.drop (place + 1)).count .closeTag + later.length

/-- Closing a tag closes the innermost open one, and no other. -/
theorem CountsInside.openPlaces_concat {ops : List PageOp}
    (hinside : CountsInside ops) :
    openPlaces (ops ++ [.closeTag]) = (openPlaces ops).dropLast := by
  rw [Stencil.openPlaces_concat, if_neg (by simp), List.append_nil]
  rcases (openPlaces ops).eq_nil_or_concat' with hnil | ⟨outer, inner, hplaces⟩
  · rw [hnil]
    rfl
  · rw [hplaces, List.dropLast_concat, List.filter_append,
      List.filter_eq_self.mpr, List.filter_eq_nil_iff.mpr, List.append_nil]
    · intro place hplace
      rw [List.mem_singleton.mp hplace]
      have hnone := hinside outer inner [] hplaces
      simp [hnone]
    · intro place hplace
      obtain ⟨earlier, later, rfl⟩ := List.append_of_mem hplace
      have hmore := hinside earlier place (later ++ [inner]) (by simp [hplaces])
      simp [hmore]

/-- One more operation counts, after each operation that opened a tag. -/
theorem CountsInside.count_concat {ops : List PageOp}
    (hinside : CountsInside ops) (op : PageOp) {earlier later : List Nat}
    {place : Nat} (hplaces : openPlaces ops = earlier ++ place :: later) :
    ((ops ++ [op]).drop (place + 1)).count .openTag + [op].count .closeTag =
      ((ops ++ [op]).drop (place + 1)).count .closeTag +
        (later.length + [op].count .openTag) := by
  have hlt : place + 1 ≤ ops.length := openPlaces_lt (by simp [hplaces])
  have hcount := hinside earlier place later hplaces
  rw [List.drop_append_of_le_length hlt, List.count_append, List.count_append]
  omega

theorem countsInside (ops : List PageOp) : CountsInside ops := by
  induction ops using List.reverseRecOn with
  | nil =>
      intro earlier place later hplaces
      simp [openPlaces] at hplaces
  | append_singleton ops op ih =>
      intro earlier place later hplaces
      by_cases hclose : op = .closeTag
      · -- Every tag that stays open has had one more inside it.
        subst hclose
        rw [ih.openPlaces_concat] at hplaces
        rcases (openPlaces ops).eq_nil_or_concat' with hnil | hinner
        · simp [hnil] at hplaces
        · obtain ⟨outer, inner, hconcat⟩ := hinner
          rw [hconcat, List.dropLast_concat] at hplaces
          have hopened : openPlaces ops =
              earlier ++ place :: (later ++ [inner]) := by
            simp [hconcat, hplaces]
          have hcount := ih.count_concat .closeTag hopened
          simp at hcount ⊢
          omega
      · rw [openPlaces_concat_of_ne hclose] at hplaces
        by_cases hopen : op = .openTag
        · subst hopen
          rw [if_pos rfl] at hplaces
          rcases later.eq_nil_or_concat' with rfl | ⟨inside, last, rfl⟩
          · obtain ⟨_, hplace⟩ := List.append_inj' hplaces rfl
            rw [List.cons.injEq] at hplace
            simp [← hplace.1]
          · obtain ⟨hplaces, _⟩ := List.append_inj' (hplaces.trans
              (List.append_assoc earlier (place :: inside) [last]).symm) rfl
            have hcount := ih.count_concat .openTag hplaces
            simp at hcount ⊢
            omega
        · rw [if_neg hopen, List.append_nil] at hplaces
          have hcount := ih.count_concat op hplaces
          simp [hopen, hclose] at hcount ⊢
          omega

theorem innermost?_lt {ops : List PageOp} {place : Nat}
    (hinnermost : innermost? ops = some place) : place < ops.length :=
  openPlaces_lt (List.mem_of_getLast? hinnermost)

/-- One more operation adds its text to the innermost open tag, and to no
other. -/
theorem captured_concat (ops : List PageOp) (op : PageOp) (place : Nat) :
    captured (ops ++ [op]) place =
      captured ops place ++
        if innermost? ops = some place ∧ .requestExit ∉ ops then op.literal
        else "" := by
  have hearlier : ∀ later ∈ List.range ops.length,
      (ops ++ [op]).take later = ops.take later ∧
        (ops ++ [op])[later]? = ops[later]? := by
    intro later hlater
    have hlt := List.mem_range.mp hlater
    exact ⟨List.take_append_of_le_length (Nat.le_of_lt hlt),
      List.getElem?_append_left hlt⟩
  rw [captured, List.length_append, List.length_singleton, List.range_succ,
    List.map_append, List.map_singleton, String.join_append, captured]
  congr 1
  · congr 1
    apply List.map_congr_left
    intro later hlater
    obtain ⟨htake, hget⟩ := hearlier later hlater
    rw [htake, hget]
  · simp

/-- Nothing is captured in a tag that is opened later. -/
theorem captured_eq_empty {ops : List PageOp} {place : Nat}
    (hlater : ops.length ≤ place) : captured ops place = "" := by
  induction ops using List.reverseRecOn with
  | nil => rfl
  | append_singleton ops op ih =>
      rw [List.length_append, List.length_singleton] at hlater
      have hother : innermost? ops ≠ some place := by
        intro hinnermost
        have hlt := innermost?_lt hinnermost
        omega
      rw [captured_concat, ih (by omega), if_neg fun h => hother h.1]
      rfl

theorem Page.bodies_push (page : Page) (text : String) :
    (page.push text).bodies = page.bodies := by
  rw [push_eq]

theorem Page.bodies_checkExit (page : Page) :
    page.checkExit.bodies = page.bodies := by
  rw [checkExit]
  split <;> rfl

theorem Page.bodies_unlessExited (page : Page) {change : Page → Page}
    (hchange : ∀ page : Page, (change page).bodies = page.bodies) :
    (page.unlessExited change).bodies = page.bodies := by
  simp only [unlessExited]
  split
  · exact page.bodies_checkExit
  · rw [hchange, bodies_checkExit]

/-- What is not literal text and neither opens nor closes a tag leaves all
bodies as they are. -/
theorem Page.bodies_apply_of_not_capturing (page : Page) {op : PageOp}
    (hop : op.isCapturing = false) :
    (page.apply op).2.bodies = page.bodies := by
  cases op with
  | print text =>
      exact page.bodies_unlessExited fun page => page.bodies_push text
  | println text =>
      refine page.bodies_unlessExited fun page => ?_
      rw [bodies_push, bodies_push]
  | printForced text =>
      rw [apply, printForced, bodies_checkExit, bodies_push]
  | markLine source =>
      exact page.bodies_unlessExited fun page => page.bodies_push _
  | clear => exact page.bodies_unlessExited fun _ => rfl
  | requestExit => rfl
  | plain | plainLine | openTag | closeTag => cases hop

/-- Capturing writes to the innermost body, unless an exit was requested. -/
theorem Page.capture_eq (page : Page) (text : String) :
    page.capture text =
      { page with bodies :=
          page.bodies.modifyHead (· ++ if page.exiting then "" else text) } := by
  rcases page with ⟨_, exiting, _, _, _, _, _ | ⟨body, outer⟩, _, _⟩ <;>
    cases exiting <;> simp [capture]

theorem Page.capture_capture (page : Page) (first second : String) :
    (page.capture first).capture second = page.capture (first ++ second) := by
  simp only [capture_eq]
  cases page.exiting with
  | true | false => simp [Function.comp_def, String.append_assoc]

theorem Page.isEmpty_bodies_of_open {page : Page} (hlevel : page.level ≠ 0) :
    page.bodies.isEmpty = false := by
  rw [← level_beq_zero]
  simpa using hlevel

/-- While a tag is open, literal text is captured. -/
theorem Page.apply_of_open {page : Page} (hlevel : page.level ≠ 0) :
    (∀ text, page.plain text = page.capture text) ∧
      ∀ text, page.plainLine text = page.capture (text ++ "\n") := by
  have hopen := isEmpty_bodies_of_open hlevel
  constructor
  · intro text
    simp [plain, hopen]
  · intro text
    simp [plainLine, hopen, capture_capture]

/-- While a tag is open, capturing changes nothing but the bodies. -/
theorem Page.apply_of_capturing {page : Page} (hlevel : page.level ≠ 0)
    {op : PageOp} (hop : op.isCapturing = true) :
    { (page.apply op).2 with bodies := page.bodies } = page := by
  obtain ⟨hplain, hplainLine⟩ := apply_of_open hlevel
  cases op with
  | plain text => rw [apply, hplain, capture_eq]
  | plainLine text => rw [apply, hplainLine, capture_eq]
  | openTag => rfl
  | closeTag => rw [apply, closeTag_eq]
  | print | println | printForced | markLine | clear | requestExit => cases hop

/-- What an operation does to the bodies: its literal text goes to the
innermost one, which it then may close, or open another inside. -/
theorem Page.bodies_apply (page : Page) (op : PageOp) :
    (page.apply op).2.bodies = op.tags (page.bodies.modifyHead
      (· ++ if page.exiting then "" else op.literal)) := by
  have hsame : page.bodies.modifyHead (· ++ if page.exiting then "" else "") =
      page.bodies := by
    cases page.bodies <;> simp
  by_cases hlevel : page.level = 0
  · -- Without an open tag literal text is printed.
    have hnil : page.bodies = [] := List.eq_nil_of_length_eq_zero hlevel
    cases op with
    | plain text =>
        have hprint := @bodies_apply_of_not_capturing page (.print text) rfl
        simpa [apply, plain, hnil, PageOp.tags] using hprint
    | plainLine text =>
        have hprint := @bodies_apply_of_not_capturing page (.println text) rfl
        simpa [apply, plainLine, hnil, PageOp.tags] using hprint
    | openTag => simp [apply, openTag, PageOp.tags, hnil]
    | closeTag => simp [apply, closeTag_eq, PageOp.tags, hnil]
    | print | println | printForced | markLine | clear | requestExit =>
        rw [page.bodies_apply_of_not_capturing rfl, hnil]
        rfl
  · obtain ⟨hplain, hplainLine⟩ := apply_of_open hlevel
    cases op with
    | plain text =>
        rw [apply, hplain, capture_eq]
        rfl
    | plainLine text =>
        rw [apply, hplainLine, capture_eq]
        rfl
    | openTag => rw [PageOp.literal, hsame]; rfl
    | closeTag =>
        rw [PageOp.literal, hsame, apply, closeTag_eq]
        rfl
    | print | println | printForced | markLine | clear | requestExit =>
        rw [page.bodies_apply_of_not_capturing rfl, PageOp.literal, hsame]
        rfl

/-- The text of one more operation goes to the last of the open tags. -/
theorem captured_reverse (ops : List PageOp) (op : PageOp) :
    ((openPlaces ops).reverse.map (captured ops)).modifyHead
        (· ++ if .requestExit ∈ ops then "" else op.literal) =
      (openPlaces ops).reverse.map (captured (ops ++ [op])) := by
  rcases (openPlaces ops).eq_nil_or_concat' with hnil | ⟨outer, inner, hplaces⟩
  · rw [hnil]
    rfl
  · have hinnermost : innermost? ops = some inner := by
      simp [innermost?, hplaces]
    have hnodup : (outer ++ [inner]).Nodup :=
      hplaces ▸ List.nodup_range.filter _
    have houter : ∀ place ∈ outer.reverse,
        captured ops place = captured (ops ++ [op]) place := by
      intro place hplace
      have hother : inner ≠ place := by
        rintro rfl
        exact (List.nodup_append.mp hnodup).2.2 inner
          (List.mem_reverse.mp hplace) inner (List.mem_singleton_self _) rfl
      rw [captured_concat, hinnermost, if_neg (by simp [hother]),
        String.append_empty]
    rw [hplaces, List.reverse_concat, List.map_cons, List.map_cons,
      List.modifyHead_cons, List.map_congr_left houter, captured_concat,
      hinnermost]
    simp only [true_and, ite_not]

/-- Whatever operations a blank page has seen, the bodies of the tags that are
open hold what was captured in each. -/
theorem Page.bodies_applyAll_blank (scope : Scope) (lineMarker : String)
    (ops : List PageOp) :
    ((Page.blank scope lineMarker).applyAll ops).bodies =
      (openPlaces ops).reverse.map (captured ops) := by
  induction ops using List.reverseRecOn with
  | nil => rfl
  | append_singleton ops op ih =>
      have hexiting : ((Page.blank scope lineMarker).applyAll ops).exiting =
          decide (.requestExit ∈ ops) := by
        rw [Bool.eq_iff_iff, exiting_applyAll_iff]
        simp [blank]
      rw [applyAll_append, applyAll_cons, applyAll, List.foldl_nil,
        bodies_apply, ih, hexiting]
      simp only [decide_eq_true_eq, captured_reverse]
      cases op with
      | openTag =>
          rw [openPlaces_concat_of_ne (by simp), if_pos rfl,
            List.reverse_concat, List.map_cons, captured_concat,
            captured_eq_empty (Nat.le_refl _), PageOp.literal, ite_self]
          rfl
      | closeTag =>
          rw [(countsInside ops).openPlaces_concat, ← List.tail_reverse,
            List.map_tail]
          rfl
      | print | println | printForced | plain | plainLine | markLine | clear
      | requestExit =>
          rw [openPlaces_concat_of_ne (by simp), if_neg (by simp),
            List.append_nil]
          rfl

/-- An operation opens a tag, or closes one and gives its body back, or does
neither. -/
theorem Page.level_apply (page : Page) (op : PageOp) :
    (page.apply op).2.level + (page.apply op).1.toList.length =
      page.level + [op].count .openTag := by
  rw [level, level, bodies_apply]
  cases op with
  | openTag => simp [PageOp.tags, apply]
  | closeTag =>
      rw [apply, closeTag_eq]
      cases page.bodies with
      | nil | cons => simp [PageOp.tags]
  | print | println | printForced | plain | plainLine | markLine | clear
  | requestExit => simp [PageOp.tags, apply]

/-- Every tag that was opened is still open, or its body was given back. -/
theorem Page.level_applyAll (page : Page) (ops : List PageOp) :
    (page.applyAll ops).level + (page.given ops).length =
      page.level + ops.count .openTag := by
  induction ops generalizing page with
  | nil => rfl
  | cons op rest ih =>
      have hfirst := page.level_apply op
      have hrest := ih (page.apply op).2
      rw [applyAll_cons, given, List.length_append, ← List.singleton_append,
        List.count_append]
      omega

/-- How a page is after operations, told by the operations alone. -/
structure Page.CapturesAsStack (start : Page) (ops : List PageOp) : Prop where
  /-- Each tag that was opened is open, or closing it gave its body back. -/
  opened : (start.applyAll ops).level + (start.given ops).length =
    ops.count .openTag
  level : (start.applyAll ops).level = (openPlaces ops).length
  bodies : (start.applyAll ops).bodies =
    (openPlaces ops).reverse.map (captured ops)
  /-- Closing gives back what the innermost open tag has captured. -/
  closed : ((start.applyAll ops).apply .closeTag).1 =
    (innermost? ops).map (captured ops)
  unmatched : ((start.applyAll ops).apply .closeTag).1 = none ↔
    (start.applyAll ops).level = 0
  /-- Closing closes the innermost open tag only. -/
  closes : openPlaces (ops ++ [.closeTag]) = (openPlaces ops).dropLast

/-- Tags capture as a stack.  While one is open, capturing changes nothing but
the bodies, and nothing else ever changes a body. -/
theorem Page.captures_as_stack :
    (∀ (scope : Scope) (lineMarker : String) (ops : List PageOp),
      (Page.blank scope lineMarker).CapturesAsStack ops) ∧
    (∀ (page : Page) (op : PageOp), page.level ≠ 0 → op.isCapturing = true →
      { (page.apply op).2 with bodies := page.bodies } = page) ∧
    ∀ (page : Page) (op : PageOp), op.isCapturing = false →
      (page.apply op).2.bodies = page.bodies := by
  refine ⟨?_, fun _ _ hlevel hop => apply_of_capturing hlevel hop,
    fun page _ hop => page.bodies_apply_of_not_capturing hop⟩
  intro scope lineMarker ops
  have hbodies := bodies_applyAll_blank scope lineMarker ops
  have hlevel : ((Page.blank scope lineMarker).applyAll ops).level =
      (openPlaces ops).length := by
    rw [level, hbodies, List.length_map, List.length_reverse]
  have hclosed : (((Page.blank scope lineMarker).applyAll ops).apply
      .closeTag).1 = (innermost? ops).map (captured ops) := by
    rw [apply, closeTag_eq, hbodies, List.head?_map, List.head?_reverse]
    rfl
  refine ⟨?_, hlevel, hbodies, hclosed, ?_,
    (countsInside ops).openPlaces_concat⟩
  · exact (level_applyAll _ ops).trans (Nat.zero_add _)
  · rw [hclosed, hlevel, Option.map_eq_none_iff, innermost?,
      List.getLast?_eq_none_iff, List.length_eq_zero_iff]

namespace TagCaptureWitness

/-- Two tags, the inner one closed before an exit and the outer one after it,
with text on the page and in both, and one closing too many. -/
def ops : List PageOp :=
  [.closeTag, .plain "a\n", .openTag, .plain "b", .openTag, .plainLine "c",
    .print "d\n", .closeTag, .plain "e", .markLine 4, .requestExit,
    .plain "f", .closeTag]

def page : Page := (Page.blank [] "// ").applyAll (ops.take 9)

theorem nested_tags :
    (Page.blank [] "// ").given ops = ["c\n", "be"] ∧
    captured (ops.take 12) 2 = "be" ∧
    page.level ≠ 0 ∧
    ((page.apply (.plainLine "g")).2.output,
      (page.apply (.plainLine "g")).2.line) = (page.output, page.line) ∧
    (page.apply .clear).2.bodies = ["be"] := by
  obtain ⟨hstack, hkeeps, hbodies⟩ := Page.captures_as_stack
  have hlevel : page.level ≠ 0 := by decide +kernel
  have hline := hkeeps page (.plainLine "g") hlevel rfl
  have hbefore := (hstack [] "// " (ops.take 9)).bodies
  refine ⟨by decide +kernel, by decide +kernel, hlevel, ?_, ?_⟩
  · exact congrArg (fun page => (page.output, page.line)) hline
  · rw [hbodies page .clear rfl, page, hbefore]
    decide +kernel

end TagCaptureWitness

end Stencil
