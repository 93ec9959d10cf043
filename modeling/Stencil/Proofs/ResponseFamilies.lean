/-
What the handles of one family of responses show: the text set last and what was
written since, and no call on another family reaches it.  Since the bytes are
decoded together, a text may be written in any pieces.
-/
import Stencil.Proofs.Decoding
import Stencil.Proofs.HandleFamilies

namespace Stencil

/-- A call and how it went. -/
structure DeskEntry where
  handle : Nat
  op : ResponseOp
  result : Except SinkError Unit

/-- What a call has written. -/
def DeskEntry.written (entry : DeskEntry) : List UInt8 :=
  match entry.op, entry.result with
  | .writeAll bytes, .ok () => bytes
  | _, _ => []

/-- The text that a call sets. -/
def DeskEntry.text? (entry : DeskEntry) : Option String :=
  match entry.op with
  | .setText text => some text
  | .writeAll _ | .flush | .shutdown | .clone | .fresh => none

/-- The calls with how they went, in order. -/
def ResponseDesk.log (desk : ResponseDesk) :
    List (Nat × ResponseOp) → List DeskEntry
  | [] => []
  | call :: rest =>
      ⟨call.1, call.2, (desk.apply call.1 call.2).1⟩ ::
        (desk.apply call.1 call.2).2.log rest

/-- The calls on one family. -/
def familyLog (calls : List (Nat × ResponseOp)) (family : Nat) :
    List DeskEntry :=
  (ResponseDesk.initial.log calls).filter
    (fun entry => founder (origins calls) entry.handle = family)

/-- The bytes of the text set last, if one was, and then all that was written
since. -/
def contents (log : List DeskEntry) : List UInt8 :=
  ((log.reverse.findSome? DeskEntry.text?).map utf8).getD [] ++
    (log.reverse.takeWhile (fun entry => entry.text?.isNone)).reverse.flatMap
      DeskEntry.written

/-- The response that calls leave. -/
def Response.ofLog (log : List DeskEntry) : Response :=
  ⟨contents log, log.any (fun entry => decide (entry.op = .shutdown))⟩

/-- One call more sets the text, or adds what it has written. -/
theorem Response.ofLog_concat (log : List DeskEntry) (entry : DeskEntry) :
    Response.ofLog (log ++ [entry]) =
      ⟨match entry.text? with
        | some text => utf8 text
        | none => (ofLog log).bytes ++ entry.written,
        (ofLog log).closed || decide (entry.op = .shutdown)⟩ := by
  have hcontents : contents (log ++ [entry]) =
      match entry.text? with
      | some text => utf8 text
      | none => contents log ++ entry.written := by
    rw [contents, List.reverse_concat, List.findSome?_cons]
    cases htext : entry.text? with
    | some text => simp [htext]
    | none => simp [htext, contents]
  simp [ofLog, hcontents]

/-- One call more leaves what it does to what was left before. -/
theorem Response.ofLog_after (log : List DeskEntry) (handle : Nat)
    (op : ResponseOp) :
    Response.ofLog (log ++ [⟨handle, op, ((ofLog log).after op).1⟩]) =
      ((ofLog log).after op).2 := by
  rw [Response.ofLog_concat]
  obtain ⟨bytes, closed⟩ := ofLog log
  cases op with
  | writeAll more =>
      rw [Response.after, Response.writeAll_eq]
      by_cases hrefused : more ≠ [] ∧ closed = true
      · simp [hrefused, DeskEntry.text?, DeskEntry.written]
      · simp only [if_neg hrefused]
        simp [DeskEntry.text?, DeskEntry.written]
  | setText | flush | shutdown | clone | fresh =>
      simp [DeskEntry.text?, DeskEntry.written, Response.after,
        Response.setText, Sink.flush, Sink.shutdown]

theorem ResponseDesk.log_concat (desk : ResponseDesk)
    (calls : List (Nat × ResponseOp)) (call : Nat × ResponseOp) :
    desk.log (calls ++ [call]) = desk.log calls ++
      [⟨call.1, call.2, ((desk.applyAll calls).apply call.1 call.2).1⟩] := by
  induction calls generalizing desk with
  | nil => rfl
  | cons first rest ih =>
      rw [List.cons_append, log, log, ih, List.cons_append]
      rfl

/-- How the desk is after calls from the start. -/
structure Follows (calls : List (Nat × ResponseOp)) : Prop where
  count : (ResponseDesk.initial.applyAll calls).handles.length =
    (origins calls).length
  placed : (ResponseDesk.initial.applyAll calls).Placed
  /-- Handles lead to one place where they are of one family. -/
  shares : ∀ first < (origins calls).length,
    ∀ second < (origins calls).length,
      ((ResponseDesk.initial.applyAll calls).handles[first]? =
        (ResponseDesk.initial.applyAll calls).handles[second]? ↔
      founder (origins calls) first = founder (origins calls) second)
  logged : ∀ entry ∈ ResponseDesk.initial.log calls,
    entry.handle < (origins calls).length
  holds : ∀ handle < (origins calls).length,
    (ResponseDesk.initial.applyAll calls).response handle =
      Response.ofLog (familyLog calls (founder (origins calls) handle))

section

variable {calls : List (Nat × ResponseOp)} {call : Nat × ResponseOp}

theorem follows_nil : Follows [] where
  count := rfl
  placed := by
    intro place hplace
    rw [List.mem_singleton.mp hplace]
    exact Nat.one_pos
  shares := by
    intro first hfirst second hsecond
    rw [Nat.lt_one_iff.mp hfirst, Nat.lt_one_iff.mp hsecond]
    exact iff_of_true rfl rfl
  logged := fun _ hentry => absurd hentry List.not_mem_nil
  holds := by
    intro handle hhandle
    rw [Nat.lt_one_iff.mp hhandle]
    rfl

/-- One call more is logged in the family of its handle. -/
theorem Follows.familyLog_concat (hfollows : Follows calls)
    (hcall : call.1 < (origins calls).length) (family : Nat) :
    familyLog (calls ++ [call]) family = familyLog calls family ++
      if founder (origins calls) call.1 = family then
        [⟨call.1, call.2,
          ((ResponseDesk.initial.applyAll calls).apply call.1 call.2).1⟩]
      else [] := by
  have hkept : ∀ handle < (origins calls).length,
      founder (origins (calls ++ [call])) handle =
        founder (origins calls) handle := by
    intro handle hhandle
    rw [origins_concat]
    exact founder_append hhandle
  rw [familyLog, ResponseDesk.log_concat, List.filter_append, familyLog]
  congr 1
  · apply List.filter_congr
    intro entry hentry
    rw [hkept _ (hfollows.logged entry hentry)]
  · simp only [List.filter_cons, List.filter_nil, hkept _ hcall,
      decide_eq_true_eq]

/-- One call more does its operation to what the log tells of the family of
its handle, and leaves what it tells of the others. -/
theorem Follows.ofLog_familyLog_concat (hfollows : Follows calls)
    (hcall : call.1 < (origins calls).length) (family : Nat) :
    Response.ofLog (familyLog (calls ++ [call]) family) =
      if founder (origins calls) call.1 = family then
        ((Response.ofLog (familyLog calls family)).after call.2).2
      else Response.ofLog (familyLog calls family) := by
  rw [hfollows.familyLog_concat hcall]
  by_cases hfamily : founder (origins calls) call.1 = family
  · rw [if_pos hfamily, if_pos hfamily, ResponseDesk.apply_fst,
      hfollows.holds _ hcall, hfamily, Response.ofLog_after]
  · rw [if_neg hfamily, if_neg hfamily, List.append_nil]

/-- One call more leaves the old handles in the families where they are, with
what the log tells of these. -/
theorem Follows.holds_concat (hfollows : Follows calls)
    (hcall : call.1 < (origins calls).length) {handle : Nat}
    (hhandle : handle < (origins calls).length) :
    (ResponseDesk.initial.applyAll (calls ++ [call])).response handle =
      Response.ofLog (familyLog (calls ++ [call])
        (founder (origins calls) handle)) := by
  have hcount := hfollows.count
  rw [ResponseDesk.applyAll_concat, hfollows.ofLog_familyLog_concat hcall,
    ResponseDesk.response_apply hfollows.placed (hcount ▸ hcall)
      (hcount ▸ hhandle),
    hfollows.holds _ hcall, hfollows.holds _ hhandle]
  simp only [hfollows.shares handle hhandle call.1 hcall]
  by_cases hfamily : founder (origins calls) handle =
      founder (origins calls) call.1
  · rw [if_pos hfamily, if_pos hfamily.symm, hfamily]
  · rw [if_neg hfamily, if_neg (Ne.symm hfamily)]

/-- Handles go on to share their places by family where the new one does. -/
theorem shares_concat {handles : List Nat} {origins : List (Option Nat)}
    {place : Nat} {origin : Option Nat}
    (hcount : handles.length = origins.length)
    (hshares : ∀ first < origins.length, ∀ second < origins.length,
      (handles[first]? = handles[second]? ↔
        founder origins first = founder origins second))
    (hnew : ∀ handle < origins.length,
      (handles[handle]? = some place ↔ founder origins handle =
        founder (origins ++ [origin]) origins.length)) :
    ∀ first < (origins ++ [origin]).length,
      ∀ second < (origins ++ [origin]).length,
        ((handles ++ [place])[first]? = (handles ++ [place])[second]? ↔
          founder (origins ++ [origin]) first =
            founder (origins ++ [origin]) second) := by
  have hold : ∀ handle < origins.length,
      (handles ++ [place])[handle]? = handles[handle]? ∧
        founder (origins ++ [origin]) handle = founder origins handle :=
    fun handle hhandle => ⟨List.getElem?_append_left (hcount ▸ hhandle),
      founder_append hhandle⟩
  have hlast : (handles ++ [place])[origins.length]? = some place := by
    rw [← hcount, List.getElem?_concat_length]
  intro first hfirst second hsecond
  rw [List.length_append, List.length_singleton] at hfirst hsecond
  rcases Nat.lt_succ_iff_lt_or_eq.mp hfirst with hfirst | rfl
  · rcases Nat.lt_succ_iff_lt_or_eq.mp hsecond with hsecond | rfl
    · rw [(hold _ hfirst).1, (hold _ hsecond).1, (hold _ hfirst).2,
        (hold _ hsecond).2]
      exact hshares first hfirst second hsecond
    · rw [(hold _ hfirst).1, (hold _ hfirst).2, hlast]
      exact hnew first hfirst
  · rcases Nat.lt_succ_iff_lt_or_eq.mp hsecond with hsecond | rfl
    · rw [(hold _ hsecond).1, (hold _ hsecond).2, hlast, eq_comm,
        hnew second hsecond, eq_comm]
    · exact iff_of_true rfl rfl

theorem Follows.logged_concat (hfollows : Follows calls)
    (hcall : call.1 < (origins calls).length) :
    ∀ entry ∈ ResponseDesk.initial.log (calls ++ [call]),
      entry.handle < (origins (calls ++ [call])).length := by
  intro entry hentry
  rw [origins_concat, List.length_append]
  apply Nat.lt_add_right
  rw [ResponseDesk.log_concat, List.mem_append] at hentry
  rcases hentry with hold | hnew
  · exact hfollows.logged entry hold
  · rw [List.mem_singleton.mp hnew]
    exact hcall

/-- A call that makes no handle. -/
theorem Follows.concat_of_none (hfollows : Follows calls)
    (hcall : call.1 < (origins calls).length) (hnone : origin? call = none) :
    Follows (calls ++ [call]) := by
  have horigins : origins (calls ++ [call]) = origins calls := by
    rw [origins_concat, hnone]
    exact List.append_nil _
  have hhandles : (ResponseDesk.initial.applyAll (calls ++ [call])).handles =
      (ResponseDesk.initial.applyAll calls).handles := by
    rw [ResponseDesk.applyAll_concat, ResponseDesk.handles_apply]
    obtain ⟨handle, op⟩ := call
    cases op with
    | writeAll | setText | flush | shutdown => exact List.append_nil _
    | clone | fresh => cases hnone
  refine ⟨?_, ?_, ?_, hfollows.logged_concat hcall, ?_⟩
  · rw [hhandles, horigins, hfollows.count]
  · rw [ResponseDesk.applyAll_concat]
    exact hfollows.placed.apply _ _
  · rw [hhandles, horigins]
    exact hfollows.shares
  · rw [horigins]
    exact fun handle hhandle => hfollows.holds_concat hcall hhandle

/-- A call that makes a handle, when the handle leads where its family does and
to what the log tells of it. -/
theorem Follows.concat_of_some (hfollows : Follows calls) {place : Nat}
    {origin : Option Nat} (hcall : call.1 < (origins calls).length)
    (horigin : origin? call = some origin)
    (hhandles : (ResponseDesk.initial.applyAll (calls ++ [call])).handles =
      (ResponseDesk.initial.applyAll calls).handles ++ [place])
    (hnew : ∀ handle < (origins calls).length,
      ((ResponseDesk.initial.applyAll calls).handles[handle]? = some place ↔
        founder (origins calls) handle =
          founder (origins calls ++ [origin]) (origins calls).length))
    (hlast : (ResponseDesk.initial.applyAll (calls ++ [call])).response
        (origins calls).length =
      Response.ofLog (familyLog (calls ++ [call])
        (founder (origins calls ++ [origin]) (origins calls).length))) :
    Follows (calls ++ [call]) := by
  have horigins : origins (calls ++ [call]) = origins calls ++ [origin] := by
    rw [origins_concat, horigin, Option.toList_some]
  refine ⟨?_, ?_, ?_, hfollows.logged_concat hcall, ?_⟩
  · rw [hhandles, horigins, List.length_append, List.length_append,
      hfollows.count]
    rfl
  · rw [ResponseDesk.applyAll_concat]
    exact hfollows.placed.apply _ _
  · rw [hhandles, horigins]
    exact shares_concat hfollows.count hfollows.shares hnew
  · rw [horigins]
    intro handle hhandle
    rw [List.length_append, List.length_singleton] at hhandle
    rcases Nat.lt_succ_iff_lt_or_eq.mp hhandle with hold | rfl
    · rw [founder_append hold]
      exact hfollows.holds_concat hcall hold
    · exact hlast

/-- A clone joins the family of its handle. -/
theorem Follows.concat_clone {handle : Nat} (hfollows : Follows calls)
    (hhandle : handle < (origins calls).length) :
    Follows (calls ++ [(handle, .clone)]) := by
  have hclone := founder_clone hhandle
  have hlt := hhandle
  rw [← hfollows.count] at hlt
  obtain ⟨place, hget⟩ : ∃ place,
      (ResponseDesk.initial.applyAll calls).handles[handle]? = some place :=
    ⟨_, List.getElem?_eq_getElem hlt⟩
  have hhandles : (ResponseDesk.initial.applyAll
      (calls ++ [(handle, .clone)])).handles =
        (ResponseDesk.initial.applyAll calls).handles ++ [place] := by
    rw [ResponseDesk.applyAll_concat, ResponseDesk.handles_apply]
    simp only [hget, Option.toList_some]
  refine hfollows.concat_of_some hhandle rfl hhandles
    (fun other hother => ?_) ?_
  · rw [← hget, hfollows.shares other hother handle hhandle, hclone]
  · have hkept := @Follows.holds_concat calls (handle, .clone) hfollows hhandle
      handle hhandle
    rw [hclone, ← hkept]
    apply ResponseDesk.response_congr
    rw [hhandles, ← hfollows.count, List.getElem?_concat_length,
      List.getElem?_append_left hlt, hget]

/-- A new response starts a family that no call was on before. -/
theorem Follows.concat_fresh {handle : Nat} (hfollows : Follows calls)
    (hhandle : handle < (origins calls).length) :
    Follows (calls ++ [(handle, .fresh)]) := by
  have hhandles : (ResponseDesk.initial.applyAll
      (calls ++ [(handle, .fresh)])).handles =
        (ResponseDesk.initial.applyAll calls).handles ++
          [(ResponseDesk.initial.applyAll calls).responses.length] := by
    rw [ResponseDesk.applyAll_concat, ResponseDesk.handles_apply]
  have hother : ∀ other < (origins calls).length,
      founder (origins calls) other ≠ (origins calls).length := by
    intro other hlt
    exact Nat.ne_of_lt (Nat.lt_of_le_of_lt (founder_le _ _) hlt)
  refine hfollows.concat_of_some hhandle rfl hhandles (fun other hlt => ?_) ?_
  · rw [founder_fresh]
    refine iff_of_false (fun hget => ?_) (hother other hlt)
    have hplace := hfollows.placed _ (List.mem_of_getElem? hget)
    exact Nat.lt_irrefl _ hplace
  · have hempty : familyLog calls (origins calls).length = [] := by
      apply List.filter_eq_nil_iff.mpr
      intro entry hentry
      simp [hother _ (hfollows.logged entry hentry)]
    rw [founder_fresh, hfollows.familyLog_concat hhandle, hempty,
      if_neg (hother handle hhandle), ← hfollows.count,
      ResponseDesk.applyAll_concat]
    simp [ResponseDesk.apply, ResponseDesk.response, Response.ofLog, contents,
      Response.fresh]

/-- The desk follows the calls, whatever they are. -/
theorem follows (hcalls : Sensible calls) : Follows calls := by
  induction calls using List.reverseRecOn with
  | nil => exact follows_nil
  | append_singleton calls call ih =>
      obtain ⟨hbefore, hcall⟩ := sensible_concat.mp hcalls
      obtain ⟨handle, op⟩ := call
      cases op with
      | writeAll | setText | flush | shutdown =>
          exact (ih hbefore).concat_of_none hcall rfl
      | clone => exact (ih hbefore).concat_clone hcall
      | fresh => exact (ih hbefore).concat_fresh hcall

end

section

variable {calls more : List (Nat × ResponseOp)} {handle other : Nat}

/-- The operations that calls do on one family. -/
def opsOn (origins : List (Option Nat)) (calls : List (Nat × ResponseOp))
    (family : Nat) : List ResponseOp :=
  (calls.filter (fun call => founder origins call.1 = family)).map Prod.snd

theorem opsOn_concat (hcalls : Sensible calls) {call : Nat × ResponseOp}
    (hmore : more ⊆ calls) (hcall : call.1 < (origins calls).length)
    (family : Nat) :
    opsOn (origins (calls ++ [call])) (more ++ [call]) family =
      opsOn (origins calls) more family ++
        if founder (origins calls) call.1 = family then [call.2] else [] := by
  have hkept : ∀ handle < (origins calls).length,
      founder (origins (calls ++ [call])) handle =
        founder (origins calls) handle := by
    intro handle hhandle
    rw [origins_concat]
    exact founder_append hhandle
  rw [opsOn, List.filter_append, List.map_append, opsOn]
  congr 2
  · apply List.filter_congr
    intro old hold
    rw [hkept _ (lt_of_mem_sensible hcalls (hmore hold))]
  · rw [List.filter_cons, hkept _ hcall]
    split <;> simp_all

/-- What was shut down stays so. -/
theorem Response.ofLog_closed_append (hcalls : Sensible (calls ++ more))
    {family : Nat}
    (hclosed : (Response.ofLog (familyLog calls family)).closed = true) :
    (Response.ofLog (familyLog (calls ++ more) family)).closed = true := by
  induction more using List.reverseRecOn with
  | nil => rwa [List.append_nil]
  | append_singleton more call ih =>
      rw [← List.append_assoc] at hcalls ⊢
      obtain ⟨hbefore, hcall⟩ := sensible_concat.mp hcalls
      rw [(follows hbefore).ofLog_familyLog_concat hcall]
      split
      · exact Response.after_closed (ih hbefore) _
      · exact ih hbefore

/-- What is written to an open response is added to it. -/
theorem Response.ofLog_append_of_appends (hcalls : Sensible (calls ++ more))
    {family : Nat} {bytes : List UInt8}
    (hopen : Response.ofLog (familyLog calls family) = ⟨bytes, false⟩)
    (happends : ∀ op ∈ opsOn (origins (calls ++ more)) more family,
      op.Appends) :
    Response.ofLog (familyLog (calls ++ more) family) =
      ⟨bytes ++ (opsOn (origins (calls ++ more)) more family).flatMap
        ResponseOp.chunk, false⟩ := by
  induction more using List.reverseRecOn with
  | nil => simp [hopen, opsOn]
  | append_singleton more call ih =>
      rw [← List.append_assoc] at hcalls happends ⊢
      obtain ⟨hbefore, hcall⟩ := sensible_concat.mp hcalls
      rw [opsOn_concat hbefore (List.subset_append_right _ _) hcall]
        at happends ⊢
      have hopen := ih hbefore
        fun op hop => happends op (List.mem_append_left _ hop)
      rw [(follows hbefore).ofLog_familyLog_concat hcall, hopen]
      split
      · rename_i hfamily
        rw [if_pos hfamily] at happends
        have hlast := happends call.2 (List.mem_append_right _
          (List.mem_singleton_self _))
        rw [Response.after_of_appends hlast, List.flatMap_append,
          List.append_assoc, List.flatMap_singleton]
      · rw [List.append_nil]

theorem Response.ofLog_closed {log : List DeskEntry} :
    (ofLog log).closed = true ↔ ∃ entry ∈ log, entry.op = .shutdown := by
  simp [ofLog]

/-- Whatever is done with handles of responses, these hold of the handles then.
Those of one family show one response.  A call changes nothing for the other
families.  The bytes are the text set last with all that was written since, and
the response is closed where one of the calls was a shutdown.  A write fails
where it has bytes and comes after a shutdown, and then changes nothing.  What
is closed stays closed.  A text that is added in any pieces, through any handles
of the family, to an open response with a text comes after that text. -/
theorem families_hold (hcalls : Sensible calls) :
    let count := (origins calls).length
    let family := founder (origins calls)
    let desk := ResponseDesk.initial.applyAll calls
    (∀ first < count, ∀ second < count, family first = family second →
      desk.response first = desk.response second) ∧
    (∀ handle < count, ∀ other < count, family other ≠ family handle →
      ∀ op, (desk.apply handle op).2.response other = desk.response other) ∧
    (∀ handle < count, desk.response handle =
      ⟨contents (familyLog calls (family handle)),
        decide (∃ entry ∈ familyLog calls (family handle),
          entry.op = .shutdown)⟩) ∧
    (∀ handle < count, ∀ bytes,
      ((desk.apply handle (.writeAll bytes)).1 ≠ .ok () ↔ bytes ≠ [] ∧
        ∃ entry ∈ familyLog calls (family handle), entry.op = .shutdown) ∧
      ((desk.apply handle (.writeAll bytes)).1 ≠ .ok () →
        desk.apply handle (.writeAll bytes) = (.error .alreadyEnded, desk))) ∧
    (∀ more, Sensible (calls ++ more) → ∀ handle < count,
      (desk.response handle).closed = true →
        ((ResponseDesk.initial.applyAll (calls ++ more)).response
          handle).closed = true) ∧
    (∀ more, Sensible (calls ++ more) → ∀ handle < count, ∀ old new,
      desk.response handle = ⟨utf8 old, false⟩ →
      (∀ op ∈ opsOn (origins (calls ++ more)) more (family handle),
        op.Appends) →
      (opsOn (origins (calls ++ more)) more (family handle)).flatMap
        ResponseOp.chunk = utf8 new →
      ∀ other < (origins (calls ++ more)).length,
        founder (origins (calls ++ more)) other = family handle →
          ((ResponseDesk.initial.applyAll (calls ++ more)).response
            other).text = old ++ new) := by
  intro count family desk
  have hfollows := follows hcalls
  have hlater : ∀ more, origins calls <+: origins (calls ++ more) := by
    intro more
    simp [origins]
  refine ⟨?_, ?_, ?_, ?_, ?_, ?_⟩
  · intro first hfirst second hsecond hfamily
    exact ResponseDesk.response_congr
      ((hfollows.shares first hfirst second hsecond).mpr hfamily)
  · intro handle hhandle other hother hfamily op
    rw [ResponseDesk.response_apply hfollows.placed
      (hfollows.count ▸ hhandle) (hfollows.count ▸ hother)]
    refine if_neg fun hget => hfamily ?_
    exact (hfollows.shares other hother handle hhandle).mp hget
  · intro handle hhandle
    rw [hfollows.holds handle hhandle, Response.ofLog]
    congr 1
    exact Bool.eq_iff_iff.mpr (by simp [family])
  · intro handle hhandle bytes
    rw [← Response.ofLog_closed, ← hfollows.holds handle hhandle]
    exact ResponseDesk.apply_writeAll hfollows.placed
      (hfollows.count ▸ hhandle) bytes
  · intro more hmore handle hhandle hclosed
    obtain ⟨later, hlater⟩ := hlater more
    have hafter := (follows hmore).holds handle
      (hlater ▸ List.length_append ▸ Nat.lt_add_right _ hhandle)
    rw [← hlater, founder_append hhandle] at hafter
    rw [hfollows.holds handle hhandle] at hclosed
    rw [hafter]
    exact Response.ofLog_closed_append hmore hclosed
  · intro more hmore handle hhandle old new hopen happends hnew other hother
      hfamily
    rw [hfollows.holds handle hhandle] at hopen
    rw [(follows hmore).holds other hother, hfamily,
      Response.ofLog_append_of_appends hmore hopen happends, hnew,
      Response.text, ← utf8_append, ofUtf8Lossy_utf8]

end

namespace ResponseFamiliesWitness

/-- Handles `0`, `1` and `2` of one family, of which the last is a clone of a
clone, and handle `3` of another, which is shut down. -/
def calls : List (Nat × ResponseOp) :=
  [(0, .clone), (1, .clone), (2, .fresh), (3, .writeAll [0x78]),
    (1, .setText "café "), (3, .shutdown)]

/-- The two halves of a character, through two handles, with a call on the other
family between them. -/
def more : List (Nat × ResponseOp) :=
  [(2, .writeAll [0xC3]), (3, .setText "y"), (0, .writeAll [0xA9]), (2, .clone)]

theorem halves_through_two_handles :
    Sensible calls ∧ Sensible (calls ++ more) ∧
    ((ResponseDesk.initial.applyAll (calls ++ more)).response 4).text =
      "café " ++ "é" ∧
    (ResponseDesk.initial.applyAll calls).apply 3 (.writeAll [0x21]) =
      (.error .alreadyEnded, ResponseDesk.initial.applyAll calls) := by
  have hcalls : Sensible calls := by decide
  have hmore : Sensible (calls ++ more) := by decide
  obtain ⟨-, -, -, hwrite, -, htext⟩ := families_hold hcalls
  refine ⟨hcalls, hmore, ?_, ?_⟩
  · refine htext more hmore 2 (by decide) "café " "é" (by decide +kernel) ?_ ?_
      4 (by decide) ?_
    · decide +kernel
    · decide +kernel
    · decide +kernel
  · exact (hwrite 3 (by decide) [0x21]).2 (by decide +kernel)

end ResponseFamiliesWitness

end Stencil
