/-
Families of handles to responses.  A call reaches the response of its handle and
no other.  A handle is made by a call that clones one or that starts a response,
so the calls say which handles there are and which come from one start.
-/
import Mathlib.Data.List.Induction
import Stencil.Response

namespace Stencil

/-- What an operation does to a response, as far as it is one on it. -/
def Response.after (response : Response) :
    ResponseOp → Except SinkError Unit × Response
  | .writeAll bytes => Sink.writeAll response bytes
  | .setText text => (.ok (), response.setText text)
  | .flush => Sink.flush response
  | .shutdown => Sink.shutdown response
  | .clone | .fresh => (.ok (), response)

/-- A response takes bytes all at once, unless there are some and it was shut
down. -/
theorem Response.writeAll_eq (response : Response) (bytes : List UInt8) :
    Sink.writeAll response bytes =
      if bytes ≠ [] ∧ response.closed = true then
        (.error .alreadyEnded, response)
      else (.ok (), { response with bytes := response.bytes ++ bytes }) := by
  cases bytes with
  | nil => simp [Sink.writeAll]
  | cons byte rest =>
      rw [Sink.writeAll]
      cases hclosed : response.closed with
      | true => simp [Sink.write, hclosed]
      | false => simp [Sink.write, hclosed, Sink.writeAll]

/-- The bytes that an operation is given to write. -/
def ResponseOp.chunk : ResponseOp → List UInt8
  | .writeAll bytes => bytes
  | .setText _ | .flush | .shutdown | .clone | .fresh => []

/-- Whether an operation at most adds bytes. -/
def ResponseOp.Appends : ResponseOp → Prop
  | .setText _ | .shutdown => False
  | .writeAll _ | .flush | .clone | .fresh => True

instance : DecidablePred ResponseOp.Appends
  | .setText _ | .shutdown => inferInstanceAs (Decidable False)
  | .writeAll _ | .flush | .clone | .fresh => inferInstanceAs (Decidable True)

theorem Response.after_of_appends {op : ResponseOp} (happends : op.Appends)
    (bytes : List UInt8) :
    ((⟨bytes, false⟩ : Response).after op).2 = ⟨bytes ++ op.chunk, false⟩ := by
  cases op with
  | setText | shutdown => exact happends.elim
  | writeAll more =>
      rw [after, writeAll_eq, if_neg (fun h => Bool.false_ne_true h.2)]
      rfl
  | flush | clone | fresh => simp [after, Sink.flush, ResponseOp.chunk]

theorem Response.after_closed {response : Response}
    (hclosed : response.closed = true) (op : ResponseOp) :
    (response.after op).2.closed = true := by
  cases op with
  | writeAll bytes =>
      rw [after, writeAll_eq]
      split <;> exact hclosed
  | shutdown => rfl
  | setText | flush | clone | fresh => exact hclosed

/-- Every handle leads to a response. -/
def ResponseDesk.Placed (desk : ResponseDesk) : Prop :=
  ∀ place ∈ desk.handles, place < desk.responses.length

section

variable {desk : ResponseDesk} {handle other : Nat}

/-- Handles that lead to one place lead to one response. -/
theorem ResponseDesk.response_congr
    (hsame : desk.handles[other]? = desk.handles[handle]?) :
    desk.response other = desk.response handle := by
  rw [response, response, hsame]

/-- Putting the response of a handle back changes it for the handles that lead
to it, and changes no other. -/
theorem ResponseDesk.response_replace (hplaced : desk.Placed)
    (hhandle : handle < desk.handles.length) (changed : Response) :
    (desk.replace handle changed).response other =
      if desk.handles[other]? = desk.handles[handle]? then changed
      else desk.response other := by
  obtain ⟨place, hget⟩ : ∃ place, desk.handles[handle]? = some place :=
    ⟨_, List.getElem?_eq_getElem hhandle⟩
  have hplace := hplaced place (List.mem_of_getElem? hget)
  rw [replace, hget, response, response]
  cases hother : desk.handles[other]? with
  | none => rfl
  | some elsewhere =>
      by_cases hsame : elsewhere = place
      · simp [hsame, hplace]
      · simp [hsame, Ne.symm hsame]

theorem ResponseDesk.replace_response (hplaced : desk.Placed)
    (hhandle : handle < desk.handles.length) :
    desk.replace handle (desk.response handle) = desk := by
  have hget := List.getElem?_eq_getElem hhandle
  have hplace := hplaced _ (List.getElem_mem hhandle)
  simp [replace, response, hget, hplace]

theorem ResponseDesk.apply_fst (desk : ResponseDesk) (handle : Nat)
    (op : ResponseOp) :
    (desk.apply handle op).1 = ((desk.response handle).after op).1 := by
  cases op with
  | clone =>
      rw [apply]
      split <;> rfl
  | writeAll | setText | flush | shutdown | fresh => rfl

/-- A call reaches the response of its handle, and no other. -/
theorem ResponseDesk.response_apply (hplaced : desk.Placed)
    (hhandle : handle < desk.handles.length)
    (hother : other < desk.handles.length) (op : ResponseOp) :
    (desk.apply handle op).2.response other =
      if desk.handles[other]? = desk.handles[handle]? then
        ((desk.response handle).after op).2
      else desk.response other := by
  have hsame : desk.response other =
      if desk.handles[other]? = desk.handles[handle]? then
        desk.response handle
      else desk.response other := by
    split
    · rename_i hget
      exact response_congr hget
    · rfl
  cases op with
  | writeAll | setText | flush | shutdown =>
      exact response_replace hplaced hhandle _
  | clone =>
      refine Eq.trans ?_ hsame
      simp only [apply, List.getElem?_eq_getElem hhandle, response,
        List.getElem?_append_left hother]
  | fresh =>
      have hplace := hplaced _ (List.getElem_mem hother)
      refine Eq.trans ?_ hsame
      simp [apply, response, List.getElem?_append_left hother,
        List.getElem?_eq_getElem hother, List.getElem?_append_left hplace]

/-- A write through a handle fails where the response is closed and there are
bytes, and leaves the desk as it is then. -/
theorem ResponseDesk.apply_writeAll {desk : ResponseDesk}
    (hplaced : desk.Placed) (hhandle : handle < desk.handles.length)
    (bytes : List UInt8) :
    ((desk.apply handle (.writeAll bytes)).1 ≠ .ok () ↔
      bytes ≠ [] ∧ (desk.response handle).closed = true) ∧
    ((desk.apply handle (.writeAll bytes)).1 ≠ .ok () →
      desk.apply handle (.writeAll bytes) = (.error .alreadyEnded, desk)) := by
  rw [apply, Response.writeAll_eq]
  by_cases hrefused : bytes ≠ [] ∧ (desk.response handle).closed = true
  · simp [hrefused, replace_response hplaced hhandle]
  · simp [hrefused]

end

/-- The handle that a call makes leads where the one it is a clone of does, or
to one place more. -/
theorem ResponseDesk.handles_apply (desk : ResponseDesk) (handle : Nat)
    (op : ResponseOp) :
    (desk.apply handle op).2.handles = desk.handles ++
      match op with
      | .clone => desk.handles[handle]?.toList
      | .fresh => [desk.responses.length]
      | .writeAll _ | .setText _ | .flush | .shutdown => [] := by
  have hreplace : ∀ changed,
      (desk.replace handle changed).handles = desk.handles := by
    intro changed
    rw [replace]
    split <;> rfl
  cases op with
  | writeAll | setText | flush | shutdown => simp [apply, hreplace]
  | clone =>
      rw [apply]
      split
      · rename_i hnone
        simp [hnone]
      · rename_i place hplace
        simp [hplace]
  | fresh => rfl

theorem ResponseDesk.length_responses_apply (desk : ResponseDesk)
    (handle : Nat) (op : ResponseOp) :
    (desk.apply handle op).2.responses.length =
      desk.responses.length + if op = .fresh then 1 else 0 := by
  have hreplace : ∀ changed,
      (desk.replace handle changed).responses.length =
        desk.responses.length := by
    intro changed
    rw [replace]
    split <;> simp
  cases op with
  | writeAll | setText | flush | shutdown => simp [apply, hreplace]
  | clone =>
      rw [apply]
      split <;> rfl
  | fresh => simp [apply]

/-- A desk stays one on which every handle leads to a response. -/
theorem ResponseDesk.Placed.apply {desk : ResponseDesk}
    (hplaced : desk.Placed) (handle : Nat) (op : ResponseOp) :
    (desk.apply handle op).2.Placed := by
  intro place hplace
  rw [handles_apply, List.mem_append] at hplace
  rw [length_responses_apply]
  rcases hplace with hold | hnew
  · exact Nat.lt_add_right _ (hplaced place hold)
  · cases op with
    | writeAll | setText | flush | shutdown => cases hnew
    | clone =>
        have hmem := List.mem_of_getElem? (Option.mem_toList.mp hnew)
        exact Nat.lt_add_right _ (hplaced place hmem)
    | fresh =>
        rw [List.mem_singleton.mp hnew]
        exact Nat.lt_succ_self _

/-- The desk after calls one after the other, each on a handle. -/
def ResponseDesk.applyAll (desk : ResponseDesk)
    (calls : List (Nat × ResponseOp)) : ResponseDesk :=
  calls.foldl (fun desk call => (desk.apply call.1 call.2).2) desk

/-- The handle that a call makes, if it makes one: it is a clone of a handle, or
it has a response of its own. -/
def origin? (call : Nat × ResponseOp) : Option (Option Nat) :=
  match call.2 with
  | .clone => some (some call.1)
  | .fresh => some none
  | .writeAll _ | .setText _ | .flush | .shutdown => none

/-- The handles that there are after some calls, in the order in which they were
made, each with the one that it is a clone of. -/
def origins (calls : List (Nat × ResponseOp)) : List (Option Nat) :=
  none :: calls.filterMap origin?

/-- Whether each call is on a handle that there is by then. -/
def OnHandles (count : Nat) : List (Nat × ResponseOp) → Prop
  | [] => True
  | call :: rest =>
      call.1 < count ∧ OnHandles (count + (origin? call).toList.length) rest

instance decidableOnHandles (count : Nat) :
    (calls : List (Nat × ResponseOp)) → Decidable (OnHandles count calls)
  | [] => inferInstanceAs (Decidable True)
  | call :: rest =>
      have := decidableOnHandles (count + (origin? call).toList.length) rest
      inferInstanceAs (Decidable (_ ∧ _))

/-- The family of a handle, named by its first handle: the one with a response
of its own from which the handle comes by clones. -/
def founder (origins : List (Option Nat)) (handle : Nat) : Nat :=
  match origins[handle]? with
  | some (some parent) =>
      if parent < handle then founder origins parent else handle
  | some none => handle
  | none => handle
termination_by handle

theorem ResponseDesk.applyAll_concat (desk : ResponseDesk)
    (calls : List (Nat × ResponseOp)) (call : Nat × ResponseOp) :
    desk.applyAll (calls ++ [call]) =
      ((desk.applyAll calls).apply call.1 call.2).2 := by
  simp [applyAll]

theorem origins_concat (calls : List (Nat × ResponseOp))
    (call : Nat × ResponseOp) :
    origins (calls ++ [call]) = origins calls ++ (origin? call).toList := by
  cases horigin : origin? call with
  | none | some => simp [origins, horigin]

theorem onHandles_concat {count : Nat} {calls : List (Nat × ResponseOp)}
    {call : Nat × ResponseOp} :
    OnHandles count (calls ++ [call]) ↔ OnHandles count calls ∧
      call.1 < count + (calls.filterMap origin?).length := by
  induction calls generalizing count with
  | nil => simp [OnHandles]
  | cons first rest ih =>
      have hlength : (origin? first).toList.length +
          (rest.filterMap origin?).length =
            ((first :: rest).filterMap origin?).length := by
        cases horigin : origin? first with
        | none => simp [horigin]
        | some => simp [horigin, Nat.add_comm]
      rw [List.cons_append, OnHandles, OnHandles, ih, Nat.add_assoc, hlength,
        and_assoc]

/-- Calls on the handles of a desk that starts with one. -/
def Sensible (calls : List (Nat × ResponseOp)) : Prop := OnHandles 1 calls

instance : DecidablePred Sensible := fun calls => decidableOnHandles 1 calls

theorem sensible_concat {calls : List (Nat × ResponseOp)}
    {call : Nat × ResponseOp} :
    Sensible (calls ++ [call]) ↔
      Sensible calls ∧ call.1 < (origins calls).length := by
  rw [Sensible, onHandles_concat, origins, List.length_cons, Nat.add_comm 1]
  exact Iff.rfl

section

variable {origins more : List (Option Nat)} {handle : Nat}

theorem founder_le (origins : List (Option Nat)) (handle : Nat) :
    founder origins handle ≤ handle := by
  induction handle using Nat.strongRecOn with
  | ind handle ih =>
      unfold founder
      split
      · split
        · rename_i hparent
          exact Nat.le_trans (ih _ hparent) (Nat.le_of_lt hparent)
        · exact Nat.le_refl handle
      · exact Nat.le_refl handle
      · exact Nat.le_refl handle

/-- Handles made later do not change the family of one. -/
theorem founder_append (hhandle : handle < origins.length) :
    founder (origins ++ more) handle = founder origins handle := by
  induction handle using Nat.strongRecOn with
  | ind handle ih =>
      unfold founder
      rw [List.getElem?_append_left hhandle]
      split
      · split
        · rename_i hparent
          exact ih _ hparent (Nat.lt_trans hparent hhandle)
        · rfl
      · rfl
      · rfl

/-- A clone is of the family of its handle. -/
theorem founder_clone (hhandle : handle < origins.length) :
    founder (origins ++ [some handle]) origins.length =
      founder origins handle := by
  have hkept : founder (origins ++ [some handle]) handle =
      founder origins handle := founder_append hhandle
  rw [← hkept, founder]
  simp [hhandle]

/-- A handle with a response of its own starts a family. -/
theorem founder_fresh :
    founder (origins ++ [none]) origins.length = origins.length := by
  rw [founder]
  simp

end

theorem lt_of_mem_sensible {calls : List (Nat × ResponseOp)}
    (hcalls : Sensible calls)
    {call : Nat × ResponseOp} (hcall : call ∈ calls) :
    call.1 < (origins calls).length := by
  induction calls using List.reverseRecOn with
  | nil => cases hcall
  | append_singleton calls last ih =>
      obtain ⟨hbefore, hlast⟩ := sensible_concat.mp hcalls
      rw [origins_concat, List.length_append]
      apply Nat.lt_add_right
      rcases List.mem_append.mp hcall with hcall | hcall
      · exact ih hbefore hcall
      · rwa [List.mem_singleton.mp hcall]

end Stencil
