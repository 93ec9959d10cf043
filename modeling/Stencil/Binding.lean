/-
Named bindings in the order of their names.  Names are compared code point by
code point, which is also the order of their bytes.  A later binding of a name
replaces an earlier one.
-/

namespace Stencil

variable {β : Type}

/-- Bind a name, in its place among names that are in order. -/
def bindName (name : String) (value : β) :
    List (String × β) → List (String × β)
  | [] => [(name, value)]
  | (other, old) :: rest =>
      if name < other then (name, value) :: (other, old) :: rest
      else if name = other then (name, value) :: rest
      else (other, old) :: bindName name value rest

/-- The bindings of a list, in the order of their names. -/
def bindAll (pairs : List (String × β)) : List (String × β) :=
  pairs.foldl (fun bound pair => bindName pair.1 pair.2 bound) []

theorem lookup_bindName_self (name : String) (value : β)
    (bound : List (String × β)) :
    (bindName name value bound).lookup name = some value := by
  induction bound with
  | nil => simp [bindName]
  | cons head rest ih =>
      obtain ⟨other, old⟩ := head
      unfold bindName
      split
      · simp
      · split
        · simp
        · rename_i hne
          have hother : (name == other) = false := by simpa using hne
          simpa [List.lookup_cons, hother] using ih

end Stencil
