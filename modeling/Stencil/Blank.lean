/-
White space, and taking things off the two ends of a text.  A character is
blank when it has the White_Space property.
-/

namespace Stencil

/-- The characters with the White_Space property. -/
def isBlank (char : Char) : Bool :=
  let code := char.toNat
  (0x09 ≤ code && code ≤ 0x0D) || code == 0x20 || code == 0x85 ||
    code == 0xA0 || code == 0x1680 || (0x2000 ≤ code && code ≤ 0x200A) ||
    code == 0x2028 || code == 0x2029 || code == 0x202F || code == 0x205F ||
    code == 0x3000

/-- Characters without the blank ones at their two ends. -/
def trimChars (chars : List Char) : List Char :=
  ((chars.dropWhile isBlank).reverse.dropWhile isBlank).reverse

/-- A text without the white space at its two ends. -/
def trim (text : String) : String := String.ofList (trimChars text.toList)

/-- What follows `head` in a text that begins with it. -/
def afterHead? (head text : String) : Option String :=
  if head.toList.isPrefixOf text.toList then
    some (String.ofList (text.toList.drop head.toList.length))
  else none

/-- What precedes `tail` in a text that ends with it. -/
def beforeTail? (tail text : String) : Option String :=
  if tail.toList.isSuffixOf text.toList then
    some (String.ofList
      (text.toList.take (text.toList.length - tail.toList.length)))
  else none

theorem dropWhile_isBlank_append {front rest : List Char}
    (hfront : ∀ char ∈ front, isBlank char = true)
    (hrest : ∀ char ∈ rest.head?, isBlank char = false) :
    (front ++ rest).dropWhile isBlank = rest := by
  rw [List.dropWhile_append_of_pos hfront]
  cases rest with
  | nil => rfl
  | cons char later =>
      rw [List.dropWhile_cons_of_neg]
      exact Bool.eq_false_iff.mp (hrest char rfl)

/-- Trimming takes the white space around a text off, and no more. -/
theorem trimChars_append {front middle back : List Char}
    (hfront : ∀ char ∈ front, isBlank char = true)
    (hback : ∀ char ∈ back, isBlank char = true)
    (hhead : ∀ char ∈ middle.head?, isBlank char = false)
    (hlast : ∀ char ∈ middle.getLast?, isBlank char = false) :
    trimChars (front ++ (middle ++ back)) = middle := by
  have hreverse : ∀ char ∈ middle.reverse.head?, isBlank char = false := by
    rwa [List.head?_reverse]
  cases middle with
  | nil =>
      have hall : ∀ char ∈ front ++ back, isBlank char = true :=
        fun char hchar => (List.mem_append.mp hchar).elim (hfront char)
          (hback char)
      have hnil : (front ++ back).dropWhile isBlank = [] := by
        rw [← List.append_nil (front ++ back)]
        exact dropWhile_isBlank_append hall hhead
      simp [trimChars, hnil]
  | cons first rest =>
      have hfirst : ∀ char ∈ (first :: rest ++ back).head?,
          isBlank char = false := by
        rwa [List.cons_append, List.head?_cons, ← @List.head?_cons _ first rest]
      have hbackward : ∀ char ∈ back.reverse, isBlank char = true :=
        fun char hchar => hback char (List.mem_reverse.mp hchar)
      rw [trimChars, dropWhile_isBlank_append hfront hfirst,
        List.reverse_append, dropWhile_isBlank_append hbackward hreverse,
        List.reverse_reverse]

theorem afterHead?_eq_some_iff {head text rest : String} :
    afterHead? head text = some rest ↔ text = head ++ rest := by
  constructor
  · intro hrest
    simp only [afterHead?, Option.ite_none_right_eq_some,
      List.isPrefixOf_iff_prefix, Option.some.injEq] at hrest
    obtain ⟨⟨later, hlater⟩, rfl⟩ := hrest
    apply String.toList_inj.mp
    simp [← hlater]
  · rintro rfl
    simp [afterHead?]

theorem beforeTail?_eq_some_iff {tail text rest : String} :
    beforeTail? tail text = some rest ↔ text = rest ++ tail := by
  constructor
  · intro hrest
    simp only [beforeTail?, Option.ite_none_right_eq_some,
      List.isSuffixOf_iff_suffix, Option.some.injEq] at hrest
    obtain ⟨⟨earlier, hearlier⟩, rfl⟩ := hrest
    apply String.toList_inj.mp
    simp [← hearlier]
  · rintro rfl
    simp [beforeTail?]

end Stencil
