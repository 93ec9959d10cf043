/-
The mapping that a text of entries is read as: each key with its value, in the
order of the lines.
-/
import Stencil.Proofs.SettingsFile

namespace Stencil

/-- A mapping of scalars to scalars. -/
def flatMapping (pairs : List (Scalar × Scalar)) : Node :=
  .mapping none (pairs.map fun (key, value) =>
    (.scalar none key, .scalar none value))

section

variable {handles : Handles} {rest : List Symbol}

/-- A key or a value that is a scalar is read as one. -/
theorem columnPart?_scalar {value : Scalar} (hvalue : value.tag = none)
    {depth : Nat} (hdepth : 3 ≤ depth) :
    columnPart? depth handles (.scalar value :: rest) =
      some (.scalar none value, rest) := by
  obtain ⟨depth, rfl⟩ := Nat.exists_eq_add_of_le' hdepth
  obtain ⟨text, style, tag⟩ := value
  obtain rfl : tag = none := hvalue
  rfl

/-- Where a value is missing, nothing is read for it. -/
theorem columnPart?_missing {depth : Nat} (hdepth : 1 ≤ depth)
    (hends : nextIs Symbol.endsInColumn rest = true) :
    columnPart? depth handles rest = some (.empty, rest) := by
  obtain ⟨depth, rfl⟩ := Nat.exists_eq_add_of_le' hdepth
  rw [columnPart?, if_pos hends]

theorem Written.tag_scalar (written : Written) :
    written.scalar.tag = none := rfl

/-- The symbols of entries up to the end of their column are read as the
scalars of each. -/
theorem columnEntries?_entries {entries : List EntryLine} {depth : Nat}
    (hdepth : entries.length + 4 ≤ depth) :
    columnEntries? depth handles
        (entries.flatMap EntryLine.symbols ++ .closeColumn :: rest) =
      some (entries.map fun entry =>
        (.scalar none entry.pair.1, .scalar none entry.pair.2), rest) := by
  induction entries generalizing depth with
  | nil =>
      obtain ⟨depth, rfl⟩ := Nat.exists_eq_add_of_le' hdepth
      rfl
  | cons entry later ih =>
      rw [List.length_cons] at hdepth
      obtain ⟨depth, rfl⟩ : ∃ before, depth = before + 1 :=
        ⟨depth - 1, by omega⟩
      have hlater := @ih depth (by omega)
      have hends : nextIs Symbol.endsInColumn
          (later.flatMap EntryLine.symbols ++ .closeColumn :: rest) = true := by
        cases later with
        | nil => rfl
        | cons next others => rfl
      have hkey : ∀ symbols, columnPart? depth handles
          (.scalar entry.key.scalar :: symbols) =
            some (.scalar none entry.key.scalar, symbols) :=
        fun symbols => columnPart?_scalar entry.key.tag_scalar (by omega)
      have hvalue : columnPart? depth handles (entry.valueSymbols ++
          (later.flatMap EntryLine.symbols ++ .closeColumn :: rest)) =
            some (.scalar none entry.pair.2,
              later.flatMap EntryLine.symbols ++ .closeColumn :: rest) := by
        rw [EntryLine.pair, EntryLine.valueSymbols]
        cases entry.value with
        | none => exact columnPart?_missing (by omega) hends
        | some shown => exact columnPart?_scalar shown.2.tag_scalar (by omega)
      rw [List.flatMap_cons, EntryLine.symbols, List.append_assoc,
        List.append_assoc, List.cons_append, columnEntries?]
      simp only [List.cons_append, List.nil_append, hkey, hvalue, hlater,
        Option.bind_eq_bind, Option.bind_some, List.map_cons]
      rfl

end

/-- The node of a text is the mapping of its entries. -/
theorem documentNode?_entries (entries : List EntryLine) (announced : Bool) :
    documentNode? [] announced (.openEntries ::
        (entries.flatMap EntryLine.symbols ++ [.closeColumn])) =
      some (flatMapping (entries.map EntryLine.pair), []) := by
  have hlength : entries.length ≤
      (entries.flatMap EntryLine.symbols).length := by
    induction entries with
    | nil => exact Nat.le_refl 0
    | cons entry later ih =>
        simp only [List.flatMap_cons, List.length_append, List.length_cons,
          EntryLine.symbols] at ih ⊢
        omega
  have hread := fun depth hdepth => @columnEntries?_entries
    ([] ++ Handles.stock) [] entries depth hdepth
  generalize entries.flatMap EntryLine.symbols = symbols at hlength hread ⊢
  obtain ⟨depth, hdepth, hmost⟩ : ∃ depth, entries.length + 4 ≤ depth ∧
      8 * ((Symbol.openEntries :: (symbols ++ [.closeColumn])).length + 1) =
        depth + 2 := by
    refine ⟨8 * symbols.length + 22, by omega, ?_⟩
    simp only [List.length_cons, List.length_append, List.length_nil]
    omega
  rw [documentNode?, hmost]
  simp only [List.head?_cons, Option.all_some, Symbol.isBoundary,
    Bool.and_false, Bool.false_eq_true, if_false, node?, marks?,
    Option.bind_some, content?, if_true, hread depth hdepth, Option.map_some]
  simp [flatMapping, Function.comp_def]

theorem isWritable_of_isInline {char : Char} (hinline : isInline char = true) :
    isWritable char = true := by
  simp only [isInline, Bool.and_eq_true] at hinline
  exact hinline.1.1.1

theorem isWritable_endLines {lines : List (List Char)}
    (hlines : ∀ line ∈ lines, ∀ char ∈ line, isInline char = true)
    (returns : List Bool) :
    (endLines returns lines).all isWritable = true := by
  induction lines generalizing returns with
  | nil => rfl
  | cons line rest ih =>
      have hrest := ih fun next hnext =>
        hlines next (List.mem_cons_of_mem _ hnext)
      have hline : line.all isWritable = true :=
        List.all_eq_true.mpr fun char hchar => isWritable_of_isInline
          (hlines line List.mem_cons_self char hchar)
      cases rest with
      | nil => exact hline
      | cons next later =>
          rw [endLines]
          · have hfeed : isWritable '\n' = true := by decide
            have hreturn : (if returns.head? = some true then ['\r']
                else []).all isWritable = true := by
              split <;> decide
            simp [hline, hfeed, hreturn, hrest]
          · simp

/-- A text that lists settings holds the mapping of its entries. -/
theorem SettingsFile.document?_text {file : SettingsFile}
    (hfile : file.wellFormed = true) (returns : List Bool) :
    document? (file.text returns) =
      some (some (flatMapping (file.entries.map EntryLine.pair))) := by
  have hwritable : (file.text returns).toList.all isWritable = true := by
    rw [text, String.toList_ofList]
    exact isWritable_endLines (file.inline hfile) returns
  have hfirst : firstDocument?
      ((file.start.map fun _ => Symbol.documentStart).toList ++
        (.openEntries :: (file.entries.flatMap EntryLine.symbols ++
          [.closeColumn]))) =
      some (some (flatMapping (file.entries.map EntryLine.pair)), []) := by
    cases file.start with
    | none =>
        have hnode := documentNode?_entries file.entries false
        simp [firstDocument?, Symbol.isBoundary, hnode]
    | some start =>
        have hnode := documentNode?_entries file.entries true
        simp [firstDocument?, Symbol.isBoundary, directives?, hnode]
  rw [document?, if_pos hwritable, file.symbols?_text hfile, Option.bind_some,
    hfirst]
  rfl

end Stencil
