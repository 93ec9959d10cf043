/-
A text that lists settings line by line, and the mapping that it is read as.
-/
import Stencil.ConfigText
import Stencil.Proofs.EntrySymbols

namespace Stencil

def SettingsLine.entry? : SettingsLine → Option EntryLine
  | .bare _ => none
  | .entry shown => some shown

/-- The entries among some lines. -/
def entriesOf (lines : List SettingsLine) : List EntryLine :=
  lines.filterMap SettingsLine.entry?

/-- How an entry begins. -/
theorem EntryLine.begins {entry : EntryLine}
    (hentry : entry.wellFormed = true) :
    ∃ char later, entry.chars = char :: later ∧ isSpace char = false ∧
      char ≠ '#' ∧ char ≠ '\uFEFF' := by
  simp only [wellFormed, Bool.and_eq_true] at hentry
  obtain ⟨char, later, hchars, hbegins⟩ := (entry.key.begins hentry.1.1.1.1).1
  rw [EntryLine.chars, hchars, List.cons_append]
  exact ⟨char, _, rfl, hbegins⟩

theorem SettingsLine.endsBefore {line : SettingsLine} {indent : Nat}
    (hline : line.wellFormed indent = true) :
    EndsBefore (indent + 1) (line.chars indent) := by
  cases line with
  | bare remark =>
      refine ⟨remark.indent, commentChars remark.comment, rfl, ?_⟩
      cases remark.comment with
      | none => exact .inl rfl
      | some text => exact .inr ⟨'#', text, rfl, by decide, .inl rfl⟩
  | entry shown =>
      simp only [wellFormed, Bool.and_eq_true] at hline
      obtain ⟨char, later, hchars, hspace, -⟩ := shown.begins hline.1
      exact ⟨indent, shown.chars, rfl, .inr ⟨char, later, hchars, hspace,
        .inr (Nat.lt_succ_self indent)⟩⟩

theorem tripleNext_append {sign : Char} (hsign : sign ≠ ':')
    {chars : List Char} (hcolon : ':' ∈ chars) (after : List Char) :
    tripleNext sign (chars ++ after) = tripleNext sign chars := by
  have hne : (':' == sign) = false := by simpa using hsign.symm
  match chars with
  | [] => cases hcolon
  | [first] =>
      obtain rfl := List.mem_singleton.mp hcolon
      rw [List.singleton_append, tripleNext_of_ne hsign.symm,
        tripleNext_of_ne hsign.symm]
  | [first, second] =>
      simp only [List.mem_cons, List.not_mem_nil, or_false] at hcolon
      rcases hcolon with rfl | rfl <;> simp [tripleNext, hne]
  | [first, second, third] =>
      simp only [List.mem_cons, List.not_mem_nil, or_false] at hcolon
      rcases hcolon with rfl | rfl | rfl <;>
        simp [tripleNext, signNext, hne]
  | first :: second :: third :: fourth :: rest => rfl

/-- Nothing after an entry makes it look like the end of a document. -/
theorem endsDocument_append {chars : List Char} (hcolon : ':' ∈ chars)
    (after : List Char) :
    endsDocument (chars ++ after) = endsDocument chars := by
  rw [endsDocument, tripleNext_append (by decide) hcolon,
    tripleNext_append (by decide) hcolon, endsDocument]

/-- Skipping comes to an entry on its line. -/
theorem Cursor.Awaits.of_entry {cursor : Cursor} {entry : EntryLine}
    {indent : Nat} {rest : List (List Char)} (hentry : entry.wellFormed = true)
    (hcursor : cursor.Awaits
      ((SettingsLine.entry entry).chars indent :: rest)) :
    ∃ line, cursor.skip false =
      ⟨entry.chars ++ fedLines rest, line, indent, true⟩ := by
  obtain ⟨char, later, hchars, hspace, hcomment, hmark⟩ := entry.begins hentry
  rw [hchars, List.cons_append]
  apply Cursor.Awaits.of_indented hspace hcomment hmark
  rw [← hchars]
  exact hcursor

namespace Outline

/-- The lines of entries are read to the end: a remark is skipped, and an entry
adds its symbols and leaves the column open. -/
theorem finish?_lines {indent : Nat} {lines : List SettingsLine}
    (hlines : ∀ line ∈ lines, line.wellFormed indent = true)
    {cursor : Cursor} {symbols : List Symbol} {columns : List Nat} {fuel : Nat}
    (hcursor : cursor.Awaits (lines.map (SettingsLine.chars indent)))
    (hcolumns : columns = [indent] ∨ columns = [] ∧ entriesOf lines ≠ [])
    (hfuel : (lines.flatMap (SettingsLine.chars indent)).length < fuel) :
    finish? fuel ⟨cursor, symbols, columns, none, []⟩ =
      some (symbols.reverse ++ (opening columns ++
        ((entriesOf lines).flatMap EntryLine.symbols ++ [.closeColumn]))) := by
  induction lines generalizing cursor symbols columns fuel with
  | nil =>
      obtain rfl : columns = [indent] := by simpa [entriesOf] using hcolumns
      obtain ⟨fuel, rfl⟩ := Nat.exists_eq_add_one_of_ne_zero
        (Nat.ne_zero_of_lt hfuel)
      exact finish?_end hcursor
  | cons line rest ih =>
      have hline := hlines line List.mem_cons_self
      have hrest := fun next hnext => hlines next (List.mem_cons_of_mem _ hnext)
      rw [List.flatMap_cons, List.length_append] at hfuel
      cases line with
      | bare remark =>
          exact ih hrest (hcursor.of_remark hline) hcolumns (by omega)
      | entry shown =>
          simp only [SettingsLine.wellFormed, Bool.and_eq_true,
            Bool.or_eq_true, bne_iff_ne, Bool.not_eq_true'] at hline
          obtain ⟨hshown, hdocument⟩ := hline
          have hends : ∀ line ∈ rest.map (SettingsLine.chars indent),
              EndsBefore (indent + 1) line := by
            intro line hline
            obtain ⟨item, hitem, rfl⟩ := List.mem_map.mp hline
            exact item.endsBefore (hrest item hitem)
          obtain ⟨line, hshows⟩ := Cursor.Awaits.of_entry hshown hcursor
          have hcolon : ':' ∈ shown.chars := by simp [EntryLine.chars]
          obtain ⟨next, hnext, count, hcount, hread⟩ := @finish?_entry cursor
            symbols columns shown _ line indent hshown hends
            (hcolumns.symm.imp_left And.left)
            (hdocument.imp_right (endsDocument_append hcolon _).trans) hshows
          rw [SettingsLine.chars, List.length_append] at hfuel
          obtain ⟨left, rfl⟩ : ∃ left, fuel = left + count :=
            ⟨fuel - count, by omega⟩
          have hopening : (opening columns).reverse = opening columns := by
            rcases hcolumns with rfl | ⟨rfl, -⟩ <;> rfl
          have hopened : opening [indent] = [] := rfl
          rw [hread left, ih hrest hnext (.inl rfl) (by omega)]
          simp [hopening, hopened, entriesOf, SettingsLine.entry?]

end Outline

/-- Three dashes on a line of their own, that announce the mapping, with what
may stand before them and after them on the line. -/
structure StartLine where
  before : List Remark
  tail : LineTail
  deriving DecidableEq, Repr

def StartLine.lines (start : StartLine) : List (List Char) :=
  start.before.map Remark.chars ++ ['-' :: '-' :: '-' :: start.tail.chars]

def StartLine.wellFormed (start : StartLine) : Bool :=
  start.before.all Remark.wellFormed && start.tail.wellFormed

/-- A text that lists settings. -/
structure SettingsFile where
  start : Option StartLine
  /-- The column of the entries. -/
  indent : Nat
  lines : List SettingsLine
  deriving DecidableEq, Repr

namespace SettingsFile

def entries (file : SettingsFile) : List EntryLine := entriesOf file.lines

/-- The keys and values that a text lists, in order. -/
def pairs (file : SettingsFile) : List (Scalar × Scalar) :=
  file.entries.map EntryLine.pair

def wellFormed (file : SettingsFile) : Bool :=
  file.start.all StartLine.wellFormed &&
    file.lines.all (SettingsLine.wellFormed file.indent) &&
    !file.entries.isEmpty

/-- The lines of a text. -/
def shown (file : SettingsFile) : List (List Char) :=
  (file.start.map StartLine.lines).getD [] ++
    file.lines.map (SettingsLine.chars file.indent)

end SettingsFile

/-- Lines with line feeds between them. -/
def linesChars : List (List Char) → List Char
  | [] => []
  | first :: rest => first ++ fedLines rest

/-- Lines with line ends between them: a carriage return comes before a line
feed where the list says so. -/
def endLines (returns : List Bool) : List (List Char) → List Char
  | [] => []
  | [line] => line
  | line :: rest =>
      line ++ ((if returns.head? = some true then ['\r'] else []) ++
        '\n' :: endLines returns.tail rest)

/-- The text with its line ends. -/
def SettingsFile.text (file : SettingsFile) (returns : List Bool) : String :=
  String.ofList (endLines returns file.shown)

theorem feedLines_inline {line : List Char}
    (hline : ∀ char ∈ line, isInline char = true) (after : List Char) :
    feedLines (line ++ after) = line ++ feedLines after := by
  induction line with
  | nil => rfl
  | cons char rest ih =>
      have hrest := ih fun next hnext =>
        hline next (List.mem_cons_of_mem _ hnext)
      have hchar := hline char List.mem_cons_self
      simp only [isInline, Bool.and_eq_true, bne_iff_ne] at hchar
      rw [List.cons_append, feedLines]
      · simp [hchar, hrest]
      · rintro later rfl
        exact absurd rfl hchar.1.2

/-- Line ends are read as line feeds. -/
theorem feedLines_endLines {lines : List (List Char)}
    (hlines : ∀ line ∈ lines, ∀ char ∈ line, isInline char = true)
    (returns : List Bool) :
    feedLines (endLines returns lines) = linesChars lines := by
  induction lines generalizing returns with
  | nil => rfl
  | cons line rest ih =>
      have hline := hlines line List.mem_cons_self
      have hrest := ih fun next hnext =>
        hlines next (List.mem_cons_of_mem _ hnext)
      cases rest with
      | nil => simpa [endLines, linesChars, feedLines] using
          feedLines_inline hline []
      | cons next later =>
          rw [endLines, feedLines_inline hline, linesChars, fedLines_cons]
          · rw [linesChars] at hrest
            split
            · rw [List.singleton_append, feedLines, hrest]
            · simp [feedLines, hrest]
          · simp

theorem length_le_endLines (returns : List Bool) (lines : List (List Char)) :
    lines.flatten.length ≤ (endLines returns lines).length := by
  induction lines generalizing returns with
  | nil => exact Nat.le_refl 0
  | cons line rest ih =>
      have hrest := ih returns.tail
      cases rest with
      | nil => simp [endLines]
      | cons next later =>
          simp only [endLines, List.flatten_cons, List.length_append,
            List.length_cons] at hrest ⊢
          omega

theorem isInline_of_isGap {char : Char} (hgap : isGap char = true) :
    isInline char = true := by
  simp only [isGap, Bool.or_eq_true, beq_iff_eq] at hgap
  rcases hgap with rfl | rfl <;> decide

theorem isInline_commentChars {comment : Option (List Char)}
    (hcomment : ∀ text ∈ comment, ∀ char ∈ text, isInline char = true) :
    ∀ char ∈ commentChars comment, isInline char = true := by
  cases comment with
  | none => exact fun _ hchar => absurd hchar List.not_mem_nil
  | some text =>
      intro char hchar
      rcases List.mem_cons.mp hchar with rfl | htext
      · decide
      · exact hcomment text rfl char htext

theorem LineTail.inline {tail : LineTail} (htail : tail.wellFormed = true) :
    ∀ char ∈ tail.chars, isInline char = true := by
  simp only [wellFormed, Bool.and_eq_true, List.all_eq_true,
    Option.all_eq_true] at htail
  intro char hchar
  rcases List.mem_append.mp hchar with hgap | hcomment
  · exact isInline_of_isGap (htail.1 char hgap)
  · exact isInline_commentChars
      (fun text htext => (htail.2 text htext).2) char hcomment

theorem Remark.inline {remark : Remark} (hremark : remark.wellFormed = true) :
    ∀ char ∈ remark.chars, isInline char = true := by
  simp only [wellFormed, Option.all_eq_true, List.all_eq_true] at hremark
  intro char hchar
  rcases List.mem_append.mp hchar with hindent | hcomment
  · rw [List.eq_of_mem_replicate hindent]
    decide
  · exact isInline_commentChars hremark char hcomment

theorem EntryLine.inline {entry : EntryLine}
    (hentry : entry.wellFormed = true) :
    ∀ char ∈ entry.chars, isInline char = true := by
  simp only [wellFormed, Bool.and_eq_true, List.all_eq_true,
    Option.all_eq_true] at hentry
  obtain ⟨⟨⟨⟨hkey, hgap⟩, -⟩, hvalue⟩, htail⟩ := hentry
  have hshown : ∀ char ∈ entry.valueChars, isInline char = true := by
    rw [valueChars]
    split
    · exact fun _ hchar => absurd hchar List.not_mem_nil
    · rename_i gap value hsome
      obtain ⟨⟨-, hspace⟩, hwritten⟩ := hvalue _ hsome
      intro char hchar
      rcases List.mem_append.mp hchar with hchar | hchar
      · exact isInline_of_isGap (hspace char hchar)
      · exact value.inline hwritten char hchar
  intro char hchar
  simp only [chars, List.mem_append, List.mem_cons] at hchar
  rcases hchar with hchar | hchar | rfl | hchar | hchar
  · exact entry.key.inline hkey char hchar
  · exact isInline_of_isGap (hgap char hchar)
  · decide
  · exact hshown char hchar
  · exact entry.tail.inline htail char hchar

theorem StartLine.inline {start : StartLine}
    (hstart : start.wellFormed = true) :
    ∀ line ∈ start.lines, ∀ char ∈ line, isInline char = true := by
  simp only [wellFormed, Bool.and_eq_true, List.all_eq_true] at hstart
  intro line hline char hchar
  simp only [lines, List.mem_append, List.mem_map, List.mem_singleton] at hline
  rcases hline with ⟨remark, hremark, rfl⟩ | rfl
  · exact remark.inline (hstart.1 remark hremark) char hchar
  · simp only [List.mem_cons] at hchar
    rcases hchar with rfl | rfl | rfl | hchar
    · decide
    · decide
    · decide
    · exact start.tail.inline hstart.2 char hchar

theorem SettingsLine.inline {line : SettingsLine} {indent : Nat}
    (hline : line.wellFormed indent = true) :
    ∀ char ∈ line.chars indent, isInline char = true := by
  cases line with
  | bare remark => exact remark.inline hline
  | entry shown =>
      simp only [wellFormed, Bool.and_eq_true] at hline
      intro char hchar
      rcases List.mem_append.mp hchar with hindent | hchar
      · rw [List.eq_of_mem_replicate hindent]
        decide
      · exact shown.inline hline.1 char hchar

/-- No line holds a line end. -/
theorem SettingsFile.inline {file : SettingsFile}
    (hfile : file.wellFormed = true) :
    ∀ line ∈ file.shown, ∀ char ∈ line, isInline char = true := by
  obtain ⟨start, indent, lines⟩ := file
  simp only [wellFormed, Bool.and_eq_true, List.all_eq_true] at hfile
  obtain ⟨⟨hstart, hlines⟩, -⟩ := hfile
  intro line hline
  rcases List.mem_append.mp hline with hbefore | hlater
  · cases start with
    | none => cases hbefore
    | some start => exact start.inline hstart line hbefore
  · obtain ⟨item, hitem, rfl⟩ := List.mem_map.mp hlater
    exact item.inline (hlines item hitem)

/-- The dashes begin a document. -/
theorem Outline.finish?_start {cursor : Cursor} {tail : LineTail}
    {lines : List (List Char)} (htail : tail.wellFormed = true)
    (hcursor : cursor.Awaits (('-' :: '-' :: '-' :: tail.chars) :: lines)) :
    ∃ next, next.Awaits lines ∧ ∀ fuel,
      finish? (fuel + 1) ⟨cursor, [], [], none, []⟩ =
        finish? fuel ⟨next, [.documentStart], [], none, []⟩ := by
  obtain ⟨line, hshows⟩ := @Cursor.Awaits.of_indented cursor 0 '-'
    ('-' :: '-' :: tail.chars) lines (by decide) (by decide) (by decide) hcursor
  have hnext := spaceNext_tail htail lines
  refine ⟨⟨tail.chars ++ fedLines lines, line, 3, false⟩,
    Cursor.awaits_tail htail lines, fun fuel => ?_⟩
  rw [finish?_next (by simp) (by simp [hshows])]
  simp [next?, hshows, tripleNext, signNext, hnext, tripleSign?, boundary?,
    inBrackets, closeColumns, closeFrom, dropKey?, add, Cursor.pass,
    Cursor.step, isBreak]

theorem Cursor.Awaits.of_remarks {cursor : Cursor} {remarks : List Remark}
    {rest : List (List Char)}
    (hremarks : ∀ remark ∈ remarks, remark.wellFormed = true)
    (hcursor : cursor.Awaits (remarks.map Remark.chars ++ rest)) :
    cursor.Awaits rest := by
  induction remarks with
  | nil => exact hcursor
  | cons remark others ih =>
      exact ih (fun next hnext => hremarks next (List.mem_cons_of_mem _ hnext))
        (hcursor.of_remark (hremarks remark List.mem_cons_self))

theorem Cursor.awaits_linesChars (lines : List (List Char)) :
    (Cursor.start (linesChars lines)).Awaits lines := by
  cases lines with
  | nil => rfl
  | cons first rest => exact ⟨0, rfl⟩

/-- The symbols of a text that lists settings. -/
theorem SettingsFile.symbols?_text {file : SettingsFile}
    (hfile : file.wellFormed = true) (returns : List Bool) :
    symbols? (file.text returns).toList =
      some ((file.start.map fun _ => Symbol.documentStart).toList ++
        (.openEntries :: (file.entries.flatMap EntryLine.symbols ++
          [.closeColumn]))) := by
  have hinline := file.inline hfile
  have hlength := length_le_endLines returns file.shown
  have hawaits := Cursor.awaits_linesChars file.shown
  rw [text, String.toList_ofList, symbols?, feedLines_endLines hinline]
  generalize (endLines returns file.shown).length = length at hlength
  obtain ⟨start, indent, lines⟩ := file
  simp only [wellFormed, Bool.and_eq_true, List.all_eq_true,
    Bool.not_eq_true', List.isEmpty_eq_false_iff] at hfile
  obtain ⟨⟨hstart, hlines⟩, hentries⟩ := hfile
  rw [shown, List.flatten_append, List.length_append, ← List.flatMap_def]
    at hlength
  cases start with
  | none =>
      exact Outline.finish?_lines hlines hawaits (.inr ⟨rfl, hentries⟩)
        (Nat.lt_succ_of_le (Nat.le_trans (Nat.le_add_left _ _) hlength))
  | some start =>
      simp only [Option.all_some, StartLine.wellFormed, Bool.and_eq_true,
        List.all_eq_true] at hstart
      have hfuel : start.lines.flatten.length +
          (lines.flatMap (SettingsLine.chars indent)).length ≤ length := hlength
      have hdashes : 0 < start.lines.flatten.length := by
        simp only [StartLine.lines, List.flatten_append, List.flatten_singleton,
          List.length_append, List.length_cons]
        omega
      have hbefore : (Cursor.start (linesChars
          (shown ⟨some start, indent, lines⟩))).Awaits
            (('-' :: '-' :: '-' :: start.tail.chars) ::
              lines.map (SettingsLine.chars indent)) := by
        apply Cursor.Awaits.of_remarks hstart.1
        simpa [shown, StartLine.lines] using hawaits
      obtain ⟨next, hnext, hread⟩ := Outline.finish?_start hstart.2 hbefore
      rw [hread length]
      exact Outline.finish?_lines hlines hnext (.inr ⟨rfl, hentries⟩)
        (by omega)

end Stencil
