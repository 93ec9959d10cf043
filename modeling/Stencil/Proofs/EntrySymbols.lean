/-
The symbols of lines of entries.  An entry is read in two things or three: the
key, its colon and the value.  What has been read before it stays, but that the
first entry opens the column of all.
-/
import Stencil.Proofs.SettingsLines

namespace Stencil

/-- Whether a scalar begins here that is plain or between quotation marks. -/
def beginsScalar (chars : List Char) : Bool :=
  chars.head? == some '"' || chars.head? == some '\'' ||
    beginsPlain false chars

/-- The symbol of the value of an entry, if it has one. -/
def EntryLine.valueSymbols (entry : EntryLine) : List Symbol :=
  (entry.value.map fun (_, value) => .scalar value.scalar).toList

/-- The symbols of an entry. -/
def EntryLine.symbols (entry : EntryLine) : List Symbol :=
  [.key, .scalar entry.key.scalar, .colon] ++ entry.valueSymbols

theorem tripleNext_of_ne {sign char : Char} (hne : char ≠ sign)
    (rest : List Char) : tripleNext sign (char :: rest) = false := by
  cases rest with
  | nil => rfl
  | cons next rest => simp [tripleNext, hne]

/-- The signs that are read as something else than a scalar. -/
def readingSigns : List Char :=
  ['%', '[', ']', '\x7b', '\x7d', ',', '*', '&', '!', '|', '>']

theorem beginsScalar_cons {char : Char} {after : List Char}
    (hbegins : beginsScalar (char :: after) = true) :
    char ∉ readingSigns ∧ ∀ sign, sign = '-' ∨ sign = '?' ∨ sign = ':' →
      signNext sign (char :: after) = false := by
  simp only [beginsScalar, Bool.or_eq_true, List.head?_cons, beq_iff_eq,
    Option.some.injEq] at hbegins
  rcases hbegins with (rfl | rfl) | hplain
  · refine ⟨by decide, ?_⟩
    rintro sign (rfl | rfl | rfl) <;> rfl
  · refine ⟨by decide, ?_⟩
    rintro sign (rfl | rfl | rfl) <;> rfl
  · obtain ⟨hindicator, -, hsign⟩ := beginsPlain_cons hplain
    refine ⟨?_, ?_⟩
    · intro hreading
      have hall : readingSigns.all isIndicator = true := by decide
      rw [List.all_eq_true.mp hall char hreading] at hindicator
      cases hindicator
    · intro sign hkind
      by_cases hchar : char = sign
      · simp [signNext, hchar, hsign (hchar ▸ hkind)]
      · simp [signNext, hchar]

/-- How a scalar on a line begins. -/
theorem Written.begins {written : Written}
    (hwritten : written.wellFormed = true) :
    (∃ char later, written.chars = char :: later ∧ isSpace char = false ∧
      char ≠ '#' ∧ char ≠ '\uFEFF') ∧
    ∀ after, beginsScalar (written.chars ++ after) = true := by
  cases written with
  | plain chars =>
      simp only [wellFormed, Bool.and_eq_true, bne_iff_ne] at hwritten
      obtain ⟨⟨hbegins, hmark⟩, -⟩ := hwritten
      refine ⟨?_, fun after => ?_⟩
      · cases chars with
        | nil => cases hbegins
        | cons char later =>
            obtain ⟨hindicator, hspace, -⟩ := beginsPlain_cons hbegins
            refine ⟨char, later, rfl, hspace, ?_, by simpa using hmark⟩
            rintro rfl
            cases hindicator
      · simp [beginsScalar, Written.chars, beginsPlain_append after hbegins]
  | single chars =>
      exact ⟨⟨'\'', _, rfl, by decide, by decide, by decide⟩, fun _ => rfl⟩
  | double units =>
      exact ⟨⟨'"', _, rfl, by decide, by decide, by decide⟩, fun _ => rfl⟩

/-- Skipping a gap stops at a scalar. -/
theorem Written.skip_gap {written : Written} {gap after : List Char}
    {line column : Nat} (hwritten : written.wellFormed = true)
    (hgap : ∀ char ∈ gap, isGap char = true) :
    Cursor.skip ⟨gap ++ (written.chars ++ after), line, column, false⟩ false =
      ⟨written.chars ++ after, line, column + gap.length, false⟩ := by
  obtain ⟨char, later, hchars, hspace, hcomment, hmark⟩ :=
    (written.begins hwritten).1
  rw [Cursor.skip_gap hgap, hchars]
  exact Cursor.skip_of_shown hspace hcomment hmark (later ++ after)

namespace Outline

section

variable {cursor : Cursor} {symbols : List Symbol} {columns : List Nat}
variable {key : Option KeyStart} {fuel : Nat}

theorem closeFrom_of_stays {stays : Nat → Bool}
    (hstays : ∀ column ∈ columns.head?, stays column = true) :
    closeFrom stays columns symbols = (columns, symbols) := by
  cases columns with
  | nil => rfl
  | cons column rest =>
      rw [closeFrom, if_pos (hstays column rfl)]

/-- The next thing that is no further left than the open columns is read with
these open. -/
theorem finish?_next
    (hcolumns : ∀ column ∈ columns.head?,
      column ≤ (cursor.skip false).column)
    (hrest : (cursor.skip false).rest ≠ []) :
    finish? (fuel + 1) ⟨cursor, symbols, columns, key, []⟩ =
      (next? ⟨cursor.skip false, symbols, columns, key, []⟩).bind
        (finish? fuel) := by
  have hstay := @closeFrom_of_stays symbols columns
    (· ≤ (cursor.skip false).column) (by simpa using hcolumns)
  have hsettle : settle ⟨cursor, symbols, columns, key, []⟩ =
      ⟨cursor.skip false, symbols, columns, key, []⟩ := by
    simp [settle, inBrackets, closeColumns, hstay]
  rw [finish?, hsettle]
  simp [hrest]

theorem closeFrom_none :
    closeFrom (fun _ => false) columns symbols =
      ([], List.replicate columns.length .closeColumn ++ symbols) := by
  induction columns generalizing symbols with
  | nil => rfl
  | cons column rest ih =>
      have hmore := @ih (.closeColumn :: symbols)
      rw [List.length_cons, List.replicate_succ', List.append_assoc]
      exact hmore

/-- Closing some columns first makes no difference where all are closed. -/
theorem closeFrom_all (stays : Nat → Bool) :
    closeFrom (fun _ => false) (closeFrom stays columns symbols).1
        (closeFrom stays columns symbols).2 =
      ([], List.replicate columns.length .closeColumn ++ symbols) := by
  rw [← closeFrom_none]
  induction columns generalizing symbols with
  | nil => rfl
  | cons column rest ih =>
      by_cases hstays : stays column = true
      · simp [closeFrom, hstays]
      · simpa [closeFrom, hstays] using @ih (.closeColumn :: symbols)

/-- At the end all columns are closed. -/
theorem finish?_end (hrest : (cursor.skip false).rest = []) :
    finish? (fuel + 1) ⟨cursor, symbols, columns, none, []⟩ =
      some (symbols.reverse ++
        List.replicate columns.length .closeColumn) := by
  have hclosed := @closeFrom_all symbols columns
    (· ≤ (cursor.skip false).column)
  simp [finish?, settle, inBrackets, closeColumns, boundary?, dropKey?, hrest,
    hclosed]

/-- Where a scalar begins, it is read, and a key may begin with it. -/
theorem next?_scalar {outline : Outline} (houter : outline.outer = [])
    (hbegins : beginsScalar outline.cursor.rest = true)
    (hdocument : outline.cursor.column ≠ 0 ∨
      endsDocument outline.cursor.rest = false) :
    outline.next? = outline.startKey?.bind fun outline =>
      (scalar? outline.inBrackets outline.floor outline.cursor).map
        fun (value, cursor) => outline.add (.scalar value) cursor := by
  have hbracket : outline.inBrackets = false := by simp [inBrackets, houter]
  have hmarks : (outline.cursor.column == 0 &&
        tripleNext '-' outline.cursor.rest) = false ∧
      (outline.cursor.column == 0 &&
        tripleNext '.' outline.cursor.rest) = false := by
    rcases hdocument with hcolumn | hends
    · simp [hcolumn]
    · rw [endsDocument, Bool.or_eq_false_iff] at hends
      simp [hends]
  cases hrest : outline.cursor.rest with
  | nil =>
      rw [hrest] at hbegins
      cases hbegins
  | cons char after =>
      rw [hrest] at hbegins hmarks
      obtain ⟨hreading, hsign⟩ := beginsScalar_cons hbegins
      simp only [readingSigns, List.mem_cons, List.not_mem_nil, or_false,
        not_or] at hreading
      have hdash := hsign '-' (.inl rfl)
      have hquestion := hsign '?' (.inr (.inl rfl))
      have hcolon := hsign ':' (.inr (.inr rfl))
      have hscalar : outline.next? = outline.readScalar? := by
        rw [next?]
        simp [hrest, hmarks, hbracket, hdash, hquestion, hcolon, hreading]
      simp [hscalar, readScalar?, hbracket, hrest, beginsBlock, hreading]

theorem next?_colon {outline : Outline} {after : List Char}
    (houter : outline.outer = [])
    (hrest : outline.cursor.rest = ':' :: after)
    (hafter : spaceNext after = true) : outline.next? = outline.colon? := by
  have hdash := @tripleNext_of_ne '-' ':' (by decide) after
  have hdot := @tripleNext_of_ne '.' ':' (by decide) after
  simp [next?, hrest, houter, inBrackets, signNext, hdash, hdot, hafter]

/-- A scalar is added to the symbols.  Where an entry may begin it is kept that
it may be a key. -/
theorem finish?_scalar {value : Scalar} {next : Cursor}
    (hbegins : beginsScalar (cursor.skip false).rest = true)
    (hdocument : (cursor.skip false).column ≠ 0 ∨
      endsDocument (cursor.skip false).rest = false)
    (hcolumns : ∀ column ∈ columns.head?,
      column ≤ (cursor.skip false).column)
    (hread : scalar? false (floor ⟨cursor, symbols, columns, none, []⟩)
      (cursor.skip false) = some (value, next)) (fuel : Nat) :
    finish? (fuel + 1) ⟨cursor, symbols, columns, none, []⟩ =
      finish? fuel ⟨next, .scalar value :: symbols, columns,
        if (cursor.skip false).fresh then
          some ⟨cursor.skip false, symbols.length,
            columns.head? == some (cursor.skip false).column⟩
        else none, []⟩ := by
  have hrest : (cursor.skip false).rest ≠ [] := by
    intro hnil
    rw [hnil] at hbegins
    cases hbegins
  have hfloor : ∀ key, floor ⟨cursor.skip false, symbols, columns, key, []⟩ =
      floor ⟨cursor, symbols, columns, none, []⟩ := fun _ => rfl
  have hstart : startKey? ⟨cursor.skip false, symbols, columns, none, []⟩ =
      some ⟨cursor.skip false, symbols, columns,
        if (cursor.skip false).fresh then
          some ⟨cursor.skip false, symbols.length,
            columns.head? == some (cursor.skip false).column⟩
        else none, []⟩ := by
    cases hfresh : (cursor.skip false).fresh with
    | true => simp [startKey?, dropKey?, hfresh, inBrackets]
    | false => simp [startKey?, hfresh]
  rw [finish?_next hcolumns hrest, next?_scalar rfl hbegins hdocument, hstart]
  simp only [Option.bind_some, inBrackets, List.isEmpty_nil, Bool.not_true,
    hfloor, hread, Option.map_some]
  rfl

/-- The symbol for a column that is not open yet. -/
def opening (columns : List Nat) : List Symbol :=
  if columns.isEmpty then [.openEntries] else []

/-- A key is read, and it is kept that a key has begun. -/
theorem finish?_key {written : Written} {gap rest : List Char}
    {line indent : Nat} (hwritten : written.wellFormed = true)
    (hgap : ∀ char ∈ gap, isGap char = true) (hnext : spaceNext rest = true)
    (hcolumns : columns = [] ∨ columns = [indent])
    (hdocument : indent ≠ 0 ∨
      endsDocument (written.chars ++ (gap ++ ':' :: rest)) = false)
    (hcursor : cursor.skip false =
      ⟨written.chars ++ (gap ++ ':' :: rest), line, indent, true⟩) :
    ∃ next, next.skip false =
        ⟨':' :: rest, line, indent + (written.chars ++ gap).length, false⟩ ∧
      ∀ fuel, finish? (fuel + 1) ⟨cursor, symbols, columns, none, []⟩ =
        finish? fuel ⟨next, .scalar written.scalar :: symbols, columns,
          some ⟨cursor.skip false, symbols.length,
            columns.head? == some indent⟩, []⟩ := by
  obtain ⟨next, hread, hskip⟩ := written.read hwritten
    (congrArg Cursor.rest hcursor) (@endsScalar_colon
      (floor ⟨cursor, symbols, columns, none, []⟩) rest gap hgap hnext)
  refine ⟨next, ?_, fun fuel => ?_⟩
  · rw [hskip, hcursor, Cursor.skip_gap hgap, List.length_append, Nat.add_assoc]
    exact Cursor.skip_of_shown (by decide) (by decide) (by decide) rest
  · have hbegins := (written.begins hwritten).2 (gap ++ ':' :: rest)
    have hopen : ∀ column ∈ columns.head?, column ≤ indent := by
      rcases hcolumns with rfl | rfl <;> simp
    rw [finish?_scalar (by rwa [hcursor]) (by rwa [hcursor]) (by rwa [hcursor])
      hread, hcursor]
    rfl

/-- The colon puts the sign of the key before it, and opens the column. -/
theorem finish?_colon {start : Cursor} {chars rest : List Char} {value : Symbol}
    {line indent : Nat} {needed : Bool}
    (hstart : start = ⟨chars ++ ':' :: rest, line, indent, true⟩)
    (hwidth : byteWidth chars ≤ keyReach) (hnext : spaceNext rest = true)
    (hcolumns : columns = [] ∨ columns = [indent])
    (hcursor : cursor.skip false =
      ⟨':' :: rest, line, indent + chars.length, false⟩) :
    finish? (fuel + 1) ⟨cursor, value :: symbols, columns,
        some ⟨start, symbols.length, needed⟩, []⟩ =
      finish? fuel ⟨⟨rest, line, indent + chars.length + 1, false⟩,
        .colon :: value :: .key :: (opening columns ++ symbols), [indent],
        none, []⟩ := by
  have hopen : ∀ column ∈ columns.head?,
      column ≤ (cursor.skip false).column := by
    rw [hcursor]
    rcases hcolumns with rfl | rfl <;> simp
  have hreaches : start.reaches (cursor.skip false) = true := by
    rw [hstart, hcursor]
    simp [Cursor.reaches, hwidth]
  rw [finish?_next hopen (by simp [hcursor]),
    next?_colon rfl (congrArg Cursor.rest hcursor) hnext]
  have hlater : (value :: symbols).length - symbols.length = 1 := by simp
  simp only [colon?, hreaches, hlater]
  rcases hcolumns with rfl | rfl
  · simp [openColumn, inBrackets, addSign, add, Cursor.step, hcursor, hstart,
      opening, isBreak]
  · simp [openColumn, inBrackets, addSign, add, Cursor.step, hcursor, hstart,
      opening, isBreak]

/-- A value is read where no key may begin. -/
theorem finish?_value {written : Written} {after : List Char}
    {line column indent : Nat} (hwritten : written.wellFormed = true)
    (hafter : EndsScalar (indent + 1) after) (hcolumn : indent < column)
    (hcursor : cursor.skip false =
      ⟨written.chars ++ after, line, column, false⟩) :
    ∃ next, next.skip false = Cursor.skip ⟨after, line,
        column + written.chars.length, false⟩ false ∧
      ∀ fuel, finish? (fuel + 1) ⟨cursor, symbols, [indent], none, []⟩ =
        finish? fuel ⟨next, .scalar written.scalar :: symbols, [indent],
          none, []⟩ := by
  obtain ⟨next, hread, hskip⟩ := written.read hwritten
    (congrArg Cursor.rest hcursor) hafter
  refine ⟨next, ?_, fun fuel => ?_⟩
  · rw [hskip, hcursor]
  · have hbegins := (written.begins hwritten).2 after
    have hinside : column ≠ 0 := Nat.ne_zero_of_lt hcolumn
    have hscalar := @finish?_scalar cursor symbols [indent] written.scalar next
      (by rwa [hcursor]) (.inl (by rwa [hcursor]))
      (by simpa [hcursor] using Nat.le_of_lt hcolumn) hread fuel
    rw [hscalar, hcursor]
    rfl

/-- A key and its colon are read together. -/
theorem finish?_keyed {written : Written} {gap rest : List Char}
    {line indent : Nat} (hwritten : written.wellFormed = true)
    (hgap : ∀ char ∈ gap, isGap char = true)
    (hwidth : byteWidth (written.chars ++ gap) ≤ keyReach)
    (hnext : spaceNext rest = true)
    (hcolumns : columns = [] ∨ columns = [indent])
    (hdocument : indent ≠ 0 ∨
      endsDocument (written.chars ++ (gap ++ ':' :: rest)) = false)
    (hcursor : cursor.skip false =
      ⟨written.chars ++ (gap ++ ':' :: rest), line, indent, true⟩) :
    ∃ column > indent, ∀ fuel,
      finish? (fuel + 2) ⟨cursor, symbols, columns, none, []⟩ =
        finish? fuel ⟨⟨rest, line, column, false⟩,
          .colon :: .scalar written.scalar :: .key ::
            (opening columns ++ symbols), [indent], none, []⟩ := by
  obtain ⟨next, hskip, hkey⟩ := @finish?_key cursor symbols columns written gap
    rest line indent hwritten hgap hnext hcolumns hdocument hcursor
  refine ⟨indent + (written.chars ++ gap).length + 1, by omega, fun fuel => ?_⟩
  rw [hkey (fuel + 1)]
  exact finish?_colon (by rw [hcursor, List.append_assoc]) hwidth hnext hcolumns
    hskip

theorem spaceNext_tail {tail : LineTail} (htail : tail.wellFormed = true)
    (lines : List (List Char)) :
    spaceNext (tail.chars ++ fedLines lines) = true := by
  obtain ⟨gap, comment⟩ := tail
  simp only [LineTail.wellFormed, Bool.and_eq_true, List.all_eq_true] at htail
  cases gap with
  | cons char rest => simp [LineTail.chars, spaceNext, isSpace, htail.1]
  | nil =>
      cases comment with
      | some text => simp at htail
      | none =>
          cases lines with
          | nil => rfl
          | cons first rest =>
              simp [LineTail.chars, commentChars, spaceNext, isSpace, isBreak]

/-- An entry is read, and what is left are the lines after it. -/
theorem finish?_entry {entry : EntryLine} {lines : List (List Char)}
    {line indent : Nat} (hentry : entry.wellFormed = true)
    (hlines : ∀ line ∈ lines, EndsBefore (indent + 1) line)
    (hcolumns : columns = [] ∨ columns = [indent])
    (hdocument : indent ≠ 0 ∨
      endsDocument (entry.chars ++ fedLines lines) = false)
    (hcursor : cursor.skip false =
      ⟨entry.chars ++ fedLines lines, line, indent, true⟩) :
    ∃ next, next.Awaits lines ∧ ∃ count ≤ entry.chars.length, ∀ fuel,
      finish? (fuel + count) ⟨cursor, symbols, columns, none, []⟩ =
        finish? fuel ⟨next, entry.symbols.reverse ++
          (opening columns ++ symbols), [indent], none, []⟩ := by
  obtain ⟨key, gap, value, tail⟩ := entry
  simp only [EntryLine.wellFormed, Bool.and_eq_true, List.all_eq_true,
    decide_eq_true_eq] at hentry
  obtain ⟨⟨⟨⟨hkey, hgap⟩, hwidth⟩, hvalue⟩, htail⟩ := hentry
  obtain ⟨first, later, hfirst, -⟩ := (key.begins hkey).1
  cases value with
  | none =>
      simp only [EntryLine.chars, EntryLine.valueChars, List.append_assoc,
        List.cons_append, List.nil_append] at hdocument hcursor ⊢
      obtain ⟨column, -, hread⟩ := finish?_keyed hkey hgap hwidth
        (spaceNext_tail htail lines) hcolumns hdocument hcursor
      refine ⟨_, Cursor.awaits_tail htail lines, 2, ?_, hread⟩
      simp only [hfirst, List.length_append, List.length_cons]
      omega
  | some shown =>
      obtain ⟨space, written⟩ := shown
      simp only [Option.all_some, Bool.and_eq_true, Bool.not_eq_true',
        List.isEmpty_eq_false_iff, List.all_eq_true] at hvalue
      obtain ⟨⟨hnonempty, hspace⟩, hwritten⟩ := hvalue
      simp only [EntryLine.chars, EntryLine.valueChars, List.append_assoc,
        List.cons_append] at hdocument hcursor ⊢
      have hnext : spaceNext (space ++ (written.chars ++
          (tail.chars ++ fedLines lines))) = true := by
        cases space with
        | nil => exact absurd rfl hnonempty
        | cons char rest => simp [spaceNext, isSpace, hspace char]
      obtain ⟨column, hcolumn, hread⟩ := @finish?_keyed cursor symbols columns
        key gap _ line indent hkey hgap hwidth hnext hcolumns hdocument hcursor
      obtain ⟨next, hskip, hmore⟩ := @finish?_value _
        (.colon :: .scalar key.scalar :: .key :: (opening columns ++ symbols))
        written _ line _ indent hwritten (endsScalar_tail htail hlines)
        (Nat.lt_add_right space.length hcolumn)
        (written.skip_gap hwritten hspace)
      refine ⟨next, Cursor.awaits_of_skip_eq hskip
        (Cursor.awaits_tail htail lines), 3, ?_, fun fuel => ?_⟩
      · have hsome := List.length_pos_iff.mpr hnonempty
        simp only [hfirst, List.length_append, List.length_cons]
        omega
      · rw [hread (fuel + 1), hmore fuel]
        rfl

end

end Outline

end Stencil
