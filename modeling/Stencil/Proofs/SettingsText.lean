/-
Texts that list settings mean what they list, in whatever order and between
whatever remarks and other entries: the settings that are named become what is
said of them, and the others are as by default.
-/
import Mathlib.Data.List.TakeWhile
import Stencil.Proofs.YamlSettings

namespace Stencil

/-- A text is not blank where a character of it is not. -/
theorem trim_ne_empty {text : String} {char : Char} (hchar : char ∈ text.toList)
    (hblank : isBlank char = false) : trim text ≠ "" := by
  intro hempty
  have hnil : trimChars text.toList = [] := by
    simpa [trim] using congrArg String.toList hempty
  rw [trimChars, List.reverse_eq_nil_iff, List.dropWhile_eq_nil_iff] at hnil
  have hkept : char ∈ text.toList.dropWhile isBlank := by
    have hsplit := @List.takeWhile_append_dropWhile _ isBlank text.toList
    rw [← hsplit, List.mem_append] at hchar
    rcases hchar with hfront | hback
    · have htrue := List.mem_takeWhile_imp hfront
      rw [hblank] at htrue
      cases htrue
    · exact hback
  rw [hnil char (List.mem_reverse.mpr hkept)] at hblank
  cases hblank

theorem mem_endLines {lines : List (List Char)} {line : List Char} {char : Char}
    (hline : line ∈ lines) (hchar : char ∈ line) (returns : List Bool) :
    char ∈ endLines returns lines := by
  induction lines generalizing returns with
  | nil => cases hline
  | cons first rest ih =>
      have hlater := fun hmem => ih hmem returns.tail
      cases rest with
      | nil =>
          rw [endLines, ← List.mem_singleton.mp hline]
          exact hchar
      | cons next later =>
          rw [endLines]
          · rcases List.mem_cons.mp hline with rfl | hmem
            · exact List.mem_append_left _ hchar
            · exact List.mem_append_right _ (List.mem_append_right _
                (List.mem_cons_of_mem _ (hlater hmem)))
          · simp

namespace SettingsFile

/-- The colon of an entry is not blank. -/
theorem trim_text {file : SettingsFile} (hfile : file.wellFormed = true)
    (returns : List Bool) : trim (file.text returns) ≠ "" := by
  simp only [wellFormed, Bool.and_eq_true, Bool.not_eq_true',
    List.isEmpty_eq_false_iff] at hfile
  obtain ⟨entry, hentry⟩ := List.exists_mem_of_ne_nil _ hfile.2
  obtain ⟨line, hline, hshown⟩ := List.mem_filterMap.mp hentry
  have hmem : line.chars file.indent ∈ file.shown :=
    List.mem_append_right _ (List.mem_map_of_mem hline)
  have hcolon : ':' ∈ line.chars file.indent := by
    cases line with
    | bare remark => cases hshown
    | entry shown => simp [SettingsLine.chars, EntryLine.chars]
  have hchar : ':' ∈ (file.text returns).toList := by
    rw [text, String.toList_ofList]
    exact mem_endLines hmem hcolon returns
  exact trim_ne_empty hchar (by decide)

end SettingsFile

/-- Printable characters of ASCII, line ends and tabs. -/
def isMarkerChar (char : Char) : Bool :=
  (0x20 ≤ char.toNat && char.toNat ≤ 0x7E) || char == '\n' || char == '\r' ||
    char == '\t'

/-- How a character of a marker is written: quotation marks, backslashes, line
ends and tabs are escaped. -/
def markerUnit (char : Char) : QuotedUnit :=
  match char with
  | '"' => .escape '"'
  | '\\' => .escape '\\'
  | '\n' => .escape 'n'
  | '\r' => .escape 'r'
  | '\t' => .escape 't'
  | _ => .raw char

/-- A marker between double quotation marks. -/
def writtenMarker (marker : String) : Written :=
  .double (marker.toList.map markerUnit)

theorem markerUnit_value? {char : Char} (hchar : isMarkerChar char = true) :
    (markerUnit char).value? = some char := by
  unfold markerUnit
  split
  · decide
  · decide
  · decide
  · decide
  · decide
  · rename_i hmark hslash hfeed hreturn htab
    have hprintable : 0x20 ≤ char.toNat ∧ char.toNat ≤ 0x7E := by
      simp only [isMarkerChar, Bool.or_eq_true, Bool.and_eq_true,
        decide_eq_true_eq, beq_iff_eq] at hchar
      rcases hchar with ((hprintable | h) | h) | h
      · exact hprintable
      · exact absurd h hfeed
      · exact absurd h hreturn
      · exact absurd h htab
    have hinline := isInline_of_printable hprintable.1 hprintable.2
    have hplain : char ≠ '"' ∧ char ≠ '\\' := ⟨hmark, hslash⟩
    simp [QuotedUnit.value?, hinline, hplain]

/-- A marker that is written so is read as itself. -/
theorem writtenMarker_read {marker : String}
    (hmarker : ∀ char ∈ marker.toList, isMarkerChar char = true) :
    (writtenMarker marker).wellFormed = true ∧
      (writtenMarker marker).scalar = ⟨marker, .quoted, none⟩ := by
  have hvalues : ∀ chars : List Char,
      (∀ char ∈ chars, isMarkerChar char = true) →
        (chars.map markerUnit).filterMap QuotedUnit.value? = chars := by
    intro chars hchars
    induction chars with
    | nil => rfl
    | cons char rest ih =>
        have hchar := markerUnit_value? (hchars char List.mem_cons_self)
        simp [hchar, ih fun next hnext =>
          hchars next (List.mem_cons_of_mem _ hnext)]
  refine ⟨?_, ?_⟩
  · simp only [writtenMarker, Written.wellFormed, List.all_eq_true,
      List.mem_map]
    rintro unit ⟨char, hchar, rfl⟩
    rw [markerUnit_value? (hmarker char hchar)]
    rfl
  · simp only [writtenMarker, Written.scalar, Written.textChars,
      hvalues _ hmarker, String.ofList_toList, Written.style]

/-- By a reader that reads flat mappings as they are listed, a text that lists a
configuration line by line is read as exactly this configuration, and one that
names a setting twice is an error.  A marker of printable characters, line ends
and tabs can be written with escapes.  Any other text of which the reader makes
the same entries is read in the same way. -/
theorem settings_as_listed {ν : Type} {reader : SettingsReader ν}
    (hreads : reader.ReadsFlat) :
    (∀ (file : SettingsFile) (returns : List Bool), file.wellFormed = true →
      (∀ config : Config, config.Listed file.pairs →
        reader.config (file.text returns) = .ok config) ∧
      (¬ (namedSettings file.pairs).Nodup →
        reader.config (file.text returns) = .error .malformed)) ∧
    (∀ marker : String, (∀ char ∈ marker.toList, isMarkerChar char = true) →
      (writtenMarker marker).wellFormed = true ∧
        (writtenMarker marker).scalar = ⟨marker, .quoted, none⟩) ∧
    (∀ (text : String) (pairs : List (Scalar × Scalar)), trim text ≠ "" →
      reader.Lists text pairs →
      (∀ config : Config, config.Listed pairs →
        reader.config text = .ok config) ∧
      (¬ (namedSettings pairs).Nodup →
        reader.config text = .error .malformed)) := by
  refine ⟨?_, ?_, ?_⟩
  · intro file returns hfile
    have hlists := hreads file returns hfile
    have htext := file.trim_text hfile returns
    exact ⟨fun config hlisted => hlists.config_eq htext hlisted,
      hlists.config_repeated htext⟩
  · intro marker hmarker
    exact writtenMarker_read hmarker
  · intro text pairs htext hlists
    exact ⟨fun config hlisted => hlists.config_eq htext hlisted,
      hlists.config_repeated htext⟩

namespace SettingsTextWitness

def config : Config :=
  { lineMarker := "// \"src\"\t# ", stripScriptTags := false
    scriptTimeoutMs := some 18446744073709551615 }

def plain (text : String) : Written := .plain text.toList

def entry (key value : Written) (comment : Option String) : SettingsLine :=
  .entry ⟨key, [], some ([' '], value),
    ⟨[' '], comment.map String.toList⟩⟩

/-- Three settings, with a comment, a blank line and another entry between
them. -/
def file : SettingsFile :=
  { start := some ⟨[], ⟨[], none⟩⟩
    indent := 0
    lines :=
      [.bare ⟨0, some " how scripts run".toList⟩,
        entry (plain "script_timeout_ms") (plain "18446744073709551615")
          (some " the longest"),
        .bare ⟨2, none⟩,
        entry (plain "note") (.single "it's # other".toList) none,
        entry (.double ("line_marker".toList.map .raw))
          (writtenMarker config.lineMarker) none,
        entry (plain "strip_script_tags") (plain "False") none] }

theorem lists : config.Listed file.pairs where
  once := by decide +kernel
  means := by decide +kernel
  others := by
    intro setting hsetting
    cases setting with
    | exitPolicy | swallowCommentLineBreak => rfl
    | lineMarker | stripScriptTags | scriptTimeoutMs =>
        exact absurd (by decide +kernel) hsetting

/-- The same with a setting named once more. -/
def repeated : SettingsFile :=
  { file with lines :=
      file.lines ++ [entry (plain "line_marker") (plain "~") none] }

theorem read_as_listed :
    Config.ofText (file.text [true, false, true]) = .ok config ∧
      Config.ofText (repeated.text []) = .error .malformed := by
  have hfile : file.wellFormed = true := by decide +kernel
  have hrepeated : repeated.wellFormed = true := by decide +kernel
  obtain ⟨hlines, -, -⟩ := settings_as_listed SettingsReader.yaml_readsFlat
  exact ⟨(hlines file _ hfile).1 config lists,
    (hlines repeated _ hrepeated).2 (by decide +kernel)⟩

end SettingsTextWitness

end Stencil
