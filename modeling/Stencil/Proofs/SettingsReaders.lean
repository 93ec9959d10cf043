/-
Readers of settings.  Of a reader it is supposed that it reads flat mappings as
they are listed: it hands over each name with its value, and tells what a plain
or quoted scalar is as a text, a truth value, a number or a choice.  What a
configuration becomes by that is then told by the pairs alone.
-/
import Mathlib.Data.List.Forall2
import Stencil.Proofs.SettingsFile
import Stencil.Proofs.SettingValues

namespace Stencil

variable {ν : Type}

namespace SettingsReader

/-- Whether a reader takes a value for what a scalar is. -/
structure Resolves (reader : SettingsReader ν) (value : ν) (scalar : Scalar) :
    Prop where
  /-- Every scalar is a text. -/
  text : reader.text? value = some scalar.text
  /-- Without a tag it names a choice. -/
  choice : scalar.tag = none → reader.choice? value = some scalar.text
  /-- Plain words for truth values are these. -/
  truth : ∀ truth, scalar.tag = none → scalar.style = .plain →
    scalar.text ∈ truthWords truth → reader.truth? value = some truth
  /-- Plain digits are a number, and plain words for no value are none. -/
  count : ∀ count, scalar.tag = none → scalar.style = .plain →
    StandsForCount scalar.text count → reader.count? value = some count

/-- Whether an entry is a pair of a key and a value. -/
structure Matches (reader : SettingsReader ν) (entry : String × ν)
    (pair : Scalar × Scalar) : Prop where
  name : entry.1 = pair.1.text
  value : reader.Resolves entry.2 pair.2

/-- Whether the entries of a text are these pairs, in order. -/
def Lists (reader : SettingsReader ν) (text : String)
    (pairs : List (Scalar × Scalar)) : Prop :=
  ∃ entries, reader.entries? text = some entries ∧
    List.Forall₂ reader.Matches entries pairs

/-- Whether a reader reads flat mappings as they are listed: line by line, in
whatever column, with or without an announcement, with blank lines and
comments, and with either line end. -/
def ReadsFlat (reader : SettingsReader ν) : Prop :=
  ∀ (file : SettingsFile) (returns : List Bool), file.wellFormed = true →
    reader.Lists (file.text returns) file.pairs

end SettingsReader

theorem ExitPolicy.ofName?_name (policy : ExitPolicy) :
    ExitPolicy.ofName? policy.name = some policy := by
  cases policy with
  | suppressOutput | abortScan => rfl

namespace SettingsReader

section

variable {reader : SettingsReader ν} {value : ν}

/-- Changing a setting keeps the others. -/
theorem change?_keeps {setting other : Setting} {current next : Config}
    (hchange : reader.change? setting value current = some next)
    (hother : other ≠ setting) : other.Agrees next current := by
  cases setting with
  | lineMarker | exitPolicy | stripScriptTags | swallowCommentLineBreak
  | scriptTimeoutMs =>
      obtain ⟨_, -, rfl⟩ := Option.map_eq_some_iff.mp hchange
      cases other with
      | lineMarker | exitPolicy | stripScriptTags | swallowCommentLineBreak
      | scriptTimeoutMs =>
          first
          | rfl
          | exact absurd rfl hother

/-- A value that says what a setting is changes the setting to that. -/
theorem Resolves.change? {scalar : Scalar}
    (hresolves : reader.Resolves value scalar) {setting : Setting}
    {config : Config} (hmeans : setting.Means config scalar)
    (current : Config) :
    ∃ next, reader.change? setting value current = some next ∧
      setting.Agrees next config := by
  cases setting with
  | lineMarker =>
      have htext : reader.text? value = some config.lineMarker :=
        hresolves.text.trans (congrArg some hmeans)
      exact ⟨{ current with lineMarker := config.lineMarker },
        by rw [SettingsReader.change?, htext]; rfl, rfl⟩
  | exitPolicy =>
      have hpolicy : (reader.choice? value).bind ExitPolicy.ofName? =
          some config.exitPolicy := by
        rw [hresolves.choice hmeans.1, hmeans.2]
        exact ExitPolicy.ofName?_name config.exitPolicy
      exact ⟨{ current with exitPolicy := config.exitPolicy },
        by rw [SettingsReader.change?, hpolicy]; rfl, rfl⟩
  | stripScriptTags =>
      have htruth := hresolves.truth _ hmeans.1 hmeans.2.1 hmeans.2.2
      exact ⟨{ current with stripScriptTags := config.stripScriptTags },
        by rw [SettingsReader.change?, htruth]; rfl, rfl⟩
  | swallowCommentLineBreak =>
      have htruth := hresolves.truth _ hmeans.1 hmeans.2.1 hmeans.2.2
      exact ⟨{ current with
          swallowCommentLineBreak := config.swallowCommentLineBreak },
        by rw [SettingsReader.change?, htruth]; rfl, rfl⟩
  | scriptTimeoutMs =>
      have hcount := hresolves.count _ hmeans.1 hmeans.2.1 hmeans.2.2
      exact ⟨{ current with scriptTimeoutMs := config.scriptTimeoutMs },
        by rw [SettingsReader.change?, hcount]; rfl, rfl⟩

end

section

variable {reader : SettingsReader ν} {entries : List (String × ν)}
  {pairs : List (Scalar × Scalar)} {done : List Setting}

section

variable {name : String} {value : ν} {current : Config}

/-- An entry of another name is passed over. -/
theorem changeAll?_of_other (hname : Setting.ofName? name = none) :
    reader.changeAll? current done ((name, value) :: entries) =
      reader.changeAll? current done entries := by
  simp only [changeAll?, hname]

/-- An entry with the name of a setting changes it, unless it has been changed
already. -/
theorem changeAll?_of_name {setting : Setting}
    (hname : Setting.ofName? name = some setting) :
    reader.changeAll? current done ((name, value) :: entries) =
      if setting ∈ done then none
      else (reader.change? setting value current).bind fun next =>
        reader.changeAll? next (setting :: done) entries := by
  simp only [changeAll?, hname]

end

/-- Entries of settings not named before change these to what is said, and keep
the others. -/
theorem changeAll?_of_means {config : Config}
    (hentries : List.Forall₂ reader.Matches entries pairs)
    (honce : (namedSettings pairs).Nodup)
    (hdone : ∀ setting ∈ namedSettings pairs, setting ∉ done)
    (hmeans : ∀ pair ∈ pairs, ∀ setting ∈ Setting.ofName? pair.1.text,
      setting.Means config pair.2) (current : Config) :
    ∃ last, reader.changeAll? current done entries = some last ∧
      (∀ setting ∈ namedSettings pairs, setting.Agrees last config) ∧
      ∀ setting, setting ∉ namedSettings pairs →
        setting.Agrees last current := by
  induction hentries generalizing done current with
  | nil =>
      refine ⟨current, rfl, fun _ hnamed => absurd hnamed List.not_mem_nil, ?_⟩
      rintro (_ | _) -
      all_goals rfl
  | @cons entry pair entries rest hentry _ ih =>
      obtain ⟨name, value⟩ := entry
      obtain ⟨key, scalar⟩ := pair
      obtain rfl : name = key.text := hentry.name
      have hlater := fun pair hpair =>
        hmeans pair (List.mem_cons_of_mem _ hpair)
      cases hname : Setting.ofName? key.text with
      | none =>
          rw [namedSettings_of_other hname] at honce hdone ⊢
          rw [changeAll?_of_other hname]
          exact ih honce hdone hlater current
      | some setting =>
          rw [namedSettings_of_name hname] at honce hdone ⊢
          obtain ⟨hfresh, honce⟩ := List.nodup_cons.mp honce
          obtain ⟨next, hchange, hagrees⟩ := hentry.value.change?
            (hmeans (key, scalar) List.mem_cons_self setting hname) current
          have hrest : ∀ other ∈ namedSettings rest,
              other ∉ setting :: done := by
            intro other hother hmem
            rcases List.mem_cons.mp hmem with rfl | hmem
            · exact hfresh hother
            · exact hdone other (List.mem_cons_of_mem _ hother) hmem
          obtain ⟨last, hlast, hsaid, hkept⟩ := ih honce hrest hlater next
          refine ⟨last, ?_, ?_, ?_⟩
          · rw [changeAll?_of_name hname,
              if_neg (hdone setting List.mem_cons_self), hchange]
            exact hlast
          · intro other hother
            rcases List.mem_cons.mp hother with rfl | hother
            · exact (hkept other hfresh).trans hagrees
            · exact hsaid other hother
          · intro other hother
            have hne : other ≠ setting := List.ne_of_not_mem_cons hother
            exact (hkept other (List.not_mem_of_not_mem_cons hother)).trans
              (change?_keeps hchange hne)

/-- Where settings are named twice and the first is new, a later one is named
twice or named again. -/
theorem repeated_later {setting : Setting} {rest : List Setting}
    (hnew : setting ∉ done)
    (hrepeated : ¬ (setting :: rest).Nodup ∨
      ∃ other ∈ setting :: rest, other ∈ done) :
    ¬ rest.Nodup ∨ ∃ other ∈ rest, other ∈ setting :: done := by
  rcases hrepeated with hrepeated | ⟨other, hother, hdone⟩
  · by_cases hagain : setting ∈ rest
    · exact .inr ⟨setting, hagain, List.mem_cons_self⟩
    · exact .inl fun honce => hrepeated (List.nodup_cons.mpr ⟨hagain, honce⟩)
  · rcases List.mem_cons.mp hother with rfl | hlater
    · exact absurd hdone hnew
    · exact .inr ⟨other, hlater, List.mem_cons_of_mem _ hdone⟩

/-- A setting that is named twice is an error, whatever is said of it. -/
theorem changeAll?_of_repeated
    (hentries : List.Forall₂ reader.Matches entries pairs)
    (hrepeated : ¬ (namedSettings pairs).Nodup ∨
      ∃ setting ∈ namedSettings pairs, setting ∈ done) (current : Config) :
    reader.changeAll? current done entries = none := by
  induction hentries generalizing done current with
  | nil =>
      rcases hrepeated with hrepeated | ⟨setting, hsetting, -⟩
      · exact absurd List.nodup_nil hrepeated
      · cases hsetting
  | @cons entry pair entries rest hentry _ ih =>
      obtain ⟨name, value⟩ := entry
      obtain ⟨key, scalar⟩ := pair
      obtain rfl : name = key.text := hentry.name
      cases hname : Setting.ofName? key.text with
      | none =>
          rw [namedSettings_of_other hname] at hrepeated
          rw [changeAll?_of_other hname]
          exact ih hrepeated current
      | some setting =>
          rw [namedSettings_of_name hname] at hrepeated
          rw [changeAll?_of_name hname]
          by_cases hdone : setting ∈ done
          · exact if_pos hdone
          · rw [if_neg hdone, Option.bind_eq_none_iff]
            exact fun next _ => ih (repeated_later hdone hrepeated) next

end

variable {reader : SettingsReader ν} {text : String}
  {pairs : List (Scalar × Scalar)}

/-- Pairs that list a configuration make it of the default. -/
theorem Lists.config_eq {config : Config} (hlists : reader.Lists text pairs)
    (htext : trim text ≠ "") (hlisted : config.Listed pairs) :
    reader.config text = .ok config := by
  obtain ⟨entries, hread, hentries⟩ := hlists
  obtain ⟨last, hlast, hsaid, hkept⟩ := changeAll?_of_means hentries
    hlisted.once (fun _ _ => List.not_mem_nil) hlisted.means {}
  have hsame : last = config := by
    apply Config.eq_of_agrees
    intro setting
    by_cases hnamed : setting ∈ namedSettings pairs
    · exact hsaid setting hnamed
    · exact (hkept setting hnamed).trans (hlisted.others setting hnamed)
  rw [SettingsReader.config, if_neg htext, hread, Option.bind_some, hlast,
    hsame]

/-- Pairs that name a setting twice are an error. -/
theorem Lists.config_repeated (hlists : reader.Lists text pairs)
    (htext : trim text ≠ "") (hrepeated : ¬ (namedSettings pairs).Nodup) :
    reader.config text = .error .malformed := by
  obtain ⟨entries, hread, hentries⟩ := hlists
  have hnone := changeAll?_of_repeated hentries
    (.inl hrepeated : _ ∨ ∃ setting ∈ namedSettings pairs, setting ∈ []) {}
  rw [SettingsReader.config, if_neg htext, hread, Option.bind_some, hnone]

end SettingsReader

end Stencil
