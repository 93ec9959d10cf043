/-
What pairs of a key and a value say of a configuration: which settings they
name, what a scalar says of a setting, and when the pairs list all in which a
configuration differs from the default.
-/
import Stencil.Decimal
import Stencil.Scalar
import Stencil.Settings

namespace Stencil

/-- The words for a truth value. -/
def truthWords : Bool → List String
  | true => ["true", "True", "TRUE"]
  | false => ["false", "False", "FALSE"]

/-- The words for no value. -/
def nullWords : List String := ["~", "null", "Null", "NULL"]

/-- Whether a text stands for a number below 2^64, by its decimal digits, or for
no number, by a word for that or by being empty. -/
def StandsForCount (text : String) : Option Nat → Prop
  | none => text = "" ∨ text ∈ nullWords
  | some count => count < word64Bound ∧ text = toString count

instance (text : String) : DecidablePred (StandsForCount text)
  | none => inferInstanceAs (Decidable (_ ∨ _))
  | some _ => inferInstanceAs (Decidable (_ ∧ _))

/-- Whether a scalar says what a setting is: any scalar with the text of a
marker, any without a tag that is the name of a policy, and plain ones for a
truth value and for a number. -/
def Setting.Means (setting : Setting) (config : Config) (value : Scalar) :
    Prop :=
  match setting with
  | .lineMarker => value.text = config.lineMarker
  | .exitPolicy =>
      value.tag = none ∧ value.text = config.exitPolicy.name
  | .stripScriptTags =>
      value.tag = none ∧ value.style = .plain ∧
        value.text ∈ truthWords config.stripScriptTags
  | .swallowCommentLineBreak =>
      value.tag = none ∧ value.style = .plain ∧
        value.text ∈ truthWords config.swallowCommentLineBreak
  | .scriptTimeoutMs =>
      value.tag = none ∧ value.style = .plain ∧
        StandsForCount value.text config.scriptTimeoutMs

instance (setting : Setting) (config : Config) (value : Scalar) :
    Decidable (setting.Means config value) :=
  match setting with
  | .lineMarker => inferInstanceAs (Decidable (_ = _))
  | .exitPolicy => inferInstanceAs (Decidable (_ ∧ _))
  | .stripScriptTags => inferInstanceAs (Decidable (_ ∧ _ ∧ _ ∈ _))
  | .swallowCommentLineBreak => inferInstanceAs (Decidable (_ ∧ _ ∧ _ ∈ _))
  | .scriptTimeoutMs => inferInstanceAs (Decidable (_ ∧ _ ∧ _))

/-- Whether two configurations have a setting in common. -/
def Setting.Agrees (setting : Setting) (first second : Config) : Prop :=
  match setting with
  | .lineMarker => first.lineMarker = second.lineMarker
  | .exitPolicy => first.exitPolicy = second.exitPolicy
  | .stripScriptTags => first.stripScriptTags = second.stripScriptTags
  | .swallowCommentLineBreak =>
      first.swallowCommentLineBreak = second.swallowCommentLineBreak
  | .scriptTimeoutMs => first.scriptTimeoutMs = second.scriptTimeoutMs

theorem Setting.Agrees.trans {setting : Setting} {first second third : Config}
    (hfirst : setting.Agrees first second)
    (hsecond : setting.Agrees second third) : setting.Agrees first third := by
  cases setting with
  | lineMarker | exitPolicy | stripScriptTags | swallowCommentLineBreak
  | scriptTimeoutMs => exact Eq.trans hfirst hsecond

/-- Configurations with all settings in common are the same. -/
theorem Config.eq_of_agrees {first second : Config}
    (hagrees : ∀ setting : Setting, setting.Agrees first second) :
    first = second := by
  obtain ⟨marker, policy, strip, swallow, timeout⟩ := first
  obtain rfl : marker = second.lineMarker := hagrees .lineMarker
  obtain rfl : policy = second.exitPolicy := hagrees .exitPolicy
  obtain rfl : strip = second.stripScriptTags := hagrees .stripScriptTags
  obtain rfl : swallow = second.swallowCommentLineBreak :=
    hagrees .swallowCommentLineBreak
  obtain rfl : timeout = second.scriptTimeoutMs := hagrees .scriptTimeoutMs
  rfl

/-- The settings that pairs of keys and values name, in order. -/
def namedSettings (pairs : List (Scalar × Scalar)) : List Setting :=
  pairs.filterMap fun pair => Setting.ofName? pair.1.text

/-- Whether pairs of keys and values list a configuration: each setting is named
at most once, what is said of it is what it is, and what is not named is as by
default. -/
structure Config.Listed (config : Config) (pairs : List (Scalar × Scalar)) :
    Prop where
  once : (namedSettings pairs).Nodup
  means : ∀ pair ∈ pairs, ∀ setting ∈ Setting.ofName? pair.1.text,
    setting.Means config pair.2
  others : ∀ setting, setting ∉ namedSettings pairs → setting.Agrees {} config

section

variable {key value : Scalar} {pairs : List (Scalar × Scalar)}

theorem namedSettings_of_other (hname : Setting.ofName? key.text = none) :
    namedSettings ((key, value) :: pairs) = namedSettings pairs := by
  simp [namedSettings, hname]

theorem namedSettings_of_name {setting : Setting}
    (hname : Setting.ofName? key.text = some setting) :
    namedSettings ((key, value) :: pairs) =
      setting :: namedSettings pairs := by
  simp [namedSettings, hname]

end

end Stencil
