/-
Settings as text.  A text names the settings that it changes, each with a
value.  What reads the text is given: it tells the names and values of a text,
and what a value is where a text, a truth value, a number or a choice is
wanted.  Names that are no settings are ignored; a setting may be named once.
-/
import Stencil.Blank
import Stencil.Config
import Stencil.Utf8

namespace Stencil

/-- The settings that a text can change. -/
inductive Setting where
  | lineMarker
  | exitPolicy
  | stripScriptTags
  | swallowCommentLineBreak
  | scriptTimeoutMs
  deriving DecidableEq, Repr

def Setting.all : List Setting :=
  [.lineMarker, .exitPolicy, .stripScriptTags, .swallowCommentLineBreak,
    .scriptTimeoutMs]

def Setting.name : Setting → String
  | .lineMarker => "line_marker"
  | .exitPolicy => "exit_policy"
  | .stripScriptTags => "strip_script_tags"
  | .swallowCommentLineBreak => "swallow_comment_line_break"
  | .scriptTimeoutMs => "script_timeout_ms"

def Setting.ofName? (name : String) : Option Setting :=
  Setting.all.find? (fun setting => setting.name == name)

theorem Setting.ofName?_name (setting : Setting) :
    Setting.ofName? setting.name = some setting := by
  cases setting <;> decide

/-- What reads a notation for settings.  Its values are of a kind of its own;
`none` is what it gives for what it refuses. -/
structure SettingsReader (ν : Type) where
  /-- The names in a text with their values, in the order of the text. -/
  entries? : String → Option (List (String × ν))
  text? : ν → Option String
  truth? : ν → Option Bool
  /-- A number below 2^64, or no value. -/
  count? : ν → Option (Option Nat)
  /-- The name of a choice. -/
  choice? : ν → Option String

/-- Why settings could not be had. -/
inductive ConfigError where
  | malformed
  /-- The file at the path does not exist, or holds no text. -/
  | unreadable (path : String)
  /-- The text of the file at the path is malformed. -/
  | invalid (path : String)
  deriving DecidableEq, Repr

def malformedMessage : String := "Failed to parse compiler config"

def ConfigError.message : ConfigError → String
  | .malformed => malformedMessage
  | .unreadable path => "Failed to read compiler config " ++ path
  | .invalid path =>
      "Invalid compiler config " ++ path ++ ": " ++ malformedMessage

namespace SettingsReader

variable {ν : Type} (reader : SettingsReader ν)

/-- Change one setting to what a value says. -/
def change? (setting : Setting) (value : ν) (config : Config) :
    Option Config :=
  match setting with
  | .lineMarker =>
      (reader.text? value).map fun text => { config with lineMarker := text }
  | .exitPolicy =>
      ((reader.choice? value).bind ExitPolicy.ofName?).map fun policy =>
        { config with exitPolicy := policy }
  | .stripScriptTags =>
      (reader.truth? value).map fun truth =>
        { config with stripScriptTags := truth }
  | .swallowCommentLineBreak =>
      (reader.truth? value).map fun truth =>
        { config with swallowCommentLineBreak := truth }
  | .scriptTimeoutMs =>
      (reader.count? value).map fun count =>
        { config with scriptTimeoutMs := count }

/-- Change what the entries say.  The settings in `done` have been changed
already, and may not be named again. -/
def changeAll? (config : Config) (done : List Setting) :
    List (String × ν) → Option Config
  | [] => some config
  | (name, value) :: rest =>
      match Setting.ofName? name with
      | none => changeAll? config done rest
      | some setting =>
          if setting ∈ done then none
          else
            (reader.change? setting value config).bind fun config =>
              changeAll? config (setting :: done) rest

/-- The settings that a text spells.  A blank text changes none. -/
def config (text : String) : Except ConfigError Config :=
  if trim text = "" then .ok {}
  else
    match (reader.entries? text).bind (reader.changeAll? {} []) with
    | some config => .ok config
    | none => .error .malformed

/-- The settings in a file, given its content if it has any. -/
def load (path : String) (content : Option (List UInt8)) :
    Except ConfigError Config :=
  match content.bind ofUtf8? with
  | none => .error (.unreadable path)
  | some text =>
      match reader.config text with
      | .ok config => .ok config
      | .error _ => .error (.invalid path)

/-- The settings in the file at a path that was set from outside.  Where none
is set, or an empty one, nothing is changed. -/
def configAt (path? : Option String)
    (content : String → Option (List UInt8)) : Except ConfigError Config :=
  match path? with
  | none => .ok {}
  | some path =>
      if path = "" then .ok {} else reader.load path (content path)

end SettingsReader

end Stencil
