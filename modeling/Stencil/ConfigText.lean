/-
Settings in YAML notation: a mapping of the names to scalars.
-/
import Stencil.Decimal
import Stencil.DocumentText
import Stencil.Settings

namespace Stencil

/-- The tag of a core type. -/
def coreTag (type : String) : List UInt8 := coreTags ++ utf8 type

/-- Whether a scalar is read for what it means: it is plain, or a block of
lines that is given the type. -/
def Scalar.isBare (scalar : Scalar) (type : String) : Bool :=
  scalar.style == .plain ||
    (scalar.style == .literal && scalar.tag == some (coreTag type))

def Scalar.truth? (scalar : Scalar) : Option Bool :=
  if scalar.isBare "bool" then
    if scalar.text ∈ ["true", "True", "TRUE"] then some true
    else if scalar.text ∈ ["false", "False", "FALSE"] then some false
    else none
  else none

/-- A number below 2^64: decimal digits, without leading zeros, or digits in
the base that is named before them. -/
def Scalar.count? (scalar : Scalar) : Option Nat :=
  if scalar.isBare "int" then
    match unsigned scalar.text with
    | '0' :: 'x' :: digits => word64InBase? 16 digits
    | '0' :: 'o' :: digits => word64InBase? 8 digits
    | '0' :: 'b' :: digits => word64InBase? 2 digits
    | '0' :: _ :: _ => none
    | _ => word64? scalar.text
  else none

/-- The words for no value. -/
def isNullWord (text : String) : Bool :=
  text ∈ ["~", "null", "Null", "NULL"]

/-- Whether a scalar stands for no value: it is a word for it, or nothing is
written. -/
def Scalar.isNull (scalar : Scalar) : Bool :=
  scalar.style == .plain && (scalar.text == "" || isNullWord scalar.text)

/-- A number, or no value. -/
def Scalar.optionalCount? (scalar : Scalar) : Option (Option Nat) :=
  match scalar.tag with
  | none => if scalar.isNull then some none else scalar.count?.map some
  | some tag =>
      if scalar.style == .plain && tag == coreTag "null" then
        if isNullWord scalar.text then some none else none
      else scalar.count?.map some

/-- What an exclamation mark begins in a tag: a name, or else the mark itself.
A tag that is no text gives none. -/
def tagName? : List UInt8 → Option String
  | [] => none
  | first :: rest =>
      if first = 0x21 then ofUtf8? (if rest.isEmpty then [first] else rest)
      else none

/-- The name of a choice: the name in the tag of a scalar of which nothing
else is written, or its text if its tag holds none. -/
def Scalar.choice? (scalar : Scalar) : Option String :=
  match scalar.tag.bind tagName? with
  | some name => if scalar.isNull then some name else none
  | none => some scalar.text

/-- The entries of a document that is a mapping, or empty. -/
def settingEntries? : Option Node →
    Option (List (Option Scalar × Option Scalar))
  | none => some []
  | some (.mapping anchor entries) => scalarEntries? anchor entries
  | some node => if node.isEmpty then some [] else none

/-- Entries by their names.  A collection is no name. -/
def namedEntries? (entries : List (Option Scalar × Option Scalar)) :
    Option (List (String × Option Scalar)) :=
  entries.mapM fun (key, value) => key.map fun key => (key.text, value)

/-- The reader of YAML notation.  A value that is a collection stands as none,
and any scalar is a text. -/
def SettingsReader.yaml : SettingsReader (Option Scalar) where
  entries? text :=
    ((document? text).bind settingEntries?).bind namedEntries?
  text? value := value.map Scalar.text
  truth? value := value.bind Scalar.truth?
  count? value := value.bind Scalar.optionalCount?
  choice? value := value.bind Scalar.choice?

/-- The settings that a text in YAML notation spells. -/
def Config.ofText (text : String) : Except ConfigError Config :=
  SettingsReader.yaml.config text

def Config.load (path : String) (content : Option (List UInt8)) :
    Except ConfigError Config :=
  SettingsReader.yaml.load path content

def Config.ofPath (path? : Option String)
    (content : String → Option (List UInt8)) : Except ConfigError Config :=
  SettingsReader.yaml.configAt path? content

end Stencil
