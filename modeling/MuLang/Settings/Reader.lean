import MuLang.Settings
import MuLang.Text.Quoted
import MuLang.Toml.Reader

/-!
# Settings from a TOML document

Every setting is optional, and names that are no setting are passed over. The first value that does
not fit its setting is reported, in the order of the document.
-/
namespace MuLang

open Toml

/-- What a setting takes. -/
inductive Expectation where
  | boolean
  | count
  | accessPolicy
  deriving DecidableEq, Inhabited

/-- Why a document gives no settings. -/
inductive SettingsError where
  /-- It is no TOML document. -/
  | malformed
  | unexpected (found : Value) (expected : Expectation)
  | negative (n : Int)
  | unknownChoice (name : String) (choices : List String)
  | noChoice
  | manyChoices
  /-- A choice written as a table has a value other than an empty one. -/
  | filledTable
  | filledArray
  | notTable (found : Value)
  /-- A value that cannot be a choice. -/
  | notChoice
  deriving Inhabited

def Expectation.describe : Expectation → String
  | .boolean => "a boolean"
  | .count => "usize"
  | .accessPolicy => "struct AccessPolicy"

/-- How a report shows a value of the wrong kind. -/
def Toml.Value.describe : Value → String
  | .text content => "string " ++ Text.quote content
  | .integer n => "integer `" ++ toString n ++ "`"
  | .decimal number => "floating point `" ++ number.describe ++ "`"
  | .bool value => if value then "boolean `true`" else "boolean `false`"
  | .moment | .table .. => "map"
  | .array _ | .tables .. => "sequence"

/-- The name of a value's kind. -/
def Toml.Value.kindName : Value → String
  | .text _ => "string"
  | .integer _ => "integer"
  | .decimal _ => "float"
  | .bool _ => "boolean"
  | .moment => "datetime"
  | .array _ => "array"
  | .table .. => "table"
  | .tables .. => "array of tables"

namespace SettingsError

/-- The choices of a setting, each between backticks. -/
def listChoices (choices : List String) : String :=
  ", ".intercalate (choices.map fun choice => "`" ++ choice ++ "`")

def message : SettingsError → String
  | .malformed => "malformed document"
  | .unexpected found expected =>
    "invalid type: " ++ found.describe ++ ", expected " ++ expected.describe
  | .negative n => "invalid value: integer `" ++ toString n ++ "`, expected usize"
  | .unknownChoice name choices =>
    "unknown variant `" ++ name ++ "`, expected one of " ++ listChoices choices
  | .noChoice => "wanted exactly 1 element, found 0 elements"
  | .manyChoices => "wanted exactly 1 element, more than 1 element"
  | .filledTable => "expected empty table"
  | .filledArray => "expected empty array"
  | .notTable found => "expected table, found " ++ found.kindName
  | .notChoice => "wanted string or table"

end SettingsError

namespace Settings

def boolean : Value → Except SettingsError Bool
  | .bool value => .ok value
  | found => .error (.unexpected found .boolean)

def count : Value → Except SettingsError Nat
  | .integer n => if 0 ≤ n then .ok n.toNat else .error (.negative n)
  | found => .error (.unexpected found .count)

/-- The choice of a name. -/
def named {α : Type} (choices : List (String × α)) (name : String) : Except SettingsError α :=
  match choices.lookup name with
  | some choice => .ok choice
  | none => .error (.unknownChoice name (choices.map (·.1)))

/-- What may stand under the name of a choice: nothing but an empty collection. -/
def checkEmpty : Value → Except SettingsError Unit
  | .table _ [] | .array [] => .ok ()
  | .table .. | .array _ => .error .filledTable
  | .tables .. => .error .filledArray
  | found => .error (.notTable found)

/-- A choice: its name, or a table with the name as its only key. -/
def choice {α : Type} (choices : List (String × α)) : Value → Except SettingsError α
  | .text name => named choices name
  | .table _ [] => .error .noChoice
  | .table _ [(name, value)] => do
    let choice ← named choices name
    checkEmpty value
    return choice
  | .table .. => .error .manyChoices
  | _ => .error .notChoice

def visibilities : List (String × Visibility) :=
  [("public", .pub), ("private", .priv), ("protected", .prot)]

def boundaries : List (String × Boundary) :=
  [("same-module", .sameModule), ("subtree", .subtree), ("siblings", .siblings)]

/-- An access policy with one setting changed. -/
def setAccess (policy : AccessPolicy) (entry : String × Value) :
    Except SettingsError AccessPolicy :=
  match entry with
  | ("default_visibility", value) =>
    return { policy with defaultVisibility := ← choice visibilities value }
  | ("private_scope", value) => return { policy with privateScope := ← choice boundaries value }
  | ("protected_scope", value) =>
    return { policy with protectedScope := ← choice boundaries value }
  | _ => .ok policy

/-- The access policy with the given settings. -/
def accessOf (entries : Entries) : Except SettingsError AccessPolicy := entries.foldlM setAccess {}

/-- The settings of an access policy in the order in which a list gives them. -/
def accessNames : List String := ["default_visibility", "private_scope", "protected_scope"]

/-- An access policy, by name or in a list. A date names no setting. -/
def accessPolicy : Value → Except SettingsError AccessPolicy
  | .table _ entries => accessOf entries
  | .array items => accessOf (accessNames.zip items)
  | .tables earlier last =>
    accessOf (accessNames.zip ((earlier ++ [last]).map (.table .header)))
  | .moment => .ok {}
  | found => .error (.unexpected found .accessPolicy)

/-- Settings with one of them changed. -/
def set (settings : Settings) (entry : String × Value) : Except SettingsError Settings :=
  match entry with
  | ("stdlib", value) => return { settings with stdlib := ← boolean value }
  | ("max_errors", value) => return { settings with maxErrors := some (← count value) }
  | ("access", value) => return { settings with access := ← accessPolicy value }
  | _ => .ok settings

/-- The settings that a TOML document gives. -/
def ofToml (text : String) : Except SettingsError Settings :=
  match Entries.parse? text with
  | none => .error .malformed
  | some entries => entries.foldlM set {}

end Settings

end MuLang
