/-
Settings of a compiler, as they stand in a TOML file.

* `Settings`: the settings with their defaults;
* `Settings.ofTable?`: the settings in a table; keys of other names do not matter;
* `Settings.ofFile`, `Settings.ofFileOrDefault`: the settings in a file that may be missing.
-/
import MessageCatalog.Toml.Reader

namespace MessageCatalog

/-- The settings of a compiler. -/
structure Settings where
  /-- The locale of a message when none is asked for and none is declared. -/
  defaultLocale : String := "en"
  /-- The declared locales. -/
  locales : List String := []
  /-- Whether plural keys have to be among the categories of the locale. -/
  checkKeys : Bool := true
  /-- Whether number signs insist on numbers. -/
  strict : Bool := false
  /-- Whether inserted text keeps its own direction. -/
  isolate : Bool := false
  /-- Whether the built-in formatters can be called. -/
  builtins : Bool := false
deriving DecidableEq

namespace Settings

/-- Why there are no settings. -/
inductive Error where
  /-- There is no file. -/
  | unreadable
  /-- The file is not TOML, or a setting has the wrong type. -/
  | malformed
deriving DecidableEq

/-- The wording of an error. -/
def Error.message : Error → String
  | .unreadable => "cannot read settings"
  | .malformed => "malformed settings"

/-! ### Fields -/

/-- A text. -/
def text? : Toml.Value → Option String
  | .text s => some s
  | _ => none

/-- A truth value. -/
def flag? : Toml.Value → Option Bool
  | .flag b => some b
  | _ => none

/-- A list of texts. -/
def texts? : Toml.Value → Option (List String)
  | .array items => items.mapM text?
  | _ => none

/-- The setting under a key, or its default. -/
def field? {α : Type} (table : Toml.Table) (key : String) (read : Toml.Value → Option α)
    (default : α) : Option α :=
  match table.get? key with
  | some value => read value
  | none => some default

/-- The settings in a table. -/
def ofTable? (table : Toml.Table) : Option Settings := do
  let usual : Settings := {}
  return {
    defaultLocale := ← field? table "default_locale" text? usual.defaultLocale
    locales := ← field? table "locales" texts? usual.locales
    checkKeys := ← field? table "plural_key_checks" flag? usual.checkKeys
    strict := ← field? table "strict_number_sign" flag? usual.strict
    isolate := ← field? table "bidi_support" flag? usual.isolate
    builtins := ← field? table "builtin_formatters" flag? usual.builtins }

/-! ### Files -/

/-- The settings in a text. -/
def parse (text : String) : Except Error Settings :=
  match (Toml.parse? text).bind ofTable? with
  | some settings => .ok settings
  | none => .error .malformed

/-- The settings in a file, given its contents if there are any. -/
def ofFile (contents : Option String) : Except Error Settings :=
  match contents with
  | some text => parse text
  | none => .error .unreadable

/-- The settings in a file, or the default ones if there is no file. -/
def ofFileOrDefault (contents : Option String) : Except Error Settings :=
  match contents with
  | some text => parse text
  | none => .ok {}

end Settings

end MessageCatalog
