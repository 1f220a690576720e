/-
The formatters that the function calls of a pattern may name.

* `Registry.resolve?`: the formatter with a name; a custom one hides a built-in one.
-/
import MessageCatalog.Formatting.Formatter

namespace MessageCatalog.Formatting

/-- Custom formatters by name, and the backend of the built-in ones if they may be used. -/
structure Registry where
  custom : Entries Format := []
  builtins : Option Backend := none

namespace Registry

/-- Registers a custom formatter, in place of one with the same name. -/
def register (registry : Registry) (name : String) (run : Format) : Registry :=
  { registry with custom := Entries.insert name run registry.custom }

/-- Lets calls use the built-in formatters of a backend. -/
def enableBuiltins (registry : Registry) (backend : Backend) : Registry :=
  { registry with builtins := some backend }

/-- The names of the custom formatters, in order. -/
def names (registry : Registry) : List String :=
  Entries.keys registry.custom

/-- The formatter with a name. -/
def resolve? (registry : Registry) (name : String) : Option Formatter :=
  match Entries.get? registry.custom name with
  | some run => some (.custom name run)
  | none =>
    match registry.builtins, Builtin.ofName? name with
    | some backend, some id => some (.builtin id backend)
    | _, _ => none

end Registry

end MessageCatalog.Formatting
