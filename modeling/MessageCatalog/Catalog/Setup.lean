/-
Setting a compiler up.

* `Setup`: settings, and what a program adds to them;
* `Setup.declaration`: the locales that count in the end;
* `Setup.build`: the compiler.
-/
import MessageCatalog.Catalog.Compiler
import MessageCatalog.Catalog.Settings

namespace MessageCatalog

open Formatting (Backend Format Registry basicBackend)
open MessageCatalog.Locale (Declaration Resolver)
open Plural (Provider Rule)

/-- Settings, and what a program adds to them. -/
structure Setup where
  provider : Provider
  settings : Settings := {}
  /-- The declared locales, in place of those of the settings. -/
  locales : Option Declaration := none
  /-- Plural rules of the program's own. -/
  rules : Entries Rule := []
  /-- Custom formatters by name. -/
  formatters : Entries Format := []
  /-- The backend of the built-in formatters, in place of the basic one. -/
  backend : Option Backend := none

namespace Setup

/-- The declared locales: those that the program sets, else its own rules if it has any, else
those of the settings. -/
def declaration (setup : Setup) : Declaration :=
  match setup.locales with
  | some declaration => declaration
  | none =>
    if setup.rules.isEmpty then .ofList setup.settings.locales else .custom setup.rules

/-- The formatters that calls may name. -/
def registry (setup : Setup) : Registry where
  custom := setup.formatters
  builtins := if setup.settings.builtins then some (setup.backend.getD basicBackend) else none

/-- The compiler. -/
def build (setup : Setup) : Except Locale.Error Compiler := do
  let settings := setup.settings
  let resolver ← Resolver.make setup.provider setup.declaration settings.defaultLocale
  return ⟨resolver, setup.registry, settings.checkKeys, settings.strict, settings.isolate⟩

end Setup

end MessageCatalog
