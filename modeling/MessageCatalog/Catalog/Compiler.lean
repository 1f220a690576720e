/-
Compilers: from patterns under keys to messages under the same keys.

* `Compiler`: the locales, formatters and switches that stay the same for all messages;
* `Compiler.pattern`: the message of a pattern under a locale;
* `Compiler.bundle`: the messages of a source, where a key that names a declared locale changes the
  locale of everything below it;
* `assemble`: messages as they are, or as the text of a module.
-/
import MessageCatalog.Catalog.Source
import MessageCatalog.Locale.Resolver
import MessageCatalog.Message.Compile
import MessageCatalog.Module.Export
import MessageCatalog.Pattern.Parser

namespace MessageCatalog

open Formatting (Registry)
open MessageCatalog.Locale (Resolver)
open Plural (Rule)

/-- Why messages cannot be compiled. -/
inductive CompileError where
  /-- The locale has no plural rule. -/
  | locale (error : Locale.Error)
  /-- A text is no pattern. -/
  | pattern (error : Pattern.ParseError)
  /-- A statement cannot be compiled. -/
  | statement (error : StatementError)
  /-- A key that a group may not have. -/
  | reservedKey (key : String)
deriving DecidableEq

/-- The wording of an error. -/
def CompileError.message : CompileError → String
  | .locale error => error.message
  | .pattern error => "parse error: " ++ error.message
  | .statement error => error.message
  | .reservedKey key =>
    "reserved key " ++ key ++ " cannot be used at the top level of a message set"

/-- What stays the same for all messages. -/
structure Compiler where
  resolver : Resolver
  registry : Registry
  checkKeys : Bool
  strict : Bool
  isolate : Bool

namespace Compiler

/-! ### Patterns -/

/-- What a pattern is compiled with under a locale and its rule. -/
def context (compiler : Compiler) (locale : String) (rule : Rule) : Context where
  locale := locale
  rule := rule
  registry := compiler.registry
  strict := compiler.strict
  isolate := compiler.isolate

/-- The plural rule of a locale. It declares nothing if keys are not checked. -/
def rule (compiler : Compiler) (locale : String) : Except CompileError Rule :=
  (compiler.resolver.resolve locale compiler.checkKeys).mapError .locale

/-- The locale that a request is served under. -/
def select (compiler : Compiler) (locale : Option String) : Except CompileError String :=
  (compiler.resolver.select locale).mapError .locale

/-- The message of a pattern under a locale. -/
def pattern (compiler : Compiler) (locale text : String) : Except CompileError LiveMessage := do
  let rule ← compiler.rule locale
  let elements ← (Pattern.parse text).mapError .pattern
  (Compile.message (compiler.context locale rule) elements).mapError .statement

/-- The message of a pattern under the locale of a request. -/
def message (compiler : Compiler) (locale : Option String) (text : String) :
    Except CompileError LiveMessage := do
  let locale ← compiler.select locale
  compiler.pattern locale text

/-! ### Bundles -/

/-- The key that the outermost group may not have: in a host that makes an object of the group, it
would hide how objects turn into text. -/
def reservedKey : String := "toString"

/-- The locale below a key: the key itself if it is a declared locale, else that of the group. -/
def localeBelow (compiler : Compiler) (locale key : String) : String :=
  if compiler.resolver.isDeclared key then key else locale

/-- Whether the outermost group of a source has the reserved key. -/
def hasReservedKey : Source → Bool
  | .one _ => false
  | .group entries => Entries.contains entries reservedKey

/-- The messages of a source under the locale of a request. -/
def bundle (compiler : Compiler) (locale : Option String) (source : Source) :
    Except CompileError (Bundle LiveMessage) := do
  let locale ← compiler.select locale
  if hasReservedKey source then .error (.reservedKey reservedKey)
  else source.traverse compiler.localeBelow compiler.pattern locale

end Compiler

/-! ### Assembly -/

/-- Messages as they are, or as the text of a module. -/
inductive Assembled where
  | live (b : Bundle LiveMessage)
  | text (text : String)

/-- Without a target messages stay as they are; with one they become the text of a module. -/
def assemble (b : Bundle LiveMessage) :
    Option Module.Target → Except Module.ExportError Assembled
  | none => .ok (.live b)
  | some target => do
    let made ← Module.ofBundle b target
    return .text made.text

/-- The wording of an error of assembly. -/
def assemblyMessage (error : Module.ExportError) : String :=
  "export error: " ++ error.message

end MessageCatalog
