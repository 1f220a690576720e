/-
Making modules from bundles of live messages.

* `store`: the stored form of a bundle: formatters by reference, rules by name, keys as text;
* `importsOf`, `referencesOf`: what the messages of a bundle need from a host;
* `pathSegments?`: the names in an export path;
* `ofBundle`: the module of a bundle for a target.
-/
import MessageCatalog.Module.Writer
import MessageCatalog.Text.Blank
import MessageCatalog.Text.Quoted

namespace MessageCatalog.Module

open Formatting (Formatter Reference)
open Plural (Key Rule)

/-- Why a bundle cannot be offered in a form. -/
inductive ExportError where
  /-- One message alone has no entries with names. -/
  | namedMessage
  /-- A path with a blank segment. -/
  | badPath (path : String)
deriving DecidableEq

/-- The wording of an error. -/
def ExportError.message : ExportError → String
  | .namedMessage => "invalid export: named exports require a message set"
  | .badPath path => "invalid export: invalid export path " ++ Text.quote path

/-! ### Paths -/

/-- The segments of a path, which are separated by dots; white space around them does not count.
None of them may be empty. -/
def pathSegments? (path : String) : Option (List String) :=
  let segments := (Text.pieces (· == '.') path.toList).map Text.trimChars
  if segments.any List.isEmpty then none else some (segments.map String.ofList)

/-- A stored bundle inside the groups that a path names. -/
def nestUnder (path : String) (entry : Entry) : Except ExportError Entry :=
  match pathSegments? path with
  | some segments => .ok (entry.nest segments)
  | none => .error (.badPath path)

/-! ### What a bundle needs -/

/-- The stored form of a bundle. -/
def store (b : Bundle LiveMessage) : Entry :=
  b.map (Message.mapNodes Formatter.reference Rule.locale Key.text)

/-- The plural rules of the messages of a bundle, in the order in which they are written. -/
def rulesOf (b : Bundle LiveMessage) : List Rule :=
  b.items.flatMap fun m => Node.rulesOfAll m.nodes

/-- The formatters of the messages of a bundle, in the order in which they are written. -/
def formattersOf (b : Bundle LiveMessage) : List Formatter :=
  b.items.flatMap fun m => Node.formattersOfAll m.nodes

/-- The categories that a rule declares. -/
def importOf (rule : Rule) : Import :=
  ⟨rule.labels .cardinal, rule.labels .ordinal⟩

/-- The rules that a bundle imports, by their names. Of several rules with one name the first one
counts. -/
def importsOf (b : Bundle LiveMessage) : Entries Import :=
  Entries.ofList ((rulesOf b).reverse.map fun rule => (rule.locale, importOf rule))

/-- The formatters that a bundle imports, each once and in increasing order. -/
def referencesOf (b : Bundle LiveMessage) : List Reference :=
  Reference.sorted ((formattersOf b).map Formatter.reference)

/-! ### Modules -/

/-- The body of a module for a target. -/
def bodyOf (entry : Entry) : Target → Except ExportError Body
  | .named =>
    match entry with
    | .group entries => .ok { exports := some entries }
    | .one _ => .error .namedMessage
  | .default => .ok { default := some entry }
  | .path path => do
    let assigned ← nestUnder path entry
    return { assign := some assigned }
  | .universal path => do
    let exports :=
      match entry with
      | .group entries => some entries
      | .one _ => none
    let assign ←
      match path with
      | some path => (nestUnder path entry).map some
      | none => .ok none
    return ⟨some entry, exports, assign⟩

/-- The module of a bundle for a target. -/
def ofBundle (b : Bundle LiveMessage) (target : Target) : Except ExportError Module := do
  let body ← bodyOf (store b) target
  return ⟨.current, target, importsOf b, referencesOf b, body.hash.text, body⟩

end MessageCatalog.Module
