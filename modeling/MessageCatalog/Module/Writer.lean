/-
Modules as JSON.

* `nodeJson`, `entryJson`, `bodyJson`, `json`: the parts of a module as JSON, with their fields in
  a fixed order; parts that are absent are left out;
* `Body.canonical`: the text of a body that its hash is taken of;
* `text`: the text of a module.
-/
import MessageCatalog.Digest.Sha256
import MessageCatalog.Json.Printer
import MessageCatalog.Module.Basic

namespace MessageCatalog.Module

open Formatting (Reference Style)

/-! ### Nodes -/

/-- A list of texts. -/
def textsJson (texts : List String) : Json :=
  .array (texts.map .string)

/-- A member that is left out if there is no value. -/
def optionalMember (key : String) : Option Json → List (String × Json)
  | some j => [(key, j)]
  | none => []

/-- A style is its text, or the list of its texts. -/
def styleJson : Style → Json
  | .single text => .string text
  | .list texts => textsJson texts

/-- A reference is a name under the kind of the formatter. -/
def referenceJson : Reference → Json
  | .builtin name => .object [("builtin", .string name)]
  | .custom name => .object [("custom", .string name)]

mutual

/-- A node with its kind under `op`. -/
def nodeJson : StoredNode → Json
  | .text value => .object [("op", .string "text"), ("value", .string value)]
  | .argument name => .object [("op", .string "arg"), ("name", .string name)]
  | .numberSign arg offset strict =>
    .object [("op", .string "number"), ("arg", .string arg), ("offset", .real offset),
      ("strict", .bool strict)]
  | .call arg formatter locale style =>
    .object ([("op", .string "call"), ("arg", .string arg), ("formatter", referenceJson formatter),
      ("locale", .string locale)] ++ optionalMember "style" (style.map styleJson))
  | .plural arg kind offset locale cases =>
    .object [("op", .string "plural"), ("arg", .string arg), ("kind", .string kind.label),
      ("offset", .real offset), ("locale", .string locale), ("cases", .array (casesJson cases))]
  | .select arg cases =>
    .object [("op", .string "select"), ("arg", .string arg), ("cases", .array (casesJson cases))]
  | .isolate inner => .object [("op", .string "isolate"), ("node", nodeJson inner)]

/-- Nodes in their order. -/
def nodesJson : List StoredNode → List Json
  | [] => []
  | node :: rest => nodeJson node :: nodesJson rest

/-- Cases with their keys. -/
def casesJson : List (Branch String StoredNode) → List Json
  | [] => []
  | ⟨key, body⟩ :: rest =>
    .object [("key", .string key), ("body", .array (nodesJson body))] :: casesJson rest

end

/-! ### Bundles -/

/-- A message with its locale. -/
def messageJson (m : StoredMessage) : Json :=
  .object [("locale", .string m.locale), ("nodes", .array (nodesJson m.nodes))]

mutual

/-- An entry is a message or a set of entries. -/
def entryJson : Entry → Json
  | .one m => .object [("message", messageJson m)]
  | .group entries => .object [("set", .object (entriesJson entries))]

/-- Entries under their keys. -/
def entriesJson : List (String × Entry) → List (String × Json)
  | [] => []
  | (key, entry) :: rest => (key, entryJson entry) :: entriesJson rest

end

/-- A body with the forms that it has. -/
def bodyJson (body : Body) : Json :=
  .object (optionalMember "default" (body.default.map entryJson) ++
    optionalMember "exports" (body.exports.map fun entries => .object (entriesJson entries)) ++
    optionalMember "assign" (body.assign.map entryJson))

/-- The text of a body that its hash is taken of. -/
def Body.canonical (body : Body) : String :=
  String.ofList (bodyJson body).compact

/-- The hash of a body. -/
def Body.hash (body : Body) : Digest.Hash :=
  Digest.sha256 body.canonical.toUTF8.toList

/-! ### Modules -/

/-- A runtime with its operations. -/
def runtimeJson (runtime : Runtime) : Json :=
  .object [("name", .string runtime.name), ("version", .integer runtime.version.toNat),
    ("primitives", textsJson runtime.primitives)]

/-- A target with its kind. -/
def targetJson : Target → Json
  | .named => .object [("kind", .string "named")]
  | .default => .object [("kind", .string "default")]
  | .path path => .object [("kind", .string "path"), ("path", .string path)]
  | .universal path =>
    .object (("kind", .string "universal") :: optionalMember "path" (path.map .string))

/-- The declared categories of an imported rule. -/
def importJson (categories : Import) : Json :=
  .object [("cardinal", textsJson categories.cardinal), ("ordinal", textsJson categories.ordinal)]

/-- A whole module. -/
def json (m : Module) : Json :=
  .object [("runtime", runtimeJson m.runtime), ("export", targetJson m.target),
    ("locales", .object (m.locales.map fun (locale, categories) =>
      (locale, importJson categories))),
    ("formatters", .array (m.formatters.map referenceJson)),
    ("digest", .string m.digest), ("body", bodyJson m.body)]

/-- The text of a module. -/
def text (m : Module) : String :=
  (json m).pretty

end MessageCatalog.Module
