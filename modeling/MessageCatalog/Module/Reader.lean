/-
Modules from JSON.

The readers accept every record that has the fields of its kind, so they accept more than what
is written: fields in any order, fields of other names, and records as arrays of their fields.
Outside nodes and targets the fields of other names need no value.

* `nodeOfJson?`, `entryOfJson?`, `bodyOfJson?`, `ofJson?`: the parts of a module;
* `form`, `bodyForm`, `entryForm`: what is read of the form of a text;
* `parse?`: the module in a text.
-/
import MessageCatalog.Json.Reader
import MessageCatalog.Json.Record
import MessageCatalog.Module.Basic

namespace MessageCatalog.Module

open Formatting (Reference Style)
open Json (Form)
open Plural (Kind)

-- Powers here are core's own, also where Mathlib is in scope.
attribute [local instance (high)] instPowNat

/-! ### Nodes -/

/-- A style is a text or a list of texts. -/
def styleOfJson? : Json → Option Style
  | .string text => some (.single text)
  | j => (Json.list? Json.text? j).map .list

/-- A reference is a name under the kind of the formatter. -/
def referenceOfJson? (j : Json) : Option Reference :=
  match j.single? with
  | some ("builtin", .string name) => some (.builtin name)
  | some ("custom", .string name) => some (.custom name)
  | _ => none

/-- A case of a choice, whose nodes are read by a given reader. -/
def caseOfJson? (node : Json → Option StoredNode) (j : Json) :
    Option (Branch String StoredNode) := do
  match ← j.fields? ["key", "body"] with
  | [some key, some body] => return ⟨← key.text?, ← Json.list? node body⟩
  | _ => none

/-- A node of a given kind, whose inner nodes are read by a given reader. -/
def nodeOfRecord? (node : Json → Option StoredNode) (kind : String) (record : Json) :
    Option StoredNode := do
  match kind with
  | "text" =>
    match ← record.fields? ["value"] with
    | [some value] => return .text (← value.text?)
    | _ => none
  | "arg" =>
    match ← record.fields? ["name"] with
    | [some name] => return .argument (← name.text?)
    | _ => none
  | "number" =>
    match ← record.fields? ["arg", "offset", "strict"] with
    | [some arg, some offset, strict] =>
      return .numberSign (← arg.text?) (← offset.number?) (← (strict.getD (.bool false)).flag?)
    | _ => none
  | "call" =>
    match ← record.fields? ["arg", "formatter", "locale", "style"] with
    | [some arg, some formatter, some locale, style] =>
      return .call (← arg.text?) (← referenceOfJson? formatter) (← locale.text?)
        (← Json.optional? styleOfJson? style)
    | _ => none
  | "plural" =>
    match ← record.fields? ["arg", "kind", "offset", "locale", "cases"] with
    | [some arg, some kind, some offset, some locale, some cases] =>
      return .plural (← arg.text?) (← kind.label?.bind Kind.ofLabel?) (← offset.number?)
        (← locale.text?) (← Json.list? (caseOfJson? node) cases)
    | _ => none
  | "select" =>
    match ← record.fields? ["arg", "cases"] with
    | [some arg, some cases] =>
      return .select (← arg.text?) (← Json.list? (caseOfJson? node) cases)
    | _ => none
  | "isolate" =>
    match ← record.fields? ["node"] with
    | [some inner] => return .isolate (← node inner)
    | _ => none
  | _ => none

/-- The kinds of nodes. -/
def nodeKinds : List String :=
  ["text", "arg", "number", "call", "plural", "select", "isolate"]

/-- The kind of a node inside another one: its name, or its place among the kinds. -/
def innerKind? : Json → Option String
  | .integer (.ofNat n) => nodeKinds[n]?
  | j => j.text?

/-- A node with its kind under `op`, in JSON of at most the given depth. The kind of the outermost
node is read by a given reader. -/
def nodeAtDepth? (kind : Json → Option String) : Nat → Json → Option StoredNode
  | 0, _ => none
  | depth + 1, j =>
    match j.tagged? "op" kind with
    | some (kind, record) => nodeOfRecord? (nodeAtDepth? innerKind? depth) kind record
    | none => none

/-- A node of a message, whose kind is a name. -/
def nodeOfJson? (j : Json) : Option StoredNode :=
  nodeAtDepth? Json.text? j.depth j

/-! ### Bundles -/

/-- A message with its locale. -/
def messageOfJson? (j : Json) : Option StoredMessage := do
  match ← j.fields? ["locale", "nodes"] with
  | [some locale, some nodes] =>
    return ⟨← locale.text?, ← Json.list? nodeOfJson? nodes⟩
  | _ => none

/-- An entry, in JSON of at most the given depth. -/
def entryAtDepth? : Nat → Json → Option Entry
  | 0, _ => none
  | depth + 1, j =>
    match j.single? with
    | some ("message", m) => (messageOfJson? m).map .one
    | some ("set", entries) => (Json.entries? (entryAtDepth? depth) entries).map .group
    | _ => none

/-- An entry is a message or a set of entries. -/
def entryOfJson? (j : Json) : Option Entry :=
  entryAtDepth? j.depth j

/-- A body with the forms that it has. -/
def bodyOfJson? (j : Json) : Option Body := do
  match ← j.fields? ["default", "exports", "assign"] with
  | [default, exports, assign] =>
    return ⟨← Json.optional? entryOfJson? default,
      ← Json.optional? (Json.entries? entryOfJson?) exports,
      ← Json.optional? entryOfJson? assign⟩
  | _ => none

/-! ### Modules -/

/-- A list of texts. -/
def textsOfJson? : Json → Option (List String) :=
  Json.list? Json.text?

/-- A runtime with its operations. -/
def runtimeOfJson? (j : Json) : Option Runtime := do
  match ← j.fields? ["name", "version", "primitives"] with
  | [some name, some version, some primitives] =>
    return ⟨← name.text?, .ofNat (← version.natural? (2 ^ (32 : Nat))), ← textsOfJson? primitives⟩
  | _ => none

/-- A target with its kind. The kinds that are no more than a name have no items in an array. -/
def targetOfJson? (j : Json) : Option Target := do
  match ← j.tagged? "kind" Json.text? with
  | ("named", record) => (record.fields? []).map fun _ => .named
  | ("default", record) => (record.fields? []).map fun _ => .default
  | ("path", record) =>
    match ← record.fields? ["path"] with
    | [some path] => return .path (← path.text?)
    | _ => none
  | ("universal", record) =>
    match ← record.fields? ["path"] with
    | [path] => return .universal (← Json.optional? Json.text? path)
    | _ => none
  | _ => none

/-- The declared categories of an imported rule. -/
def importOfJson? (j : Json) : Option Import := do
  match ← j.fields? ["cardinal", "ordinal"] with
  | [some cardinal, some ordinal] =>
    return ⟨← textsOfJson? cardinal, ← textsOfJson? ordinal⟩
  | _ => none

/-- A whole module. -/
def ofJson? (j : Json) : Option Module := do
  match ← j.fields? ["runtime", "export", "locales", "formatters", "digest", "body"] with
  | [some runtime, some target, some locales, some formatters, some digest, some body] =>
    return ⟨← runtimeOfJson? runtime, ← targetOfJson? target,
      ← Json.entries? importOfJson? locales, ← Json.list? referenceOfJson? formatters,
      ← digest.text?, ← bodyOfJson? body⟩
  | _ => none

/-! ### Forms -/

/-- What is read of a message; its nodes are read whole. -/
def messageForm : Form → Form :=
  Form.record [("locale", id), ("nodes", id)]

mutual

/-- What is read of an entry. -/
def entryForm : Form → Form
  | .object members => .object (variantForms members)
  | form => form

/-- What is read of an entry under the name of its kind. -/
def variantForms : List (Option String × Form) → List (Option String × Form)
  | [] => []
  | (some "message", message) :: rest => (some "message", messageForm message) :: variantForms rest
  | (some "set", .object entries) :: rest =>
    (some "set", .object (entryForms entries)) :: variantForms rest
  | member :: rest => member :: variantForms rest

/-- What is read of entries under their keys. -/
def entryForms : List (Option String × Form) → List (Option String × Form)
  | [] => []
  | (key, entry) :: rest => (key, entryForm entry) :: entryForms rest

end

/-- What is read of a body. -/
def bodyForm : Form → Form :=
  Form.record [("default", entryForm), ("exports", Form.table entryForm), ("assign", entryForm)]

/-- What is read of a module. -/
def form : Form → Form :=
  Form.record
    [("runtime", Form.record [("name", id), ("version", id), ("primitives", id)]),
      ("export", id),
      ("locales", Form.table (Form.record [("cardinal", id), ("ordinal", id)])),
      ("formatters", id),
      ("digest", id),
      ("body", bodyForm)]

/-! ### Texts -/

/-- The body in a text. -/
def Body.parse? (text : String) : Option Body := do
  let whole ← Form.parse? text
  let j ← (bodyForm whole).value? Json.nestingLimit
  bodyOfJson? j

/-- The module in a text. -/
def parse? (text : String) : Option Module := do
  let whole ← Form.parse? text
  let j ← (form whole).value? Json.nestingLimit
  ofJson? j

end MessageCatalog.Module
