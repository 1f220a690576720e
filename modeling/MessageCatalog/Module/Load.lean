/-
Loading modules.

A module is read, verified and then linked against a host.

* `verify`: the runtime has to be supported, and the hash has to be that of the body;
* `importRules`, `importFormatters`: the host has to have all that a module imports;
* `entry`: the bundle that the target of a module offers;
* `link`, `load`: the live bundle of a module, and of a text.
-/
import MessageCatalog.Module.Link
import MessageCatalog.Module.Reader

namespace MessageCatalog.Module

open Plural (Category Kind Rule)

/-! ### Verification -/

/-- Checks the runtime and the hash of a module. -/
def verify (m : Module) : Except LoadError Unit :=
  if !m.runtime.isSupported then .error (.runtime m.runtime.name m.runtime.version)
  else
    match Digest.Hash.ofText? m.digest with
    | none => .error .hash
    | some hash => if m.body.hash = hash then .ok () else .error .digest

/-! ### Imports -/

/-- Whether a label names a declared category. -/
def isKnownLabel (declared : List Category) (label : String) : Bool :=
  match Category.ofLabel? label with
  | some category => declared.contains category
  | none => false

/-- Checks that a rule declares the imported categories of a kind. A rule that declares none at
all may have any. -/
def checkLabels (locale : String) (rule : Rule) (kind : Kind) (labels : List String) :
    Except LoadError Unit :=
  let declared := rule.declared kind
  if declared.isEmpty then .ok ()
  else
    match labels.find? fun label => !isKnownLabel declared label with
    | some label => .error (.invalid (.lacksCategory locale kind label))
    | none => .ok ()

/-- The rule of a host for an imported name. -/
def importRule (host : Host) (locale : String) (categories : Import) : Except LoadError Rule := do
  let rule ← host.rule locale
  checkLabels locale rule .cardinal categories.cardinal
  checkLabels locale rule .ordinal categories.ordinal
  return rule

/-- The rules of a host for all imported names, in the order of the names. -/
def importRules (host : Host) : Entries Import → Except LoadError (Entries Rule)
  | [] => .ok []
  | (locale, categories) :: rest => do
    let rule ← importRule host locale categories
    let others ← importRules host rest
    return (locale, rule) :: others

/-- Checks that a host has all imported formatters. -/
def importFormatters (host : Host) : List Formatting.Reference → Except LoadError Unit
  | [] => .ok ()
  | reference :: rest => do
    let _ ← host.formatter reference
    importFormatters host rest

/-! ### Targets -/

/-- The entry at a path into a stored bundle. -/
def entryAt (path : String) (entry : Entry) : Except LoadError Entry :=
  match pathSegments? path with
  | none => .error (.path path)
  | some segments =>
    match entry.at? segments with
    | some inner => .ok inner
    | none => .error (.invalid (.nothingAt path))

/-- A form of a body that has to be there. -/
def present : Option Entry → Except LoadError Entry
  | some entry => .ok entry
  | none => .error (.invalid .noExport)

/-- The entry that a target offers. With all forms at once, the first one that is there counts. -/
def Body.entry (body : Body) : Target → Except LoadError Entry
  | .named => present (body.exports.map .group)
  | .default => present body.default
  | .path path => do entryAt path (← present body.assign)
  | .universal path =>
    match body.default, body.exports, path with
    | some entry, _, _ => .ok entry
    | none, some entries, _ => .ok (.group entries)
    | none, none, some path => do entryAt path (← present body.assign)
    | none, none, none => .error (.invalid .noExport)

/-! ### Loading -/

/-- The live bundle of a module. -/
def link (m : Module) (host : Host) : Except LoadError (Bundle LiveMessage) := do
  m.verify
  let rules ← importRules host m.locales
  importFormatters host m.formatters
  let entry ← m.body.entry m.target
  linkBundle (.imported host rules) entry

/-- The live bundle of the module in a text. -/
def load (text : String) (host : Host) : Except LoadError (Bundle LiveMessage) :=
  match parse? text with
  | some m => m.link host
  | none => .error .json

/-- The live bundle of the module in a file, given its contents if there are any. -/
def loadFile (contents : Option String) (host : Host) : Except LoadError (Bundle LiveMessage) :=
  match contents with
  | some text => load text host
  | none => .error .unreadable

end MessageCatalog.Module
