/-
Hosts: what a program gives to the modules that it loads.

* `Host`: plural rules and formatters by name;
* `LoadError`: why a module cannot be loaded.
-/
import MessageCatalog.Module.Export

namespace MessageCatalog

open Formatting (Backend Builtin Format Formatter Reference)
open Plural (Kind Provider Rule)

namespace Module

/-- What is wrong with a module that can be read. -/
inductive Fault where
  /-- The body has no form that the target can be served from. -/
  | noExport
  /-- Nothing is stored at the path of the target. -/
  | nothingAt (path : String)
  /-- A rule of the host does not declare a category that was declared when the module was made. -/
  | lacksCategory (locale : String) (kind : Kind) (label : String)
  /-- A plural uses a rule that the module does not import. -/
  | notImported (locale : String)
  /-- A choice has no case for all other values. -/
  | noOther (arg : String)
  /-- The key of a plural case cannot be read. -/
  | badKey (key : String)
deriving DecidableEq

/-- The wording of a fault. -/
def Fault.message : Fault → String
  | .noExport => "module body has no usable export"
  | .nothingAt path => "nothing assigned at " ++ Text.quote path
  | .lacksCategory locale kind label =>
    "host plural rules for " ++ locale ++ " lack " ++ kind.label ++ " category " ++ label
  | .notImported locale => "plural uses unimported locale " ++ locale
  | .noOther arg => "cases for " ++ arg ++ " lack an other branch"
  | .badKey key => "invalid plural key " ++ Text.quote key

/-- Why a module cannot be loaded. -/
inductive LoadError where
  /-- There is no text. -/
  | unreadable
  /-- The text is not the JSON of a module. -/
  | json
  /-- The module was written for another runtime. -/
  | runtime (name : String) (version : UInt32)
  /-- The hash cannot be read. -/
  | hash
  /-- The hash is not that of the body. -/
  | digest
  /-- The host has no rule of a name. -/
  | locale (name : String)
  /-- The host has no formatter of a name. -/
  | formatter (name : String)
  /-- The path of the target cannot be read. -/
  | path (text : String)
  /-- The module does not fit together. -/
  | invalid (fault : Fault)
deriving DecidableEq

/-- The wording of an error. -/
def LoadError.message : LoadError → String
  | .unreadable => "cannot read module"
  | .json => "malformed module"
  | .runtime name version => "unsupported runtime " ++ name ++ " v" ++ toString version.toNat
  | .hash => "invalid hash format"
  | .digest => "module digest mismatch"
  | .locale name => "missing plural rules for locale " ++ name
  | .formatter name => "missing formatter " ++ name
  | .path text => (ExportError.badPath text).message
  | .invalid fault => "invalid module: " ++ fault.message

end Module

open MessageCatalog.Module (LoadError)

/-- What a program gives to modules: plural rules by exact name, a backend for the built-in
formatters if it has one, and custom formatters by exact name. -/
structure Host where
  rules : Provider
  backend : Option Backend := none
  formatters : Entries Format := []

namespace Host

/-- The rule of a name. -/
def rule (host : Host) (name : String) : Except LoadError Rule :=
  match host.rules name with
  | some rule => .ok rule
  | none => .error (.locale name)

/-- The formatter that a reference names. -/
def formatter? (host : Host) : Reference → Option Formatter
  | .builtin name =>
    match Builtin.ofName? name, host.backend with
    | some id, some backend => some (.builtin id backend)
    | _, _ => none
  | .custom name => (Entries.get? host.formatters name).map (.custom name)

/-- The formatter that a reference names, which has to be there. -/
def formatter (host : Host) (reference : Reference) : Except LoadError Formatter :=
  match host.formatter? reference with
  | some formatter => .ok formatter
  | none => .error (.formatter reference.name)

end Host

end MessageCatalog
