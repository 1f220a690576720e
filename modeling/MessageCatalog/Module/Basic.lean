/-
Modules: bundles of messages as they are stored, with all that they need from a host.

* `Module`: what a module consists of;
* `Runtime`: what a module expects of the program that loads it;
* `Target`: the form in which a module offers its bundle;
* `Body`: the bundle itself, in the forms that the target asks for.
-/
import MessageCatalog.Digest.Hash
import MessageCatalog.Message.Node

namespace MessageCatalog

open Formatting (Reference)

namespace Module

/-- A named version of the operations that messages are made of. -/
structure Runtime where
  name : String
  version : UInt32
  primitives : List String
deriving DecidableEq

/-- The runtime that modules are written for. -/
def Runtime.current : Runtime :=
  ⟨"mf1-runtime", 1, ["number", "plural", "select", "fmt"]⟩

/-- A runtime is supported if it is the current one with no operations besides the known ones. -/
def Runtime.isSupported (runtime : Runtime) : Bool :=
  runtime.name == current.name && runtime.version == current.version &&
    runtime.primitives.all current.primitives.contains

/-- The form in which a module offers its bundle. -/
inductive Target where
  /-- Each entry of a group under its own name. -/
  | named
  /-- The bundle as a whole. -/
  | default
  /-- The bundle at a path of names with dots between them. -/
  | path (path : String)
  /-- All forms that there are; the last one only if there is a path. -/
  | universal (path : Option String)
deriving DecidableEq

/-- The categories that a plural rule declared when a module was made. -/
structure Import where
  cardinal : List String
  ordinal : List String
deriving DecidableEq

/-- A bundle of messages as they are stored. -/
abbrev Entry := Bundle StoredMessage

/-- A bundle in one or more forms. -/
structure Body where
  default : Option Entry := none
  exports : Option (Entries Entry) := none
  assign : Option Entry := none

end Module

open MessageCatalog.Module in
/-- A stored bundle of messages with the rules and the formatters that it imports, and with the
hash of its body. The hash is text, as nothing but loading the module has to make sense of it. -/
structure Module where
  runtime : Runtime
  target : Target
  locales : Entries Import
  formatters : List Reference
  digest : String
  body : Body

end MessageCatalog
