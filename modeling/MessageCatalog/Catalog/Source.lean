/-
Sources: patterns under keys, as they stand in a JSON file.

* `Source`: one pattern, or a group of sources under keys;
* `Source.ofJson?`: strings are patterns and objects are groups;
* `Source.parse`, `Source.ofFile`: the source in a text, and in a file that may be missing.
-/
import MessageCatalog.Bundle
import MessageCatalog.Json.Reader

namespace MessageCatalog

/-- One pattern, or a group of sources under keys. -/
abbrev Source := Bundle String

namespace Source

/-- Why there is no source. -/
inductive Error where
  /-- There is no file. -/
  | unreadable
  /-- The text is not JSON, or has values that are neither strings nor objects. -/
  | json
deriving DecidableEq

/-- The wording of an error. -/
def Error.message : Error → String
  | .unreadable => "cannot read messages"
  | .json => "malformed messages"

mutual

/-- The source that a JSON value stands for. Of two members with one key the later one counts. -/
def ofJson? : Json → Option Source
  | .string pattern => some (.one pattern)
  | .object members => (ofMembers? members).map fun entries => .group (Entries.ofList entries)
  | _ => none

/-- The sources that the members of an object stand for. -/
def ofMembers? : List (String × Json) → Option (List (String × Source))
  | [] => some []
  | (key, value) :: rest => do
    let source ← ofJson? value
    let others ← ofMembers? rest
    return (key, source) :: others

end

/-- The source in a text. -/
def parse (text : String) : Except Error Source :=
  match (Json.parse? text).bind ofJson? with
  | some source => .ok source
  | none => .error .json

/-- The source in a file, given its contents if there are any. -/
def ofFile (contents : Option String) : Except Error Source :=
  match contents with
  | some text => parse text
  | none => .error .unreadable

end Source

end MessageCatalog
