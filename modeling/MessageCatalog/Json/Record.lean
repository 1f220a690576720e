/-
Reading records from JSON.

A record is an object with named fields, or the array of the values of its fields in their order.

* `fields?`: the values of the named fields of a record;
* `tagged?`: a record without the field that says which kind of record it is;
* `single?`, `label?`: the one member of an object that says by its key what it holds;
* `optional?`, `text?`, `list?`, `entries?`, …: the values that fields have.
-/
import MessageCatalog.Entries
import MessageCatalog.Json.Value
import MessageCatalog.Number.Exact

namespace MessageCatalog.Json

variable {α : Type}

/-! ### Records -/

/-- The value of a field, which an object may have once at most. -/
def field? (members : List (String × Json)) (name : String) : Option (Option Json) :=
  match members.filter fun member => member.1 == name with
  | [] => some none
  | [(_, value)] => some (some value)
  | _ => none

/-- The values of the named fields of a record. An object may have other fields as well, an array
has no more items than there are names. -/
def fields? (names : List String) : Json → Option (List (Option Json))
  | .object members => names.mapM (field? members)
  | .array items =>
    if items.length ≤ names.length then
      some (items.map some ++ List.replicate (names.length - items.length) none)
    else none
  | _ => none

/-- The kind of a record, read by a given reader, and the record without it. In an object the kind
is a field with a name of its own, in an array it is the first item. -/
def tagged? (name : String) (kind : Json → Option String) : Json → Option (String × Json)
  | .object members =>
    match field? members name with
    | some (some tag) =>
      (kind tag).map fun kind => (kind, .object (members.filter fun member => member.1 != name))
    | _ => none
  | .array (tag :: items) => (kind tag).map fun kind => (kind, .array items)
  | _ => none

/-- The key and the value of an object that has one member. -/
def single? : Json → Option (String × Json)
  | .object [member] => some member
  | _ => none

/-- A label, which may also be the key of an empty value. -/
def label? : Json → Option String
  | .string label => some label
  | .object [(label, .null)] => some label
  | .object [(label, .object [])] => some label
  | _ => none

/-! ### Fields -/

/-- A field that may be left out or be null. -/
def optional? (read : Json → Option α) : Option Json → Option (Option α)
  | none => some none
  | some .null => some none
  | some j => (read j).map some

/-- A text. -/
def text? : Json → Option String
  | .string text => some text
  | _ => none

/-- A truth value. -/
def flag? : Json → Option Bool
  | .bool value => some value
  | _ => none

/-- A number, as the float that is nearest to it. -/
def number? : Json → Option Float
  | .integer n => some (Number.ofInt n)
  | .real x => some x
  | _ => none

/-- A natural number below a bound. -/
def natural? (bound : Nat) : Json → Option Nat
  | .integer (.ofNat n) => if n < bound then some n else none
  | _ => none

/-- A list. -/
def list? (read : Json → Option α) : Json → Option (List α)
  | .array items => items.mapM read
  | _ => none

/-- Values under keys. Of two values under one key the last one stays, but both have to be
readable. -/
def entries? (read : Json → Option α) : Json → Option (Entries α)
  | .object members =>
    (members.mapM fun member => (read member.2).map fun value => (member.1, value)).map
      Entries.ofList
  | _ => none

end MessageCatalog.Json
