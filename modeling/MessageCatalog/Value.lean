/-
Argument values.

* `Value`: what an argument of a message can be bound to;
* `Value.number?`: the number that a value counts as, for plurals and number signs;
* `Value.render`: the text of a value;
* `Value.ofJson`: the value that a JSON value stands for.
-/
import MessageCatalog.Entries
import MessageCatalog.Json.Value
import MessageCatalog.Number.Layout
import MessageCatalog.Text.Blank

namespace MessageCatalog

/-- What an argument of a message can be bound to. -/
inductive Value where
  | null
  | bool (value : Bool)
  | num (value : Float)
  | text (value : String)
  | list (items : List Value)
  | map (entries : List (String × Value))

namespace Value

/-- The number that a text stands for: blanks at its ends do not count, and a number too large
for a float is none. -/
def numberOfText? (s : String) : Option Float :=
  ((Number.Decimal.ofText? (Text.trimChars s.toList)).map Number.Decimal.toFloat).filter
    Number.isFinite

/-- The number that a value counts as. Only finite numbers and texts of such numbers count. -/
def number? : Value → Option Float
  | .num x => if Number.isFinite x then some x else none
  | .text s => numberOfText? s
  | _ => none

mutual

/-- The text of a value: items of a list are joined by commas, and null and maps show nothing. -/
def render : Value → String
  | .null => ""
  | .bool true => "true"
  | .bool false => "false"
  | .num x => Number.numberText x
  | .text s => s
  | .list items => String.intercalate "," (renderItems items)
  | .map _ => ""

/-- The texts of the items of a list. -/
def renderItems : List Value → List String
  | [] => []
  | item :: rest => item.render :: renderItems rest

end

/-- The float nearest to an integer. -/
def ofInteger (n : Int) : Value :=
  .num (Number.ofInt n)

mutual

/-- The value that a JSON value stands for. Of two members with one key the later one counts. -/
def ofJson : Json → Value
  | .null => .null
  | .bool b => .bool b
  | .integer n => ofInteger n
  | .real x => .num x
  | .string s => .text s
  | .array items => .list (ofJsonItems items)
  | .object members => .map (Entries.ofList (ofJsonMembers members))

/-- The values of the items of an array. -/
def ofJsonItems : List Json → List Value
  | [] => []
  | item :: rest => ofJson item :: ofJsonItems rest

/-- The values of the members of an object. -/
def ofJsonMembers : List (String × Json) → List (String × Value)
  | [] => []
  | (key, value) :: rest => (key, ofJson value) :: ofJsonMembers rest

end

end Value

end MessageCatalog
