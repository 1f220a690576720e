/-
Formatters: what a function call in a message does with its value.

* `Request`, `Format`: what a formatter is given, and what it gives back;
* `Backend`: the three built-in formatters as a host supplies them;
* `Formatter`: a built-in formatter with its backend, or a custom one with its name;
* `Reference`: how a stored message names a formatter;
* `basicBackend`: a backend that knows no locales.
-/
import MessageCatalog.Value

namespace MessageCatalog.Formatting

/-- The style of a function call: one text, or a list of texts. -/
inductive Style where
  | single (text : String)
  | list (texts : List String)
deriving DecidableEq

/-- The first text of a style. -/
def Style.first? : Style → Option String
  | .single text => some text
  | .list texts => texts.head?

/-- What a formatter is given. -/
structure Request where
  value : Value
  locale : String
  style : Option Style

/-- Turns a value into text. -/
abbrev Format := Request → String

/-! ### Built-in formatters -/

/-- The formatters that have a name of their own. -/
inductive Builtin where
  | number
  | date
  | time
deriving DecidableEq

namespace Builtin

/-- The name of a built-in formatter. -/
def name : Builtin → String
  | .number => "number"
  | .date => "date"
  | .time => "time"

/-- The built-in formatter with a name. -/
def ofName? (text : String) : Option Builtin :=
  [Builtin.number, .date, .time].find? fun builtin => builtin.name == text

theorem ofName?_name (builtin : Builtin) : ofName? builtin.name = some builtin := by
  cases builtin <;> decide

end Builtin

/-- A host's numbers, dates and times. -/
structure Backend where
  number : Format
  date : Format
  time : Format

/-- The format of a built-in formatter. -/
def Backend.format (backend : Backend) : Builtin → Format
  | .number => backend.number
  | .date => backend.date
  | .time => backend.time

/-- A number in the style `integer` is rounded, in the style `percent` multiplied by a hundred
first; a value that counts as no number is shown as it is. -/
def basicNumber (request : Request) : String :=
  match request.value.number? with
  | none => request.value.render
  | some x =>
    match request.style.bind Style.first? with
    | some "integer" => Number.numberText (Number.roundAway x)
    | some "percent" => Number.numberText (Number.roundAway (x * 100)) ++ "%"
    | _ => Number.numberText x

/-- A backend that knows no locales; dates and times are shown as they are given. -/
def basicBackend : Backend where
  number := basicNumber
  date request := request.value.render
  time request := request.value.render

/-! ### Formatters -/

/-- A formatter that a call is bound to. -/
inductive Formatter where
  | builtin (id : Builtin) (backend : Backend)
  | custom (name : String) (run : Format)

/-- How a stored message names a formatter. -/
inductive Reference where
  | builtin (name : String)
  | custom (name : String)
deriving DecidableEq

namespace Reference

/-- The name in a reference. -/
def name : Reference → String
  | .builtin name => name
  | .custom name => name

/-- The order of references: the built-in ones first, each kind by name. -/
def before : Reference → Reference → Bool
  | .builtin a, .builtin b => a < b
  | .builtin _, .custom _ => true
  | .custom _, .builtin _ => false
  | .custom a, .custom b => a < b

/-- Puts a reference into a list in increasing order, unless it is there already. -/
def insert (r : Reference) : List Reference → List Reference
  | [] => [r]
  | s :: rest =>
    if r = s then s :: rest
    else if r.before s then r :: s :: rest
    else s :: insert r rest

/-- References in increasing order, each once. -/
def sorted (rs : List Reference) : List Reference :=
  rs.foldr insert []

end Reference

namespace Formatter

/-- The name that calls use. -/
def name : Formatter → String
  | .builtin id _ => id.name
  | .custom name _ => name

/-- Whether a formatter is a built-in one. -/
def isBuiltin : Formatter → Bool
  | .builtin .. => true
  | .custom .. => false

/-- What a formatter makes of a request. -/
def run : Formatter → Format
  | .builtin id backend => backend.format id
  | .custom _ run => run

/-- How a stored message names a formatter. -/
def reference : Formatter → Reference
  | .builtin id _ => .builtin id.name
  | .custom name _ => .custom name

end Formatter

end MessageCatalog.Formatting
