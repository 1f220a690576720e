/-
The arguments of a message: values bound to names.

* `Arguments.get?`: the value bound to a name;
* `Arguments.number?`, `Arguments.shown`: the number and the text of an argument, which may be
  missing;
* `Arguments.ofSequence`: values bound to their positions `0`, `1`, and so on;
* `Arguments.ofJson?`, `Arguments.parse?`: from a JSON object or array.
-/
import MessageCatalog.Json.Reader
import MessageCatalog.Value

namespace MessageCatalog

/-- Values bound to names. -/
structure Arguments where
  entries : Entries Value

/-- Why a text gives no arguments. -/
inductive Arguments.Error where
  /-- The text is no JSON. -/
  | json
  /-- The JSON value is neither an object nor an array. -/
  | shape
deriving DecidableEq

namespace Arguments

/-- The wording of an error. -/
def Error.message : Error → String
  | .json => "malformed arguments"
  | .shape => "arguments must be a JSON object or array"

/-- The value bound to a name. -/
def get? (args : Arguments) (name : String) : Option Value :=
  Entries.get? args.entries name

/-- The value bound to a name, or null. -/
def value (args : Arguments) (name : String) : Value :=
  (args.get? name).getD .null

/-- The number that an argument counts as. One that is not bound counts as none. -/
def number? (args : Arguments) (name : String) : Option Float :=
  (args.get? name).bind Value.number?

/-- The text of an argument. One that is not bound shows nothing. -/
def shown (args : Arguments) (name : String) : String :=
  ((args.get? name).map Value.render).getD ""

/-- Null counts as no number, as does a name that is not bound. -/
theorem number?_value (args : Arguments) (name : String) :
    (args.value name).number? = args.number? name := by
  rw [value, number?]
  cases args.get? name <;> rfl

/-- Null shows nothing, as does a name that is not bound. -/
theorem render_value (args : Arguments) (name : String) :
    (args.value name).render = args.shown name := by
  rw [value, shown]
  cases args.get? name with
  | some value => rfl
  | none => simp only [Option.getD_none, Option.map_none, Value.render]

/-- The number of names that are bound. -/
def size (args : Arguments) : Nat :=
  args.entries.length

/-- Binds names to values; the last of two bindings of one name counts. -/
def ofPairs (pairs : List (String × Value)) : Arguments :=
  ⟨Entries.ofList pairs⟩

/-- Binds values to their positions, counted from zero. -/
def ofSequence (values : List Value) : Arguments :=
  ofPairs (values.zipIdx.map fun (value, position) => (toString position, value))

/-- The arguments that a JSON object names or a JSON array lists. -/
def ofJson? : Json → Option Arguments
  | .object members => some (ofPairs (Value.ofJsonMembers members))
  | .array items => some (ofSequence (Value.ofJsonItems items))
  | _ => none

/-- The arguments in a JSON text. -/
def parse? (text : String) : Except Error Arguments :=
  match Json.parse? text with
  | none => .error .json
  | some j =>
    match ofJson? j with
    | none => .error .shape
    | some args => .ok args

end Arguments

end MessageCatalog
