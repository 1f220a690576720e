/-
TOML values and the tables that statements build up.

* `Value`: a value, where a table knows how it came about;
* `Table.assign?`: a key with a value, at a dotted path below a table;
* `Table.within?`: a change to the table that a header names;
* `Table.define?`, `Table.append?`: the headers of tables and of the items of arrays of tables.

Every key is defined once only, and a table that is complete takes no more keys.
-/

namespace MessageCatalog.Toml

/-- How a table came about. -/
inductive Origin where
  /-- Written between braces, and complete with them. -/
  | inline
  /-- By a header of its own. -/
  | header
  /-- By the header of a table inside it. -/
  | implicit
  /-- By a dotted key. -/
  | dotted
deriving DecidableEq

/-- A TOML value. -/
inductive Value where
  | text (value : String)
  | flag (value : Bool)
  | integer (value : Int)
  | real (value : Float)
  /-- A date, a time of day, or both. -/
  | moment (written : String)
  | array (items : List Value)
  | table (origin : Origin) (entries : List (String × Value))
  /-- An array of tables that headers made, the last one first. -/
  | tables (items : List (List (String × Value)))

/-- Keys and their values, in the order in which they were written. -/
abbrev Table := List (String × Value)

namespace Table

/-- The value under a key. -/
def get? (table : Table) (key : String) : Option Value :=
  List.lookup key table

/-- Puts a value under a key that is there, or at the end. -/
def set (key : String) (value : Value) : Table → Table
  | [] => [(key, value)]
  | (k, v) :: rest => if k = key then (key, value) :: rest else (k, v) :: set key value rest

/-! ### Dotted keys -/

/-- Puts a value under a new key at a path below a table. The path may lead through tables that no
header or pair of braces has completed, and has to end in one that a dotted key made. -/
def assignBelow? (key : String) (value : Value) : List String → Bool → Table → Option Table
  | [], isOpen, table =>
    if isOpen && (table.get? key).isNone then some (table.set key value) else none
  | name :: path, _, table =>
    match table.get? name with
    | none =>
      (assignBelow? key value path true []).map fun inner =>
        table.set name (.table .dotted inner)
    | some (.table .dotted inner) =>
      (assignBelow? key value path true inner).map fun inner =>
        table.set name (.table .dotted inner)
    | some (.table .implicit inner) =>
      (assignBelow? key value path false inner).map fun inner =>
        table.set name (.table .implicit inner)
    | some (.tables (last :: earlier)) =>
      (assignBelow? key value path false last).map fun last =>
        table.set name (.tables (last :: earlier))
    | _ => none

/-- Puts a value under a dotted key. -/
def assign? (table : Table) (path : List String) (key : String) (value : Value) : Option Table :=
  assignBelow? key value path true table

/-! ### Headers -/

/-- Changes the table that the path of a header names. Tables on the way are made if they are not
there; of an array of tables the last one counts. -/
def within? (change : Table → Option Table) : List String → Table → Option Table
  | [], table => change table
  | name :: path, table =>
    match table.get? name with
    | none => (within? change path []).map fun inner => table.set name (.table .implicit inner)
    | some (.table .inline _) => none
    | some (.table origin inner) =>
      (within? change path inner).map fun inner => table.set name (.table origin inner)
    | some (.tables (last :: earlier)) =>
      (within? change path last).map fun last => table.set name (.tables (last :: earlier))
    | _ => none

/-- What the header of a table does in the table around it. Only a table that no other statement
has made may be there already. -/
def define? (key : String) (table : Table) : Option Table :=
  match table.get? key with
  | none => some (table.set key (.table .header []))
  | some (.table .implicit inner) => some (table.set key (.table .header inner))
  | _ => none

/-- What the header of an item of an array of tables does in the table around it. -/
def append? (key : String) (table : Table) : Option Table :=
  match table.get? key with
  | none => some (table.set key (.tables [[]]))
  | some (.tables items) => some (table.set key (.tables ([] :: items)))
  | _ => none

end Table

end MessageCatalog.Toml
