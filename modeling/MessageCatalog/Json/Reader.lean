/-
Reading JSON.

The reader goes through the tokens once and keeps a stack of the arrays and objects that are
open.

* `State.step`: what one token does;
* `Form.parse?`: the form of a text;
* `read?`: the value of a text whose nesting stays within a bound;
* `parse?`: the same with the usual bound of 127.
-/
import MessageCatalog.Json.Form
import MessageCatalog.Json.Token

namespace MessageCatalog.Json

/-- An array or an object that is open, with its items or members so far, the last one first.
An open object waits for the value of a key. -/
inductive Container where
  | array (items : List Form)
  | object (members : List (Option String × Form)) (key : Option String)

/-- What the reader waits for. -/
inductive State where
  /-- A value; directly after a left bracket also the right one. -/
  | value (stack : List Container) (first : Bool)
  /-- The key of a member; directly after a left brace also the right one. -/
  | key (members : List (Option String × Form)) (stack : List Container) (first : Bool)
  /-- The colon after a key. -/
  | colon (members : List (Option String × Form)) (key : Option String) (stack : List Container)
  /-- A comma or the end of a container, after a value. -/
  | complete (form : Form) (stack : List Container)

/-- Reads one token. -/
def State.step : State → Token → Option State
  | .value stack _, .scalar j => some (.complete (.leaf j) stack)
  | .value stack _, .text s => some (.complete (.leaf (s.map .string)) stack)
  | .value stack _, .leftBracket => some (.value (.array [] :: stack) true)
  | .value stack _, .leftBrace => some (.key [] stack true)
  | .value (.array [] :: stack) true, .rightBracket => some (.complete (.array []) stack)
  | .key members stack _, .text s => some (.colon members s stack)
  | .key [] stack true, .rightBrace => some (.complete (.object []) stack)
  | .colon members name stack, .colon => some (.value (.object members name :: stack) false)
  | .complete form (.array items :: stack), .comma =>
    some (.value (.array (form :: items) :: stack) false)
  | .complete form (.array items :: stack), .rightBracket =>
    some (.complete (.array (form :: items).reverse) stack)
  | .complete form (.object members name :: stack), .comma =>
    some (.key ((name, form) :: members) stack false)
  | .complete form (.object members name :: stack), .rightBrace =>
    some (.complete (.object ((name, form) :: members).reverse) stack)
  | _, _ => none

/-- Reads tokens one after the other. -/
def State.run : State → List Token → Option State
  | state, [] => some state
  | state, token :: rest =>
    match state.step token with
    | some next => next.run rest
    | none => none

/-- The form of a text. -/
def Form.parse? (text : String) : Option Form :=
  match lex text.toList with
  | none => none
  | some tokens =>
    match State.run (.value [] false) tokens with
    | some (.complete form []) => some form
    | _ => none

/-- The value of a text with at most `limit` nested arrays and objects. -/
def read? (limit : Nat) (text : String) : Option Json :=
  (Form.parse? text).bind (Form.value? limit)

/-- The most arrays and objects that a text nests. -/
def nestingLimit : Nat := 127

/-- The value of a text. -/
def parse? (text : String) : Option Json :=
  read? nestingLimit text

end MessageCatalog.Json
