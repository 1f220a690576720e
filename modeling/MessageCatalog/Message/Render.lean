/-
Rendering messages.

* `choosePlural`, `chooseSelect`: the case that a value picks; they work on cases of any kind, as
  only the keys matter;
* `Node.render`: the text of a node for given arguments;
* `Message.format`, `format`, `formatAt`: the text of a message, also of one at a path.

The only way for the rendering of a node to fail is a strict number sign whose argument counts as
no number.
-/
import MessageCatalog.Arguments
import MessageCatalog.Message.Node
import MessageCatalog.Text.Quoted

namespace MessageCatalog

open Formatting (Formatter)
open Plural (Key Kind Rule)

/-- Why a message cannot be formatted. -/
inductive FormatError where
  /-- A strict number sign on a value that counts as no number. -/
  | notANumber (arg : String) (shown : String)
  /-- A group of messages where one message is wanted. -/
  | group
  /-- A path that leads to a group. -/
  | pathToGroup
  /-- A path that leads nowhere. -/
  | unknownPath
deriving DecidableEq

/-- The wording of an error. -/
def FormatError.message : FormatError → String
  | .notANumber arg shown =>
    "argument " ++ arg ++ " must be numeric for #, found " ++ Text.quote shown
  | .group => "invalid input: artifact is a message set"
  | .pathToGroup => "invalid input: path names a message set"
  | .unknownPath => "invalid input: unknown message path"

/-! ### Choosing a case -/

/-- The magnitude from which on a number is not looked up as an exact key. -/
def exactKeyLimit : Float := 9.2e18

/-- The exact key of a number. The number is made an integer, which has to be equal to it again. -/
def exactKey? (x : Float) : Option Int :=
  if x.isNaN || exactKeyLimit ≤ x.abs then none
  else
    let key := Number.toInt64 x
    if Number.ofInt key == x then some key else none

/-- The case under a key. -/
def caseOf? {κ α : Type} [BEq κ] (key : κ) (cases : List (κ × α)) : Option α :=
  (cases.find? fun case => case.1 == key).map (·.2)

/-- The case that a number picks: that of the number itself, else that of its category, else the
one for all others. -/
def choosePluralByNumber {α : Type} (x : Float) (kind : Kind) (rule : Rule)
    (cases : List (Key × α)) : Option α :=
  match (exactKey? x).bind fun n => caseOf? (.exact n) cases with
  | some case => some case
  | none =>
    match caseOf? (.label (rule.category x kind).label) cases with
    | some case => some case
    | none => caseOf? (.label "other") cases

/-- The case that a value picks by the number that it counts as, less an offset. A value that
counts as no number picks the case for all others. -/
def choosePlural {α : Type} (value : Value) (kind : Kind) (offset : Float) (rule : Rule)
    (cases : List (Key × α)) : Option α :=
  match value.number? with
  | some x => choosePluralByNumber (x - offset) kind rule cases
  | none => caseOf? (.label "other") cases

/-- The case that a value picks by its text, else the one for all others. Null has no text. -/
def chooseSelect {α : Type} (value : Value) (cases : List (String × α)) : Option α :=
  let chosen :=
    match value with
    | .null => none
    | value => caseOf? value.render cases
  match chosen with
  | some case => some case
  | none => caseOf? "other" cases

/-! ### Nodes -/

/-- Starts a stretch of text with a direction of its own. -/
def isolateStart : Char := '\u2068'

/-- Ends a stretch of text with a direction of its own. -/
def isolateEnd : Char := '\u2069'

/-- A text with marks around it that keep its direction apart. -/
def isolated (text : String) : String :=
  String.singleton isolateStart ++ text ++ String.singleton isolateEnd

/-- What a rendering gives: a text, or an error. -/
abbrev Rendering := Except FormatError String

/-- The text of a number sign: the number of its argument less an offset. A value that counts as
no number is shown as it is, unless the sign is strict. -/
def renderNumberSign (arg : String) (offset : Float) (strict : Bool) (args : Arguments) :
    Rendering :=
  match args.number? arg with
  | some x => .ok (Number.numberText (x - offset))
  | none => if strict then .error (.notANumber arg (args.shown arg)) else .ok (args.shown arg)

/-- The text of the case that was chosen; no case has no text. -/
def renderChosen (chosen : Option (Arguments → Rendering)) (args : Arguments) : Rendering :=
  match chosen with
  | some body => body args
  | none => .ok ""

namespace Node

mutual

/-- The text of a node. -/
def render : LiveNode → Arguments → Rendering
  | .text value, _ => .ok value
  | .argument name, args => .ok (args.shown name)
  | .numberSign arg offset strict, args => renderNumberSign arg offset strict args
  | .call arg formatter locale style, args => .ok (formatter.run ⟨args.value arg, locale, style⟩)
  | .plural arg kind offset rule cases, args =>
    renderChosen (choosePlural (args.value arg) kind offset rule (renderPlural cases)) args
  | .select arg cases, args =>
    renderChosen (chooseSelect (args.value arg) (renderSelect cases)) args
  | .isolate inner, args => (inner.render args).map isolated

/-- The texts of nodes, one after the other. -/
def renderAll : List LiveNode → Arguments → Rendering
  | [], _ => .ok ""
  | node :: rest, args => do
    let first ← node.render args
    let others ← renderAll rest args
    return first ++ others

/-- The keys of plural branches, each with the rendering of its branch. -/
def renderPlural : List (Branch Key LiveNode) → List (Key × (Arguments → Rendering))
  | [] => []
  | ⟨key, body⟩ :: rest => (key, fun args => renderAll body args) :: renderPlural rest

/-- The keys of select branches, each with the rendering of its branch. -/
def renderSelect : List (Branch String LiveNode) → List (String × (Arguments → Rendering))
  | [] => []
  | ⟨key, body⟩ :: rest => (key, fun args => renderAll body args) :: renderSelect rest

end

end Node

/-! ### Messages and bundles of them -/

/-- The text of a message. -/
def Message.format (m : LiveMessage) (args : Arguments) : Rendering :=
  Node.renderAll m.nodes args

/-- The text of a bundle that is one message. -/
def Bundle.format (b : Bundle LiveMessage) (args : Arguments) : Rendering :=
  match b with
  | .one m => m.format args
  | .group _ => .error .group

/-- The text of the message at a path into a bundle. -/
def Bundle.formatAt (b : Bundle LiveMessage) (path : List String) (args : Arguments) : Rendering :=
  match b.lookup? path with
  | some (.one m) => m.format args
  | some (.group _) => .error .pathToGroup
  | none => .error .unknownPath

end MessageCatalog
