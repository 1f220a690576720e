/-
From patterns to messages.

* `Context`: what a pattern is compiled with;
* `checkKeys`: the labels of a plural have to be among the categories that its rule declares;
* `Compile.element`: the node of an element; a number sign is bound to the nearest plural around
  it when it is compiled.
-/
import MessageCatalog.Formatting.Registry
import MessageCatalog.Message.Node
import MessageCatalog.Pattern.Element
import MessageCatalog.Text.Quoted

namespace MessageCatalog

open Formatting (Formatter Registry Style)
open Pattern (Case Element)
open Plural (Category Key Kind Rule)

/-- What is wrong with a statement that can be read. -/
inductive StatementError where
  /-- A label that the rule does not declare. -/
  | invalidKey (key arg locale : String) (valid : List String)
  /-- A call of a formatter that nobody registered. -/
  | unknownFormatter (name arg : String)
deriving DecidableEq

/-- The wording of an error. -/
def StatementError.message : StatementError → String
  | .invalidKey key arg locale valid =>
    "invalid plural key " ++ Text.quote key ++ " for " ++ arg ++ " in locale " ++ locale ++
      "; valid keys are " ++ Text.quoteList valid
  | .unknownFormatter name arg => "unknown formatter " ++ name ++ " for argument " ++ arg

/-- What a pattern is compiled with. -/
structure Context where
  locale : String
  rule : Rule
  registry : Registry
  /-- Whether number signs insist on numbers. -/
  strict : Bool
  /-- Whether every result but literal text keeps its own direction. -/
  isolate : Bool

/-- The plural that number signs stand for. -/
structure Scope where
  arg : String
  offset : Float

/-! ### Keys -/

/-- Whether a label may be used with declared categories; the one for all others always may. -/
def isDeclaredLabel (declared : List Category) (label : String) : Bool :=
  match Category.ofLabel? label with
  | some category => category == .other || declared.contains category
  | none => false

/-- The first label of keys that is not among declared categories. -/
def badLabel? (declared : List Category) : List Key → Option String
  | [] => none
  | .exact _ :: rest => badLabel? declared rest
  | .label label :: rest =>
    if isDeclaredLabel declared label then badLabel? declared rest else some label

/-- Checks the keys of a plural against its rule. A rule that declares no categories for the kind
of the plural allows all of them. -/
def checkKeys (rule : Rule) (arg : String) (kind : Kind) (keys : List Key) :
    Except StatementError Unit :=
  let declared := rule.declared kind
  if declared.isEmpty then .ok ()
  else
    match badLabel? declared keys with
    | none => .ok ()
    | some label => .error (.invalidKey label arg rule.locale (rule.labels kind))

/-! ### Nodes -/

namespace Compile

variable {σ : Type}

/-- A node that is not literal text, isolated if the context wants that. -/
def wrap (context : Context) (node : LiveNode) : LiveNode :=
  if context.isolate then .isolate node else node

/-- The node of a call. -/
def call (context : Context) (arg name : String) (style : Option Style) :
    Except StatementError LiveNode :=
  match context.registry.resolve? name with
  | some formatter => .ok (wrap context (.call arg formatter context.locale style))
  | none => .error (.unknownFormatter name arg)

/-- The node of a number sign; without a plural around it, it is literal. -/
def numberSign (context : Context) : Option Scope → LiveNode
  | some scope => wrap context (.numberSign scope.arg scope.offset context.strict)
  | none => .text "#"

mutual

/-- The node of an element. The keys of a plural are checked before its cases. -/
def element (context : Context) (scope : Option Scope) :
    Element σ → Except StatementError LiveNode
  | .literal value _ => .ok (.text value)
  | .argument name _ => .ok (wrap context (.argument name))
  | .call arg name style _ => call context arg name style
  | .plural arg kind offset cases _ => do
    checkKeys context.rule arg kind (cases.map (·.key))
    let offset := Number.ofNat offset
    let branches ← pluralCases context (some ⟨arg, offset⟩) cases
    return wrap context (.plural arg kind offset context.rule branches)
  | .select arg cases _ => do
    let branches ← selectCases context scope cases
    return wrap context (.select arg branches)
  | .numberSign _ => .ok (numberSign context scope)

/-- The nodes of elements. -/
def elements (context : Context) (scope : Option Scope) :
    List (Element σ) → Except StatementError (List LiveNode)
  | [] => .ok []
  | e :: rest => do
    let node ← element context scope e
    let others ← elements context scope rest
    return node :: others

/-- The branches of plural cases. -/
def pluralCases (context : Context) (scope : Option Scope) :
    List (Case Key σ (Element σ)) → Except StatementError (List (Branch Key LiveNode))
  | [] => .ok []
  | ⟨key, body, _⟩ :: rest => do
    let nodes ← elements context scope body
    let others ← pluralCases context scope rest
    return ⟨key, nodes⟩ :: others

/-- The branches of select cases. -/
def selectCases (context : Context) (scope : Option Scope) :
    List (Case String σ (Element σ)) → Except StatementError (List (Branch String LiveNode))
  | [] => .ok []
  | ⟨key, body, _⟩ :: rest => do
    let nodes ← elements context scope body
    let others ← selectCases context scope rest
    return ⟨key, nodes⟩ :: others

end

/-- The message of a pattern. -/
def message (context : Context) (pattern : List (Element σ)) :
    Except StatementError LiveMessage := do
  let nodes ← elements context none pattern
  return ⟨context.locale, nodes⟩

end Compile

end MessageCatalog
