/-
Compiled messages.

A node tree is the same whether it is live or stored: a live node holds formatters, plural rules
and plural keys, a stored one the names of these. So the nodes are defined over what they hold.
Main definitions:

* `Node`, `Branch`: the pieces of a message and the cases of a choice;
* `Message`: the nodes of a message with its locale;
* `Node.map`: changes what the nodes of a tree hold;
* `Node.rules`, `Node.formatters`: what the nodes of a tree hold, in the order in which they are
  written.
-/
import MessageCatalog.Bundle
import MessageCatalog.Formatting.Formatter
import MessageCatalog.Plural.Key
import MessageCatalog.Plural.Rule

namespace MessageCatalog

open Formatting (Formatter Reference Style)
open Plural (Key Kind Rule)

/-- A case of a choice: its key and the nodes of its message. -/
structure Branch (κ ν : Type) where
  key : κ
  body : List ν

/-- A piece of a compiled message, which holds formatters `φ`, plural rules `ρ` and plural
keys `κ`. -/
inductive Node (φ ρ κ : Type) where
  /-- Text that is shown as it is. -/
  | text (value : String)
  /-- The value of an argument. -/
  | argument (name : String)
  /-- The number of an argument, less an offset. -/
  | numberSign (arg : String) (offset : Float) (strict : Bool)
  /-- What a formatter makes of an argument. -/
  | call (arg : String) (formatter : φ) (locale : String) (style : Option Style)
  /-- The branch for the number of an argument, less an offset. -/
  | plural (arg : String) (kind : Kind) (offset : Float) (rule : ρ)
      (cases : List (Branch κ (Node φ ρ κ)))
  /-- The branch for the text of an argument. -/
  | select (arg : String) (cases : List (Branch String (Node φ ρ κ)))
  /-- A node whose text keeps its own direction. -/
  | isolate (inner : Node φ ρ κ)

/-- A node that can be rendered. -/
abbrev LiveNode := Node Formatter Rule Key

/-- A node as it is stored: formatters by reference, rules by name, keys as text. -/
abbrev StoredNode := Node Reference String String

/-- The nodes of a message, and the locale that it was compiled for. -/
structure Message (ν : Type) where
  locale : String
  nodes : List ν

/-- A message that can be rendered. -/
abbrev LiveMessage := Message LiveNode

/-- A message as it is stored. -/
abbrev StoredMessage := Message StoredNode

namespace Node

variable {φ ρ κ φ' ρ' κ' : Type}

/-! ### Changing what nodes hold -/

mutual

/-- The same node with other formatters, rules and keys. -/
def map (f : φ → φ') (g : ρ → ρ') (h : κ → κ') : Node φ ρ κ → Node φ' ρ' κ'
  | .text value => .text value
  | .argument name => .argument name
  | .numberSign arg offset strict => .numberSign arg offset strict
  | .call arg formatter locale style => .call arg (f formatter) locale style
  | .plural arg kind offset rule cases => .plural arg kind offset (g rule) (mapPlural f g h cases)
  | .select arg cases => .select arg (mapSelect f g h cases)
  | .isolate inner => .isolate (inner.map f g h)

/-- The same nodes with other formatters, rules and keys. -/
def mapAll (f : φ → φ') (g : ρ → ρ') (h : κ → κ') : List (Node φ ρ κ) → List (Node φ' ρ' κ')
  | [] => []
  | node :: rest => node.map f g h :: mapAll f g h rest

/-- The same plural branches with other formatters, rules and keys. -/
def mapPlural (f : φ → φ') (g : ρ → ρ') (h : κ → κ') :
    List (Branch κ (Node φ ρ κ)) → List (Branch κ' (Node φ' ρ' κ'))
  | [] => []
  | ⟨key, body⟩ :: rest => ⟨h key, mapAll f g h body⟩ :: mapPlural f g h rest

/-- The same select branches with other formatters, rules and keys. -/
def mapSelect (f : φ → φ') (g : ρ → ρ') (h : κ → κ') :
    List (Branch String (Node φ ρ κ)) → List (Branch String (Node φ' ρ' κ'))
  | [] => []
  | ⟨key, body⟩ :: rest => ⟨key, mapAll f g h body⟩ :: mapSelect f g h rest

end

/-! ### What nodes hold -/

mutual

/-- The plural rules of a node, its own before those of its branches. -/
def rules : Node φ ρ κ → List ρ
  | .plural _ _ _ rule cases => rule :: rulesOfPlural cases
  | .select _ cases => rulesOfSelect cases
  | .isolate inner => inner.rules
  | _ => []

/-- The plural rules of nodes. -/
def rulesOfAll : List (Node φ ρ κ) → List ρ
  | [] => []
  | node :: rest => node.rules ++ rulesOfAll rest

/-- The plural rules of plural branches. -/
def rulesOfPlural : List (Branch κ (Node φ ρ κ)) → List ρ
  | [] => []
  | ⟨_, body⟩ :: rest => rulesOfAll body ++ rulesOfPlural rest

/-- The plural rules of select branches. -/
def rulesOfSelect : List (Branch String (Node φ ρ κ)) → List ρ
  | [] => []
  | ⟨_, body⟩ :: rest => rulesOfAll body ++ rulesOfSelect rest

end

mutual

/-- The formatters of a node. -/
def formatters : Node φ ρ κ → List φ
  | .call _ formatter _ _ => [formatter]
  | .plural _ _ _ _ cases => formattersOfPlural cases
  | .select _ cases => formattersOfSelect cases
  | .isolate inner => inner.formatters
  | _ => []

/-- The formatters of nodes. -/
def formattersOfAll : List (Node φ ρ κ) → List φ
  | [] => []
  | node :: rest => node.formatters ++ formattersOfAll rest

/-- The formatters of plural branches. -/
def formattersOfPlural : List (Branch κ (Node φ ρ κ)) → List φ
  | [] => []
  | ⟨_, body⟩ :: rest => formattersOfAll body ++ formattersOfPlural rest

/-- The formatters of select branches. -/
def formattersOfSelect : List (Branch String (Node φ ρ κ)) → List φ
  | [] => []
  | ⟨_, body⟩ :: rest => formattersOfAll body ++ formattersOfSelect rest

end

end Node

namespace Message

variable {φ ρ κ φ' ρ' κ' : Type}

/-- The same message with other formatters, rules and keys in its nodes. -/
def mapNodes (f : φ → φ') (g : ρ → ρ') (h : κ → κ') (m : Message (Node φ ρ κ)) :
    Message (Node φ' ρ' κ') :=
  ⟨m.locale, Node.mapAll f g h m.nodes⟩

end Message

end MessageCatalog
