/-
The elements of a pattern.

An element carries a mark for its place in the text. The reader marks elements with spans; with no
marks at all, two elements are equal if they say the same. Main definitions:

* `Element`: a piece of a message;
* `Element.strip`: the same element without marks.
-/
import MessageCatalog.Formatting.Formatter
import MessageCatalog.Plural.Category
import MessageCatalog.Plural.Key

namespace MessageCatalog.Pattern

open Formatting (Style)
open Plural (Key Kind)

/-- A case of a statement: its key, the elements of its message, and a mark. -/
structure Case (κ σ ν : Type) where
  key : κ
  body : List ν
  mark : σ

/-- A piece of a message. -/
inductive Element (σ : Type) where
  /-- Text that is shown as it is. -/
  | literal (value : String) (mark : σ)
  /-- The value of an argument. -/
  | argument (name : String) (mark : σ)
  /-- What a formatter makes of an argument. -/
  | call (arg : String) (name : String) (style : Option Style) (mark : σ)
  /-- The message for the number that an argument counts as, less an offset. -/
  | plural (arg : String) (kind : Kind) (offset : Nat)
      (cases : List (Case Key σ (Element σ))) (mark : σ)
  /-- The message for the text of an argument. -/
  | select (arg : String) (cases : List (Case String σ (Element σ))) (mark : σ)
  /-- The number of the nearest plural around it. -/
  | numberSign (mark : σ)

namespace Element

variable {σ : Type}

mutual

/-- The same element without marks. -/
def strip : Element σ → Element Unit
  | .literal value _ => .literal value ()
  | .argument name _ => .argument name ()
  | .call arg name style _ => .call arg name style ()
  | .plural arg kind offset cases _ => .plural arg kind offset (stripPluralCases cases) ()
  | .select arg cases _ => .select arg (stripSelectCases cases) ()
  | .numberSign _ => .numberSign ()

/-- The same elements without marks. -/
def stripAll : List (Element σ) → List (Element Unit)
  | [] => []
  | element :: rest => element.strip :: stripAll rest

/-- The same plural cases without marks. -/
def stripPluralCases : List (Case Key σ (Element σ)) → List (Case Key Unit (Element Unit))
  | [] => []
  | ⟨key, body, _⟩ :: rest => ⟨key, stripAll body, ()⟩ :: stripPluralCases rest

/-- The same select cases without marks. -/
def stripSelectCases : List (Case String σ (Element σ)) → List (Case String Unit (Element Unit))
  | [] => []
  | ⟨key, body, _⟩ :: rest => ⟨key, stripAll body, ()⟩ :: stripSelectCases rest

end

end Element

end MessageCatalog.Pattern
