/-
A bundle is one item, or a group of bundles under keys: the shape of a tree of message patterns,
and of the tree of messages that is made from it.

* `Bundle.traverse`: visits the items in the order of the keys, with a context that every key on
  the way to an item may change, and stops at the first failure;
* `Bundle.map`: applies a function to every item;
* `Bundle.insert`, `Bundle.lookup?`: a bundle under a key, and the bundle at a path of keys;
* `Bundle.items`: the items in the order in which they are visited.
-/
import MessageCatalog.Entries

namespace MessageCatalog

/-- One item, or a group of bundles under keys. -/
inductive Bundle (α : Type) where
  | one (item : α)
  | group (entries : List (String × Bundle α))

namespace Bundle

variable {α β γ ε : Type}

/-! ### Visiting every item -/

mutual

/-- Applies a function to every item. -/
def map (f : α → β) : Bundle α → Bundle β
  | .one item => .one (f item)
  | .group entries => .group (mapEntries f entries)

/-- Applies a function to every item of a list of entries. -/
def mapEntries (f : α → β) : List (String × Bundle α) → List (String × Bundle β)
  | [] => []
  | (key, b) :: rest => (key, b.map f) :: mapEntries f rest

end

mutual

/-- Visits every item with its context. The context of an entry is made from that of its group and
from its key. -/
def traverse (enter : γ → String → γ) (visit : γ → α → Except ε β) (context : γ) :
    Bundle α → Except ε (Bundle β)
  | .one item => (visit context item).map .one
  | .group entries => (traverseEntries enter visit context entries).map .group

/-- Visits the items of a list of entries, from the first entry to the last. -/
def traverseEntries (enter : γ → String → γ) (visit : γ → α → Except ε β) (context : γ) :
    List (String × Bundle α) → Except ε (List (String × Bundle β))
  | [] => .ok []
  | (key, b) :: rest => do
    let first ← b.traverse enter visit (enter context key)
    let others ← traverseEntries enter visit context rest
    return (key, first) :: others

end

mutual

/-- The items in the order in which they are visited. -/
def items : Bundle α → List α
  | .one item => [item]
  | .group entries => itemsOfEntries entries

/-- The items of a list of entries. -/
def itemsOfEntries : List (String × Bundle α) → List α
  | [] => []
  | (_, b) :: rest => b.items ++ itemsOfEntries rest

end

/-! ### Paths -/

/-- The entries of a group; one item alone has none. -/
def entries : Bundle α → Entries (Bundle α)
  | .one _ => []
  | .group es => es

/-- Puts a bundle under a key of a group, in place of the one that was there. -/
def insert (b : Bundle α) (key : String) (inner : Bundle α) : Bundle α :=
  match b with
  | .one item => .one item
  | .group es => .group (Entries.insert key inner es)

/-- The bundle at a path of keys, starting at this bundle itself. -/
def at? (b : Bundle α) : List String → Option (Bundle α)
  | [] => some b
  | key :: rest =>
    match b with
    | .one _ => none
    | .group es =>
      match Entries.get? es key with
      | some inner => inner.at? rest
      | none => none

/-- The bundle at a path of keys into a group; no entry has the empty path. -/
def lookup? (b : Bundle α) (path : List String) : Option (Bundle α) :=
  if path.isEmpty then none else b.at? path

/-- Puts a bundle inside groups of one entry each, the first segment outermost. -/
def nest (b : Bundle α) (segments : List String) : Bundle α :=
  segments.foldr (fun segment inner => .group [(segment, inner)]) b

end Bundle

end MessageCatalog
