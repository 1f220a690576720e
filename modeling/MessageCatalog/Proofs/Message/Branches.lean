/-
The branches that a rendering goes through.

* `pickPlural`, `pickSelect`: the branch that a choice goes into, which depends on its keys only;
* `render_plural`, `render_select`: a choice says what the nodes of this branch say;
* `Node.leaves`: the nodes without branches that a rendering reaches, one after the other.
-/
import MessageCatalog.Proofs.Message.Answers
import MessageCatalog.Proofs.Message.Meaning

namespace MessageCatalog

open Formatting (Style)
open Plural (Key Kind Rule)

/-! ### The branch of a choice -/

section Picking

variable {ν ν' α : Type} (args : Arguments) (arg : String)

/-- The same branch with its nodes changed. -/
def Branch.mapBody {κ : Type} (f : ν → ν') (c : Branch κ ν) : Branch κ ν' :=
  ⟨c.key, c.body.map f⟩

/-- The branch of a plural that the value of its argument picks. -/
def pickPlural (kind : Kind) (offset : Float) (rule : Rule) (cases : List (Branch Key ν)) :
    Option (Branch Key ν) :=
  choosePlural (args.value arg) kind offset rule (cases.map fun c => (c.key, c))

/-- The branch of a select that the value of its argument picks. -/
def pickSelect (cases : List (Branch String ν)) : Option (Branch String ν) :=
  chooseSelect (args.value arg) (cases.map fun c => (c.key, c))

/-- Whatever branches are turned into, the same one is picked. -/
lemma choosePlural_branches (kind : Kind) (offset : Float) (rule : Rule)
    (cases : List (Branch Key ν)) (g : Branch Key ν → α) :
    choosePlural (args.value arg) kind offset rule (cases.map fun c => (c.key, g c)) =
      (pickPlural args arg kind offset rule cases).map g := by
  rw [pickPlural, ← choosePlural_map, List.map_map]
  rfl

lemma chooseSelect_branches (cases : List (Branch String ν)) (g : Branch String ν → α) :
    chooseSelect (args.value arg) (cases.map fun c => (c.key, g c)) =
      (pickSelect args arg cases).map g := by
  rw [pickSelect, ← chooseSelect_map, List.map_map]
  rfl

lemma pickPlural_mapBody (kind : Kind) (offset : Float) (rule : Rule) (cases : List (Branch Key ν))
    (f : ν → ν') :
    pickPlural args arg kind offset rule (cases.map (Branch.mapBody f)) =
      (pickPlural args arg kind offset rule cases).map (Branch.mapBody f) := by
  rw [← choosePlural_branches, pickPlural, List.map_map]
  rfl

lemma pickSelect_mapBody (cases : List (Branch String ν)) (f : ν → ν') :
    pickSelect args arg (cases.map (Branch.mapBody f)) =
      (pickSelect args arg cases).map (Branch.mapBody f) := by
  rw [← chooseSelect_branches, pickSelect, List.map_map]
  rfl

variable {args arg}

lemma mem_of_pickPlural {kind : Kind} {offset : Float} {rule : Rule} {cases : List (Branch Key ν)}
    {c : Branch Key ν} (h : pickPlural args arg kind offset rule cases = some c) : c ∈ cases := by
  obtain ⟨_, hmem, rfl⟩ := mem_of_choosePlural h
  obtain ⟨c, hc, rfl⟩ := List.mem_map.mp hmem
  exact hc

lemma mem_of_pickSelect {cases : List (Branch String ν)} {c : Branch String ν}
    (h : pickSelect args arg cases = some c) : c ∈ cases := by
  obtain ⟨_, hmem, rfl⟩ := mem_of_chooseSelect h
  obtain ⟨c, hc, rfl⟩ := List.mem_map.mp hmem
  exact hc

end Picking

namespace Node

variable (args : Arguments)

/-- The text of the branch that was picked; no branch has no text. -/
def renderBranch {κ : Type} : Option (Branch κ LiveNode) → Rendering
  | some c => renderAll c.body args
  | none => .ok ""

/-- **A plural says what its branch says.** -/
theorem render_plural (arg : String) (kind : Kind) (offset : Float) (rule : Rule)
    (cases : List (Branch Key LiveNode)) :
    (plural arg kind offset rule cases : LiveNode).render args =
      renderBranch args (pickPlural args arg kind offset rule cases) := by
  rw [render, renderPlural_eq_map, choosePlural_branches]
  cases pickPlural args arg kind offset rule cases <;> rfl

/-- **A select says what its branch says.** -/
theorem render_select (arg : String) (cases : List (Branch String LiveNode)) :
    (select arg cases : LiveNode).render args = renderBranch args (pickSelect args arg cases) := by
  rw [render, renderSelect_eq_map, chooseSelect_branches]
  cases pickSelect args arg cases <;> rfl

/-! ### The nodes that a rendering reaches -/

mutual

/-- The nodes without branches that a rendering reaches, in the order in which it reaches them. -/
def leaves : LiveNode → List LiveNode
  | .plural arg kind offset rule cases =>
    (choosePlural (args.value arg) kind offset rule (leavesOfPlural cases)).getD []
  | .select arg cases => (chooseSelect (args.value arg) (leavesOfSelect cases)).getD []
  | .isolate inner => leaves inner
  | leaf => [leaf]

/-- The nodes without branches that the rendering of nodes reaches. -/
def leavesOfAll : List LiveNode → List LiveNode
  | [] => []
  | node :: rest => leaves node ++ leavesOfAll rest

/-- The keys of plural branches, each with the nodes that the rendering of its branch reaches. -/
def leavesOfPlural : List (Branch Key LiveNode) → List (Key × List LiveNode)
  | [] => []
  | ⟨key, body⟩ :: rest => (key, leavesOfAll body) :: leavesOfPlural rest

/-- The keys of select branches, each with the nodes that the rendering of its branch reaches. -/
def leavesOfSelect : List (Branch String LiveNode) → List (String × List LiveNode)
  | [] => []
  | ⟨key, body⟩ :: rest => (key, leavesOfAll body) :: leavesOfSelect rest

end

/-- The nodes that are reached in the branch that was picked. -/
def leavesOfBranch {κ : Type} : Option (Branch κ LiveNode) → List LiveNode
  | some c => leavesOfAll args c.body
  | none => []

lemma leavesOfPlural_eq_map (cases : List (Branch Key LiveNode)) :
    leavesOfPlural args cases = cases.map fun c => (c.key, leavesOfAll args c.body) := by
  induction cases with
  | nil => rfl
  | cons c rest ih => rw [leavesOfPlural, ih, List.map_cons]

lemma leavesOfSelect_eq_map (cases : List (Branch String LiveNode)) :
    leavesOfSelect args cases = cases.map fun c => (c.key, leavesOfAll args c.body) := by
  induction cases with
  | nil => rfl
  | cons c rest ih => rw [leavesOfSelect, ih, List.map_cons]

/-- A plural is left for its branch. -/
lemma leaves_plural (arg : String) (kind : Kind) (offset : Float) (rule : Rule)
    (cases : List (Branch Key LiveNode)) :
    leaves args (plural arg kind offset rule cases) =
      leavesOfBranch args (pickPlural args arg kind offset rule cases) := by
  rw [leaves, leavesOfPlural_eq_map, choosePlural_branches]
  cases pickPlural args arg kind offset rule cases <;> rfl

/-- A select is left for its branch. -/
lemma leaves_select (arg : String) (cases : List (Branch String LiveNode)) :
    leaves args (select arg cases) = leavesOfBranch args (pickSelect args arg cases) := by
  rw [leaves, leavesOfSelect_eq_map, chooseSelect_branches]
  cases pickSelect args arg cases <;> rfl

end Node

end MessageCatalog
