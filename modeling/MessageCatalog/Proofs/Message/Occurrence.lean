/-
Where nodes occur.

Whether a node is ever rendered depends on the arguments; whether it occurs does not. It occurs
wherever it stands, also in a case that no value picks.

* `Node.Occurs`, `Node.all_iff_occurs`: the nodes of a tree;
* `Node.mem_rules_iff`, `Node.mem_formatters_iff`: what a tree holds is what its plurals and its
  calls hold;
* `Node.map_map`, `Node.rules_map`, `Node.formatters_map`: trees whose rules and formatters are
  changed;
* `Bundle.Contains`: the nodes of all messages of a bundle;
* `Bundle.UsesRule`, `Bundle.UsesFormatter`: what the plurals and the calls of a bundle hold.
-/
import MessageCatalog.Proofs.Bundle
import MessageCatalog.Proofs.Message.Compiled

namespace MessageCatalog

open Formatting (Formatter Style)
open Plural (Kind Rule)

/-! ### The nodes of a tree -/

namespace Node

variable {φ ρ κ : Type}

/-- A node occurs in a tree: it is the whole tree, or it occurs in a case of a choice or in what is
isolated. -/
inductive Occurs (node : Node φ ρ κ) : Node φ ρ κ → Prop where
  | here : Occurs node node
  | plural {arg : String} {kind : Kind} {offset : Float} {rule : ρ}
      {cases : List (Branch κ (Node φ ρ κ))} {c : Branch κ (Node φ ρ κ)} {inner : Node φ ρ κ}
      (hc : c ∈ cases) (hinner : inner ∈ c.body) (h : Occurs node inner) :
      Occurs node (.plural arg kind offset rule cases)
  | select {arg : String} {cases : List (Branch String (Node φ ρ κ))}
      {c : Branch String (Node φ ρ κ)} {inner : Node φ ρ κ}
      (hc : c ∈ cases) (hinner : inner ∈ c.body) (h : Occurs node inner) :
      Occurs node (.select arg cases)
  | isolate {inner : Node φ ρ κ} (h : Occurs node inner) : Occurs node (.isolate inner)

/-- The nodes directly inside a node. -/
def inner : Node φ ρ κ → List (Node φ ρ κ)
  | .plural _ _ _ _ cases => cases.flatMap (·.body)
  | .select _ cases => cases.flatMap (·.body)
  | .isolate node => [node]
  | _ => []

/-- Induction over a node, by the nodes directly inside it. -/
theorem innerInd {p : Node φ ρ κ → Prop} (h : ∀ tree, (∀ node ∈ tree.inner, p node) → p tree)
    (tree : Node φ ρ κ) : p tree := by
  induction tree using Node.ind with
  | plural arg kind offset rule cases ih =>
      refine h _ fun node hnode => ?_
      obtain ⟨c, hc, hnode⟩ := List.mem_flatMap.mp hnode
      exact ih c hc node hnode
  | select arg cases ih =>
      refine h _ fun node hnode => ?_
      obtain ⟨c, hc, hnode⟩ := List.mem_flatMap.mp hnode
      exact ih c hc node hnode
  | isolate node ih => exact h _ fun node' hnode => List.mem_singleton.mp hnode ▸ ih
  | _ => exact h _ fun _ hnode => nomatch hnode

lemma Occurs.of_inner {node outer : Node φ ρ κ} {tree : Node φ ρ κ} (htree : tree ∈ outer.inner)
    (h : node.Occurs tree) : node.Occurs outer := by
  cases outer with
  | plural arg kind offset rule cases =>
      obtain ⟨c, hc, htree⟩ := List.mem_flatMap.mp htree
      exact .plural hc htree h
  | select arg cases =>
      obtain ⟨c, hc, htree⟩ := List.mem_flatMap.mp htree
      exact .select hc htree h
  | isolate only => exact .isolate (List.mem_singleton.mp htree ▸ h)
  | _ => cases htree

lemma all_iff_inner {p : Node φ ρ κ → Prop} {tree : Node φ ρ κ} :
    tree.All p ↔ p tree ∧ ∀ node ∈ tree.inner, node.All p := by
  cases tree with
  | plural arg kind offset rule cases =>
      simp only [All, allPlural_iff, allOf_iff, inner, List.forall_mem_flatMap]
  | select arg cases =>
      simp only [All, allSelect_iff, allOf_iff, inner, List.forall_mem_flatMap]
  | isolate node => simp only [All, inner, List.forall_mem_singleton]
  | _ => simp [All, inner]

/-- A statement holds of every node of a tree if it holds of every node that occurs there. -/
theorem all_iff_occurs {p : Node φ ρ κ → Prop} {tree : Node φ ρ κ} :
    tree.All p ↔ ∀ node, node.Occurs tree → p node := by
  constructor
  · intro h node hnode
    induction hnode with
    | here => exact (all_iff_inner.mp h).1
    | plural hc hinner _ ih =>
        exact ih ((all_iff_inner.mp h).2 _ (List.mem_flatMap.mpr ⟨_, hc, hinner⟩))
    | select hc hinner _ ih =>
        exact ih ((all_iff_inner.mp h).2 _ (List.mem_flatMap.mpr ⟨_, hc, hinner⟩))
    | isolate _ ih => exact ih ((all_iff_inner.mp h).2 _ List.mem_cons_self)
  · induction tree using innerInd with
    | h tree ih =>
      intro h
      refine all_iff_inner.mpr ⟨h tree .here, fun inner hinner => ?_⟩
      exact ih inner hinner fun node hnode => h node (hnode.of_inner hinner)

/-! ### What a tree holds -/

section Collect

variable {α : Type} {collect own : Node φ ρ κ → List α} {a : α} {tree : Node φ ρ κ}

/-- **What is collected from a tree is what the nodes that occur in it have of their own**, if each
node adds its own to what is collected from the nodes directly inside it. -/
theorem mem_collect_iff (hcollect : ∀ tree, collect tree = own tree ++ tree.inner.flatMap collect) :
    a ∈ collect tree ↔ ∃ node, node.Occurs tree ∧ a ∈ own node := by
  have hinner : ∀ {outer inner}, inner ∈ outer.inner → a ∈ collect inner → a ∈ collect outer := by
    intro outer inner hinner h
    rw [hcollect]
    exact List.mem_append_right _ (List.mem_flatMap.mpr ⟨inner, hinner, h⟩)
  constructor
  · induction tree using innerInd with
    | h tree ih =>
      intro h
      rw [hcollect] at h
      rcases List.mem_append.mp h with h | h
      · exact ⟨tree, .here, h⟩
      · obtain ⟨inner, hmem, h⟩ := List.mem_flatMap.mp h
        obtain ⟨node, hnode, hown⟩ := ih inner hmem h
        exact ⟨node, hnode.of_inner hmem, hown⟩
  · rintro ⟨node, hnode, hown⟩
    induction hnode with
    | here =>
        rw [hcollect]
        exact List.mem_append_left _ hown
    | plural hc hmem _ ih => exact hinner (List.mem_flatMap.mpr ⟨_, hc, hmem⟩) ih
    | select hc hmem _ ih => exact hinner (List.mem_flatMap.mpr ⟨_, hc, hmem⟩) ih
    | isolate _ ih => exact hinner List.mem_cons_self ih

end Collect

section Rules

lemma rulesOfAll_eq (nodes : List (Node φ ρ κ)) : rulesOfAll nodes = nodes.flatMap rules := by
  induction nodes with
  | nil => rw [rulesOfAll, List.flatMap_nil]
  | cons node rest ih => rw [rulesOfAll, ih, List.flatMap_cons]

lemma rulesOfPlural_eq (cases : List (Branch κ (Node φ ρ κ))) :
    rulesOfPlural cases = (cases.flatMap (·.body)).flatMap rules := by
  induction cases with
  | nil => rw [rulesOfPlural, List.flatMap_nil, List.flatMap_nil]
  | cons c rest ih =>
      rw [rulesOfPlural, ih, List.flatMap_cons, List.flatMap_append, rulesOfAll_eq]

lemma rulesOfSelect_eq (cases : List (Branch String (Node φ ρ κ))) :
    rulesOfSelect cases = (cases.flatMap (·.body)).flatMap rules := by
  induction cases with
  | nil => rw [rulesOfSelect, List.flatMap_nil, List.flatMap_nil]
  | cons c rest ih =>
      rw [rulesOfSelect, ih, List.flatMap_cons, List.flatMap_append, rulesOfAll_eq]

/-- The rule of a plural. -/
def ownRule : Node φ ρ κ → List ρ
  | .plural _ _ _ rule _ => [rule]
  | _ => []

lemma rules_eq (tree : Node φ ρ κ) : tree.rules = tree.ownRule ++ tree.inner.flatMap rules := by
  cases tree <;> simp [rules, ownRule, inner, rulesOfPlural_eq, rulesOfSelect_eq]

/-- **The rules of a tree are those of the plurals that occur in it.** -/
theorem mem_rules_iff {rule : ρ} {tree : Node φ ρ κ} : rule ∈ tree.rules ↔
    ∃ arg kind offset cases, (Node.plural arg kind offset rule cases).Occurs tree := by
  rw [mem_collect_iff rules_eq]
  constructor
  · rintro ⟨node, hnode, hown⟩
    cases node with
    | plural arg kind offset own cases =>
        obtain rfl := List.mem_singleton.mp hown
        exact ⟨arg, kind, offset, cases, hnode⟩
    | _ => cases hown
  · rintro ⟨arg, kind, offset, cases, hnode⟩
    exact ⟨_, hnode, List.mem_singleton_self rule⟩

end Rules

section Formatters

lemma formattersOfAll_eq (nodes : List (Node φ ρ κ)) :
    formattersOfAll nodes = nodes.flatMap formatters := by
  induction nodes with
  | nil => rw [formattersOfAll, List.flatMap_nil]
  | cons node rest ih => rw [formattersOfAll, ih, List.flatMap_cons]

lemma formattersOfPlural_eq (cases : List (Branch κ (Node φ ρ κ))) :
    formattersOfPlural cases = (cases.flatMap (·.body)).flatMap formatters := by
  induction cases with
  | nil => rw [formattersOfPlural, List.flatMap_nil, List.flatMap_nil]
  | cons c rest ih =>
      rw [formattersOfPlural, ih, List.flatMap_cons, List.flatMap_append, formattersOfAll_eq]

lemma formattersOfSelect_eq (cases : List (Branch String (Node φ ρ κ))) :
    formattersOfSelect cases = (cases.flatMap (·.body)).flatMap formatters := by
  induction cases with
  | nil => rw [formattersOfSelect, List.flatMap_nil, List.flatMap_nil]
  | cons c rest ih =>
      rw [formattersOfSelect, ih, List.flatMap_cons, List.flatMap_append, formattersOfAll_eq]

/-- The formatter of a call. -/
def ownFormatter : Node φ ρ κ → List φ
  | .call _ formatter _ _ => [formatter]
  | _ => []

lemma formatters_eq (tree : Node φ ρ κ) :
    tree.formatters = tree.ownFormatter ++ tree.inner.flatMap formatters := by
  cases tree <;>
    simp [formatters, ownFormatter, inner, formattersOfPlural_eq, formattersOfSelect_eq]

/-- **The formatters of a tree are those of the calls that occur in it.** -/
theorem mem_formatters_iff {formatter : φ} {tree : Node φ ρ κ} : formatter ∈ tree.formatters ↔
    ∃ arg locale style, (Node.call arg formatter locale style).Occurs tree := by
  rw [mem_collect_iff formatters_eq]
  constructor
  · rintro ⟨node, hnode, hown⟩
    cases node with
    | call arg own locale style =>
        obtain rfl := List.mem_singleton.mp hown
        exact ⟨arg, locale, style, hnode⟩
    | _ => cases hown
  · rintro ⟨arg, locale, style, hnode⟩
    exact ⟨_, hnode, List.mem_singleton_self formatter⟩

end Formatters

end Node

/-! ### Nodes with other rules and formatters -/

namespace Node

variable {φ ρ κ φ' ρ' κ' φ'' ρ'' κ'' : Type}

/-- A tree holds what the nodes inside it hold. -/
lemma rules_subset_of_inner {node tree : Node φ ρ κ} (h : node ∈ tree.inner) :
    node.rules ⊆ tree.rules := by
  rw [rules_eq tree]
  exact fun r hr => List.mem_append_right _ (List.mem_flatMap.mpr ⟨node, h, hr⟩)

lemma formatters_subset_of_inner {node tree : Node φ ρ κ} (h : node ∈ tree.inner) :
    node.formatters ⊆ tree.formatters := by
  rw [formatters_eq tree]
  exact fun x hx => List.mem_append_right _ (List.mem_flatMap.mpr ⟨node, h, hx⟩)

section Map

variable {f : φ → φ'} {g : ρ → ρ'} {h : κ → κ'}

lemma inner_map (tree : Node φ ρ κ) : (tree.map f g h).inner = tree.inner.map (map f g h) := by
  cases tree with
  | plural arg kind offset rule cases =>
      rw [map, inner, mapPlural_eq_map, inner, List.map_flatMap, List.flatMap_map]
  | select arg cases =>
      rw [map, inner, mapSelect_eq_map, inner, List.map_flatMap, List.flatMap_map]
  | _ => simp only [map, inner, List.map_cons, List.map_nil]

/-- The rules of a tree are changed one by one. -/
theorem rules_map (tree : Node φ ρ κ) : (tree.map f g h).rules = tree.rules.map g := by
  induction tree using innerInd with
  | h tree ih =>
    have hown : (tree.map f g h).ownRule = tree.ownRule.map g := by
      cases tree <;> simp only [map, ownRule, List.map_cons, List.map_nil]
    rw [rules_eq, rules_eq tree, inner_map, hown, List.map_append, List.flatMap_map,
      List.map_flatMap]
    exact congrArg _ (List.flatMap_congr ih)

/-- The formatters of a tree are changed one by one. -/
theorem formatters_map (tree : Node φ ρ κ) :
    (tree.map f g h).formatters = tree.formatters.map f := by
  induction tree using innerInd with
  | h tree ih =>
    have hown : (tree.map f g h).ownFormatter = tree.ownFormatter.map f := by
      cases tree <;> simp only [map, ownFormatter, List.map_cons, List.map_nil]
    rw [formatters_eq, formatters_eq tree, inner_map, hown, List.map_append, List.flatMap_map,
      List.map_flatMap]
    exact congrArg _ (List.flatMap_congr ih)

/-- **Two changes in a row are one change**, if this one does to all that a tree holds what the two
do. -/
theorem map_map {f' : φ' → φ''} {g' : ρ' → ρ''} {h' : κ' → κ''} {f'' : φ → φ''} {g'' : ρ → ρ''}
    {h'' : κ → κ''} (hkeys : ∀ key, h' (h key) = h'' key) (tree : Node φ ρ κ) :
    (∀ x ∈ tree.formatters, f' (f x) = f'' x) → (∀ r ∈ tree.rules, g' (g r) = g'' r) →
      (tree.map f g h).map f' g' h' = tree.map f'' g'' h'' := by
  induction tree using innerInd with
  | h tree ih =>
    intro hformatters hrules
    have hinner : ∀ node ∈ tree.inner, (node.map f g h).map f' g' h' = node.map f'' g'' h'' :=
      fun node hnode => ih node hnode
        (fun x hx => hformatters x (formatters_subset_of_inner hnode hx))
        fun r hr => hrules r (rules_subset_of_inner hnode hr)
    cases tree with
    | call arg formatter locale style =>
        simp only [map, hformatters formatter List.mem_cons_self]
    | plural arg kind offset rule cases =>
        simp only [map, mapPlural_eq_map, List.map_map, hrules rule List.mem_cons_self]
        refine congrArg _ (List.map_congr_left fun c hc => ?_)
        have hbody := List.map_congr_left fun node hnode =>
          hinner node (List.mem_flatMap.mpr ⟨c, hc, hnode⟩)
        simpa [hkeys] using hbody
    | select arg cases =>
        simp only [map, mapSelect_eq_map, List.map_map]
        refine congrArg _ (List.map_congr_left fun c hc => ?_)
        have hbody := List.map_congr_left fun node hnode =>
          hinner node (List.mem_flatMap.mpr ⟨c, hc, hnode⟩)
        simpa using hbody
    | isolate node =>
        have hnode := hinner node List.mem_cons_self
        simp only [map, hnode]
    | _ => simp only [map]

end Map

end Node

/-! ### The nodes of a bundle -/

namespace Bundle

/-- A bundle contains a node: the node occurs in a message of it, under whichever keys the message
is. -/
inductive Contains (node : LiveNode) : Bundle LiveMessage → Prop where
  | one {m : LiveMessage} {tree : LiveNode} (htree : tree ∈ m.nodes) (h : node.Occurs tree) :
      Contains node (.one m)
  | group {entries : List (String × Bundle LiveMessage)} {key : String}
      {inner : Bundle LiveMessage} (hinner : (key, inner) ∈ entries) (h : Contains node inner) :
      Contains node (.group entries)

variable {node : LiveNode}

mutual

lemma Contains.of_item : ∀ {b : Bundle LiveMessage} {m : LiveMessage} {tree : LiveNode},
    m ∈ b.items → tree ∈ m.nodes → node.Occurs tree → Contains node b
  | .one _, _, _, hm, htree, h => .one (List.mem_singleton.mp hm ▸ htree) h
  | .group _, _, _, hm, htree, h => .of_itemOfEntries hm htree h

lemma Contains.of_itemOfEntries : ∀ {entries : List (String × Bundle LiveMessage)}
    {m : LiveMessage} {tree : LiveNode},
    m ∈ itemsOfEntries entries → tree ∈ m.nodes → node.Occurs tree → Contains node (.group entries)
  | (key, b) :: rest, m, tree, hm, htree, h => by
      rcases List.mem_append.mp hm with hm | hm
      · exact .group List.mem_cons_self (.of_item hm htree h)
      · cases Contains.of_itemOfEntries hm htree h with
        | group hinner h => exact .group (List.mem_cons_of_mem _ hinner) h

end

/-- The nodes of a bundle are those of its messages. -/
theorem contains_iff {b : Bundle LiveMessage} :
    Contains node b ↔ ∃ m ∈ b.items, ∃ tree ∈ m.nodes, node.Occurs tree := by
  constructor
  · intro h
    induction h with
    | one htree h => exact ⟨_, List.mem_singleton_self _, _, htree, h⟩
    | group hinner _ ih =>
        obtain ⟨m, hm, hrest⟩ := ih
        exact ⟨m, items_subset_of_mem hinner hm, hrest⟩
  · rintro ⟨m, hm, tree, htree, h⟩
    exact .of_item hm htree h

/-- A plural of a bundle has a rule. -/
def UsesRule (b : Bundle LiveMessage) (rule : Rule) : Prop :=
  ∃ arg kind offset cases, Contains (.plural arg kind offset rule cases) b

/-- A call of a bundle has a formatter. -/
def UsesFormatter (b : Bundle LiveMessage) (formatter : Formatter) : Prop :=
  ∃ arg locale style, Contains (.call arg formatter locale style) b

end Bundle

end MessageCatalog
