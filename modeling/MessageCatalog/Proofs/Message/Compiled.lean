/-
What compiled messages are like.

* `Node.ind`: induction over a node, with the statement for all nodes in the branches of a choice;
* `Node.All`, `All.imp`, `All.map`: a statement about every node of a tree, and what hands it on;
* `Node.Within`: the same with the nearest plural around each node;
* `compile_plural`, `compile_select`, …: what a compilation that succeeds consists of;
* `Compile.Carries`: a statement about elements that carries over to the nodes made of them;
* `Node.Finite`, `Node.Complete`: finite offsets; choices with a case for all other values and with
  keys that can be read;
* `all_made_message`: every node that is compiled from a well-formed pattern is of this kind;
* `holds_message`: a message has no rules and formatters but those that it is compiled with.
-/
import MessageCatalog.Message.Compile
import MessageCatalog.Proofs.Except
import MessageCatalog.Proofs.Number.Nearest
import MessageCatalog.Proofs.Pattern.WellFormed

namespace MessageCatalog

open Pattern (Case Element)
open Plural (Key)

/-! ### Induction over nodes -/

namespace Node

section Induction

variable {φ ρ κ : Type} {p : Node φ ρ κ → Prop}

/-- **Induction over a node.** What is to be shown of a choice may be taken to hold of all nodes in
its branches. -/
theorem ind (text : ∀ value, p (.text value)) (argument : ∀ name, p (.argument name))
    (numberSign : ∀ arg offset strict, p (.numberSign arg offset strict))
    (call : ∀ arg formatter locale style, p (.call arg formatter locale style))
    (plural : ∀ arg kind offset rule cases, (∀ c ∈ cases, ∀ node ∈ c.body, p node) →
      p (.plural arg kind offset rule cases))
    (select : ∀ arg cases, (∀ c ∈ cases, ∀ node ∈ c.body, p node) → p (.select arg cases))
    (isolate : ∀ inner, p inner → p (.isolate inner)) (node : Node φ ρ κ) : p node :=
  -- The statements are those for nodes, for the two kinds of branches, each in a row and alone, and
  -- for nodes in a row.
  @Node.rec φ ρ κ p (fun cases => ∀ c ∈ cases, ∀ node ∈ c.body, p node)
    (fun cases => ∀ c ∈ cases, ∀ node ∈ c.body, p node) (fun c => ∀ node ∈ c.body, p node)
    (fun c => ∀ node ∈ c.body, p node) (fun nodes => ∀ node ∈ nodes, p node)
    text argument numberSign call plural select isolate
    (fun _ h => nomatch h) (fun _ _ first rest => List.forall_mem_cons.mpr ⟨first, rest⟩)
    (fun _ h => nomatch h) (fun _ _ first rest => List.forall_mem_cons.mpr ⟨first, rest⟩)
    (fun _ _ body => body) (fun _ _ body => body)
    (fun _ h => nomatch h) (fun _ _ first rest => List.forall_mem_cons.mpr ⟨first, rest⟩) node

end Induction

end Node

/-! ### Every node of a tree -/

namespace Node

variable {φ ρ κ φ' ρ' κ' : Type}

mutual

/-- A statement about a node and all nodes in it. -/
def All (p : Node φ ρ κ → Prop) : Node φ ρ κ → Prop
  | .plural arg kind offset rule cases => p (.plural arg kind offset rule cases) ∧ AllPlural p cases
  | .select arg cases => p (.select arg cases) ∧ AllSelect p cases
  | .isolate inner => p (.isolate inner) ∧ inner.All p
  | node => p node

/-- A statement about nodes and all nodes in them. -/
def AllOf (p : Node φ ρ κ → Prop) : List (Node φ ρ κ) → Prop
  | [] => True
  | node :: rest => node.All p ∧ AllOf p rest

/-- A statement about all nodes in plural branches. -/
def AllPlural (p : Node φ ρ κ → Prop) : List (Branch κ (Node φ ρ κ)) → Prop
  | [] => True
  | ⟨_, body⟩ :: rest => AllOf p body ∧ AllPlural p rest

/-- A statement about all nodes in select branches. -/
def AllSelect (p : Node φ ρ κ → Prop) : List (Branch String (Node φ ρ κ)) → Prop
  | [] => True
  | ⟨_, body⟩ :: rest => AllOf p body ∧ AllSelect p rest

end

/-- Where plural keys are texts, it does not matter which kind of choice branches belong to. -/
lemma allPlural_of_allSelect {p : Node φ ρ String → Prop} :
    ∀ cases : List (Branch String (Node φ ρ String)), AllSelect p cases → AllPlural p cases
  | [], _ => by simp only [AllPlural]
  | ⟨_, body⟩ :: rest, h => by
      rw [AllSelect] at h
      rw [AllPlural]
      exact ⟨h.1, allPlural_of_allSelect rest h.2⟩

section Members

variable {p : Node φ ρ κ → Prop}

lemma allOf_iff {nodes : List (Node φ ρ κ)} : AllOf p nodes ↔ ∀ node ∈ nodes, node.All p := by
  induction nodes with
  | nil => simp [AllOf]
  | cons node rest ih => rw [AllOf, ih, List.forall_mem_cons]

lemma allPlural_iff {cases : List (Branch κ (Node φ ρ κ))} :
    AllPlural p cases ↔ ∀ c ∈ cases, AllOf p c.body := by
  induction cases with
  | nil => simp [AllPlural]
  | cons c rest ih => rw [AllPlural, ih, List.forall_mem_cons]

lemma allSelect_iff {cases : List (Branch String (Node φ ρ κ))} :
    AllSelect p cases ↔ ∀ c ∈ cases, AllOf p c.body := by
  induction cases with
  | nil => simp [AllSelect]
  | cons c rest ih => rw [AllSelect, ih, List.forall_mem_cons]

/-- What each of some nodes hands on, all of them do. -/
lemma AllOf.of_mem {q : Node φ ρ κ → Prop} {nodes : List (Node φ ρ κ)} (h : AllOf p nodes)
    (hnodes : ∀ node ∈ nodes, node.All p → node.All q) : AllOf q nodes :=
  allOf_iff.mpr fun node hnode => hnodes node hnode (allOf_iff.mp h node hnode)

/-- What holds of each node holds of every node of a tree. -/
lemma all_of_forall (h : ∀ node, p node) (node : Node φ ρ κ) : node.All p := by
  induction node using Node.ind with
  | plural arg kind offset rule cases ih =>
      rw [All, allPlural_iff]
      exact ⟨h _, fun c hc => allOf_iff.mpr (ih c hc)⟩
  | select arg cases ih =>
      rw [All, allSelect_iff]
      exact ⟨h _, fun c hc => allOf_iff.mpr (ih c hc)⟩
  | isolate inner ih =>
      rw [All]
      exact ⟨h _, ih⟩
  | _ =>
      simp only [All]
      exact h _

end Members

/-- A statement about every node of a tree that is made of another statement. -/
theorem All.imp {p q : Node φ ρ κ → Prop} (hpq : ∀ node, p node → q node) (node : Node φ ρ κ) :
    node.All p → node.All q := by
  induction node using Node.ind with
  | plural arg kind offset rule cases ih =>
      intro h
      rw [All, allPlural_iff] at h ⊢
      exact ⟨hpq _ h.1, fun c hc => (h.2 c hc).of_mem (ih c hc)⟩
  | select arg cases ih =>
      intro h
      rw [All, allSelect_iff] at h ⊢
      exact ⟨hpq _ h.1, fun c hc => (h.2 c hc).of_mem (ih c hc)⟩
  | isolate inner ih =>
      intro h
      rw [All] at h ⊢
      exact ⟨hpq _ h.1, ih h.2⟩
  | _ =>
      intro h
      simp only [All] at h ⊢
      exact hpq _ h

theorem AllOf.imp {p q : Node φ ρ κ → Prop} (hpq : ∀ node, p node → q node)
    (nodes : List (Node φ ρ κ)) (h : AllOf p nodes) : AllOf q nodes :=
  h.of_mem fun node _ => All.imp hpq node

/-- The offset of a node is finite, if it has one. -/
def Finite : Node φ ρ κ → Prop
  | .numberSign _ offset _ => Number.isFinite offset = true
  | .plural _ _ offset _ _ => Number.isFinite offset = true
  | _ => True

section Map

variable {f : φ → φ'} {g : ρ → ρ'} {h : κ → κ'}

lemma mapAll_eq_map (nodes : List (Node φ ρ κ)) : mapAll f g h nodes = nodes.map (map f g h) := by
  induction nodes with
  | nil => rfl
  | cons node rest ih => rw [mapAll, ih, List.map_cons]

lemma mapPlural_eq_map (cases : List (Branch κ (Node φ ρ κ))) :
    mapPlural f g h cases = cases.map fun c => ⟨h c.key, c.body.map (map f g h)⟩ := by
  induction cases with
  | nil => rfl
  | cons c rest ih => rw [mapPlural, ih, mapAll_eq_map, List.map_cons]

lemma mapSelect_eq_map (cases : List (Branch String (Node φ ρ κ))) :
    mapSelect f g h cases = cases.map fun c => ⟨c.key, c.body.map (map f g h)⟩ := by
  induction cases with
  | nil => rfl
  | cons c rest ih => rw [mapSelect, ih, mapAll_eq_map, List.map_cons]

lemma AllOf.of_mem_map {p : Node φ ρ κ → Prop} {q : Node φ' ρ' κ' → Prop}
    {nodes : List (Node φ ρ κ)} (hp : AllOf p nodes)
    (hnodes : ∀ node ∈ nodes, node.All p → (node.map f g h).All q) :
    AllOf q (nodes.map (map f g h)) :=
  allOf_iff.mpr <| List.forall_mem_map.mpr fun node hnode =>
    hnodes node hnode (allOf_iff.mp hp node hnode)

/-- **A change of what nodes hold hands a statement on to the whole tree**, if it hands it on to
each node. -/
theorem All.map {p : Node φ ρ κ → Prop} {q : Node φ' ρ' κ' → Prop}
    (hpq : ∀ node, p node → q (node.map f g h)) (node : Node φ ρ κ) :
    node.All p → (node.map f g h).All q := by
  induction node using Node.ind with
  | plural arg kind offset rule cases ih =>
      intro hp
      have hnode := hpq (.plural arg kind offset rule cases)
      rw [Node.map, mapPlural_eq_map] at hnode ⊢
      rw [All, allPlural_iff] at hp ⊢
      exact ⟨hnode hp.1, List.forall_mem_map.mpr fun c hc => (hp.2 c hc).of_mem_map (ih c hc)⟩
  | select arg cases ih =>
      intro hp
      have hnode := hpq (.select arg cases)
      rw [Node.map, mapSelect_eq_map] at hnode ⊢
      rw [All, allSelect_iff] at hp ⊢
      exact ⟨hnode hp.1, List.forall_mem_map.mpr fun c hc => (hp.2 c hc).of_mem_map (ih c hc)⟩
  | isolate inner ih =>
      intro hp
      have hnode := hpq (.isolate inner)
      rw [Node.map] at hnode ⊢
      rw [All] at hp ⊢
      exact ⟨hnode hp.1, ih hp.2⟩
  | _ =>
      intro hp
      have hnode := hpq _ hp
      rw [Node.map] at hnode ⊢
      exact hnode

theorem AllOf.map {p : Node φ ρ κ → Prop} {q : Node φ' ρ' κ' → Prop}
    (hpq : ∀ node, p node → q (node.map f g h)) {nodes : List (Node φ ρ κ)} (hp : AllOf p nodes) :
    AllOf q (mapAll f g h nodes) := by
  rw [mapAll_eq_map]
  exact hp.of_mem_map fun node _ => All.map hpq node

/-- What a node holds does not change its offset. -/
lemma finite_map (node : Node φ ρ κ) (hn : node.Finite) : (node.map f g h).Finite := by
  cases node with
  | numberSign arg offset strict => simpa only [Node.map, Finite] using hn
  | plural arg kind offset rule cases => simpa only [Node.map, Finite] using hn
  | _ => simp only [Node.map, Finite]

end Map

end Node

/-! ### Nodes and the plurals around them -/

namespace Node

/-- A statement about a node and all nodes in it, each together with the nearest plural around
it. -/
inductive Within (p : Option Scope → LiveNode → Prop) : Option Scope → LiveNode → Prop where
  | text {scope value} : p scope (.text value) → Within p scope (.text value)
  | argument {scope name} : p scope (.argument name) → Within p scope (.argument name)
  | numberSign {scope arg offset strict} :
      p scope (.numberSign arg offset strict) → Within p scope (.numberSign arg offset strict)
  | call {scope arg formatter locale style} :
      p scope (.call arg formatter locale style) → Within p scope (.call arg formatter locale style)
  | plural {scope arg kind offset rule cases} : p scope (.plural arg kind offset rule cases) →
      (∀ c ∈ cases, ∀ node ∈ c.body, Within p (some ⟨arg, offset⟩) node) →
      Within p scope (.plural arg kind offset rule cases)
  | select {scope arg cases} : p scope (.select arg cases) →
      (∀ c ∈ cases, ∀ node ∈ c.body, Within p scope node) → Within p scope (.select arg cases)
  | isolate {scope inner} : p scope (.isolate inner) → Within p scope inner →
      Within p scope (.isolate inner)

variable {p : Option Scope → LiveNode → Prop} {scope : Option Scope} {node : LiveNode}

/-- What is said of a node and all nodes in it is said of the node. -/
lemma Within.here (h : node.Within p scope) : p scope node := by
  cases h <;> assumption

/-- What is said of a node and all nodes in it is said of each of these, with some plural around
it. -/
theorem Within.all (h : node.Within p scope) : node.All fun n => ∃ s, n.Within p s := by
  induction h with
  | plural hnode hcases ih =>
      rw [All, allPlural_iff]
      exact ⟨⟨_, .plural hnode hcases⟩, fun c hc => allOf_iff.mpr (ih c hc)⟩
  | select hnode hcases ih =>
      rw [All, allSelect_iff]
      exact ⟨⟨_, .select hnode hcases⟩, fun c hc => allOf_iff.mpr (ih c hc)⟩
  | isolate hnode hinner ih =>
      rw [All]
      exact ⟨⟨_, .isolate hnode hinner⟩, ih⟩
  | text hnode => exact ⟨_, .text hnode⟩
  | argument hnode => exact ⟨_, .argument hnode⟩
  | numberSign hnode => exact ⟨_, .numberSign hnode⟩
  | call hnode => exact ⟨_, .call hnode⟩

end Node

/-! ### What has been compiled -/

section Inversion

variable {σ : Type} {context : Context} {scope : Option Scope}

lemma compile_plural {arg : String} {kind : Plural.Kind} {offset : Nat}
    {cases : List (Case Key σ (Element σ))} {mark : σ} {node : LiveNode}
    (h : Compile.element context scope (.plural arg kind offset cases mark) = .ok node) :
    checkKeys context.rule arg kind (cases.map (·.key)) = .ok () ∧
      ∃ branches,
        Compile.pluralCases context (some ⟨arg, Number.ofNat offset⟩) cases = .ok branches ∧
        node = Compile.wrap context
          (.plural arg kind (Number.ofNat offset) context.rule branches) := by
  rw [Compile.element] at h
  obtain ⟨_, hcheck, h⟩ := bind_eq_ok.mp h
  obtain ⟨branches, hbranches, h⟩ := bind_eq_ok.mp h
  exact ⟨hcheck, branches, hbranches, (Except.ok.inj h).symm⟩

lemma compile_select {arg : String} {cases : List (Case String σ (Element σ))} {mark : σ}
    {node : LiveNode} (h : Compile.element context scope (.select arg cases mark) = .ok node) :
    ∃ branches, Compile.selectCases context scope cases = .ok branches ∧
      node = Compile.wrap context (.select arg branches) := by
  rw [Compile.element] at h
  obtain ⟨branches, hbranches, h⟩ := bind_eq_ok.mp h
  exact ⟨branches, hbranches, (Except.ok.inj h).symm⟩

lemma compile_cons {e : Element σ} {rest : List (Element σ)} {nodes : List LiveNode}
    (h : Compile.elements context scope (e :: rest) = .ok nodes) :
    ∃ node others, Compile.element context scope e = .ok node ∧
      Compile.elements context scope rest = .ok others ∧ nodes = node :: others := by
  rw [Compile.elements] at h
  obtain ⟨node, hnode, h⟩ := bind_eq_ok.mp h
  obtain ⟨others, hothers, h⟩ := bind_eq_ok.mp h
  exact ⟨node, others, hnode, hothers, (Except.ok.inj h).symm⟩

lemma compile_pluralCases_cons {key : Key} {body : List (Element σ)} {mark : σ}
    {rest : List (Case Key σ (Element σ))} {branches : List (Branch Key LiveNode)}
    (h : Compile.pluralCases context scope (⟨key, body, mark⟩ :: rest) = .ok branches) :
    ∃ nodes others, Compile.elements context scope body = .ok nodes ∧
      Compile.pluralCases context scope rest = .ok others ∧ branches = ⟨key, nodes⟩ :: others := by
  rw [Compile.pluralCases] at h
  obtain ⟨nodes, hnodes, h⟩ := bind_eq_ok.mp h
  obtain ⟨others, hothers, h⟩ := bind_eq_ok.mp h
  exact ⟨nodes, others, hnodes, hothers, (Except.ok.inj h).symm⟩

lemma compile_selectCases_cons {key : String} {body : List (Element σ)} {mark : σ}
    {rest : List (Case String σ (Element σ))} {branches : List (Branch String LiveNode)}
    (h : Compile.selectCases context scope (⟨key, body, mark⟩ :: rest) = .ok branches) :
    ∃ nodes others, Compile.elements context scope body = .ok nodes ∧
      Compile.selectCases context scope rest = .ok others ∧ branches = ⟨key, nodes⟩ :: others := by
  rw [Compile.selectCases] at h
  obtain ⟨nodes, hnodes, h⟩ := bind_eq_ok.mp h
  obtain ⟨others, hothers, h⟩ := bind_eq_ok.mp h
  exact ⟨nodes, others, hnodes, hothers, (Except.ok.inj h).symm⟩

end Inversion

/-! ### Statements that are carried over to nodes -/

section Keys

variable {σ : Type} {context : Context} {scope : Option Scope}

lemma keys_pluralCases : ∀ {cases : List (Case Key σ (Element σ))}
    {branches : List (Branch Key LiveNode)},
    Compile.pluralCases context scope cases = .ok branches →
      branches.map (·.key) = cases.map (·.key)
  | [], branches, h => by
      obtain rfl := Except.ok.inj h
      rfl
  | ⟨key, body, _⟩ :: rest, branches, h => by
      obtain ⟨nodes, others, _, hothers, rfl⟩ := compile_pluralCases_cons h
      rw [List.map_cons, List.map_cons, keys_pluralCases hothers]

lemma keys_selectCases : ∀ {cases : List (Case String σ (Element σ))}
    {branches : List (Branch String LiveNode)},
    Compile.selectCases context scope cases = .ok branches →
      branches.map (·.key) = cases.map (·.key)
  | [], branches, h => by
      obtain rfl := Except.ok.inj h
      rfl
  | ⟨key, body, _⟩ :: rest, branches, h => by
      obtain ⟨nodes, others, _, hothers, rfl⟩ := compile_selectCases_cons h
      rw [List.map_cons, List.map_cons, keys_selectCases hothers]

end Keys

namespace Compile

variable {σ : Type} {context : Context}

/-- A statement about elements carries over to the nodes that are made of them, where both are read
together with the nearest plural around them: it is handed on to the elements of cases, and gives
what is to be said of each node. -/
structure Carries (context : Context) (q : Option Scope → Element σ → Prop)
    (p : Option Scope → LiveNode → Prop) : Prop where
  text : ∀ scope value, p scope (.text value)
  isolate : ∀ scope inner, p scope (.isolate inner)
  argument : ∀ {scope name mark}, q scope (.argument name mark) → p scope (.argument name)
  call : ∀ {scope arg name style mark formatter}, q scope (.call arg name style mark) →
    context.registry.resolve? name = some formatter →
    p scope (.call arg formatter context.locale style)
  numberSign : ∀ {s : Scope} {mark}, q (some s) (.numberSign mark) →
    p (some s) (.numberSign s.arg s.offset context.strict)
  plural : ∀ {scope arg kind offset mark} {cases : List (Case Key σ (Element σ))}
    {branches : List (Branch Key LiveNode)}, q scope (.plural arg kind offset cases mark) →
    checkKeys context.rule arg kind (cases.map (·.key)) = .ok () →
    branches.map (·.key) = cases.map (·.key) →
    p scope (.plural arg kind (Number.ofNat offset) context.rule branches)
  select : ∀ {scope arg mark} {cases : List (Case String σ (Element σ))}
    {branches : List (Branch String LiveNode)}, q scope (.select arg cases mark) →
    branches.map (·.key) = cases.map (·.key) → p scope (.select arg branches)
  pluralBody : ∀ {scope arg kind offset cases mark}, q scope (.plural arg kind offset cases mark) →
    ∀ c ∈ cases, ∀ e ∈ c.body, q (some ⟨arg, Number.ofNat offset⟩) e
  selectBody : ∀ {scope arg cases mark}, q scope (.select arg cases mark) →
    ∀ c ∈ cases, ∀ e ∈ c.body, q scope e

variable {q : Option Scope → Element σ → Prop} {p : Option Scope → LiveNode → Prop}

/-- Isolation leaves a node as it is. -/
lemma Carries.wrap (h : Carries context q p) {scope : Option Scope} {node : LiveNode}
    (hnode : node.Within p scope) : (Compile.wrap context node).Within p scope := by
  rw [Compile.wrap]
  split
  · exact .isolate (h.isolate scope node) hnode
  · exact hnode

mutual

/-- **What carries over holds of every node that is made of an element.** -/
theorem Carries.element (h : Carries context q p) : ∀ {e : Element σ} {scope : Option Scope}
    {node : LiveNode}, q scope e → Compile.element context scope e = .ok node →
    node.Within p scope
  | .literal value _, scope, node, _, hnode => by
      obtain rfl := Except.ok.inj hnode
      exact .text (h.text scope value)
  | .argument name _, scope, node, hq, hnode => by
      obtain rfl := Except.ok.inj hnode
      exact h.wrap (.argument (h.argument hq))
  | .call arg name style _, scope, node, hq, hnode => by
      rw [Compile.element, Compile.call] at hnode
      split at hnode
      · rename_i formatter hformatter
        obtain rfl := Except.ok.inj hnode
        exact h.wrap (.call (h.call hq hformatter))
      · cases hnode
  | .plural arg kind offset cases _, scope, node, hq, hnode => by
      obtain ⟨hcheck, branches, hbranches, rfl⟩ := compile_plural hnode
      have hplural := h.plural hq hcheck (keys_pluralCases hbranches)
      exact h.wrap (.plural hplural (h.pluralCases (h.pluralBody hq) hbranches))
  | .select arg cases _, scope, node, hq, hnode => by
      obtain ⟨branches, hbranches, rfl⟩ := compile_select hnode
      have hselect := h.select hq (keys_selectCases hbranches)
      exact h.wrap (.select hselect (h.selectCases (h.selectBody hq) hbranches))
  | .numberSign _, scope, node, hq, hnode => by
      obtain rfl := Except.ok.inj hnode
      -- Outside of plurals a number sign is literal text.
      cases scope with
      | none => exact .text (h.text none "#")
      | some s => exact h.wrap (.numberSign (h.numberSign hq))

theorem Carries.elements (h : Carries context q p) : ∀ {es : List (Element σ)}
    {scope : Option Scope} {nodes : List LiveNode}, (∀ e ∈ es, q scope e) →
    Compile.elements context scope es = .ok nodes → ∀ node ∈ nodes, node.Within p scope
  | [], scope, nodes, _, hnodes => by
      obtain rfl := Except.ok.inj hnodes
      exact fun _ hnode => nomatch hnode
  | e :: rest, scope, nodes, hq, hnodes => by
      obtain ⟨node, others, hnode, hothers, rfl⟩ := compile_cons hnodes
      obtain ⟨hfirst, hrest⟩ := List.forall_mem_cons.mp hq
      exact List.forall_mem_cons.mpr ⟨h.element hfirst hnode, h.elements hrest hothers⟩

theorem Carries.pluralCases (h : Carries context q p) :
    ∀ {cases : List (Case Key σ (Element σ))} {scope : Option Scope}
    {branches : List (Branch Key LiveNode)}, (∀ c ∈ cases, ∀ e ∈ c.body, q scope e) →
    Compile.pluralCases context scope cases = .ok branches →
    ∀ c ∈ branches, ∀ node ∈ c.body, node.Within p scope
  | [], scope, branches, _, hbranches => by
      obtain rfl := Except.ok.inj hbranches
      exact fun _ hc => nomatch hc
  | ⟨key, body, _⟩ :: rest, scope, branches, hq, hbranches => by
      obtain ⟨nodes, others, hnodes, hothers, rfl⟩ := compile_pluralCases_cons hbranches
      obtain ⟨hfirst, hrest⟩ := List.forall_mem_cons.mp hq
      exact List.forall_mem_cons.mpr ⟨h.elements hfirst hnodes, h.pluralCases hrest hothers⟩

theorem Carries.selectCases (h : Carries context q p) :
    ∀ {cases : List (Case String σ (Element σ))} {scope : Option Scope}
    {branches : List (Branch String LiveNode)}, (∀ c ∈ cases, ∀ e ∈ c.body, q scope e) →
    Compile.selectCases context scope cases = .ok branches →
    ∀ c ∈ branches, ∀ node ∈ c.body, node.Within p scope
  | [], scope, branches, _, hbranches => by
      obtain rfl := Except.ok.inj hbranches
      exact fun _ hc => nomatch hc
  | ⟨key, body, _⟩ :: rest, scope, branches, hq, hbranches => by
      obtain ⟨nodes, others, hnodes, hothers, rfl⟩ := compile_selectCases_cons hbranches
      obtain ⟨hfirst, hrest⟩ := List.forall_mem_cons.mp hq
      exact List.forall_mem_cons.mpr ⟨h.elements hfirst hnodes, h.selectCases hrest hothers⟩

end

/-- **What carries over holds of every node of a message.** -/
theorem Carries.message (h : Carries context q p) {pattern : List (Element σ)} {m : LiveMessage}
    (hq : ∀ e ∈ pattern, q none e) (hm : Compile.message context pattern = .ok m) :
    ∀ node ∈ m.nodes, node.Within p none := by
  rw [Compile.message] at hm
  obtain ⟨nodes, hnodes, hm⟩ := bind_eq_ok.mp hm
  obtain rfl := Except.ok.inj hm
  exact h.elements hq hnodes

/-- So does what follows from it. -/
theorem Carries.allOf (h : Carries context q p) {r : LiveNode → Prop}
    (hr : ∀ scope node, node.Within p scope → r node) {pattern : List (Element σ)} {m : LiveMessage}
    (hq : ∀ e ∈ pattern, q none e) (hm : Compile.message context pattern = .ok m) :
    Node.AllOf r m.nodes :=
  Node.allOf_iff.mpr fun node hnode =>
    Node.All.imp (fun n ⟨s, hn⟩ => hr s n hn) node (h.message hq hm node hnode).all

end Compile

/-! ### What is made of well-formed patterns -/

/-- A choice has a case for all other values, and its plural keys can be read. -/
def Node.Complete : LiveNode → Prop
  | .plural _ _ _ _ cases =>
    (∃ c ∈ cases, c.key = .label "other") ∧ ∀ c ∈ cases, c.key.WellFormed
  | .select _ cases => ∃ c ∈ cases, c.key = "other"
  | _ => True

/-- A node with a finite offset and with all its cases. -/
def Node.Made (node : LiveNode) : Prop :=
  node.Finite ∧ node.Complete

section Made

variable {σ : Type} {context : Context}

/-- The offset of the plural that number signs stand for is finite. -/
def Scope.IsFinite (scope : Option Scope) : Prop :=
  ∀ s ∈ scope, Number.isFinite s.offset = true

/-- Well-formed elements give nodes with finite offsets and with all their cases. -/
lemma carries_made : Compile.Carries context
    (fun scope (e : Element σ) => Scope.IsFinite scope ∧ ∃ inPlural, e.WellFormed inPlural)
    (fun _ node => node.Made) where
  text _ _ := ⟨trivial, trivial⟩
  isolate _ _ := ⟨trivial, trivial⟩
  argument _ := ⟨trivial, trivial⟩
  call _ _ := ⟨trivial, trivial⟩
  numberSign hq := ⟨hq.1 _ rfl, trivial⟩
  plural hq _ hkeys := by
    -- The branches have the keys of the cases, of which one is `other`.
    obtain ⟨_, _, hwell⟩ := hq
    cases hwell with
    | plural _ hoffset _ hother hkey =>
        rw [← hkeys] at hother
        obtain ⟨c, hc, heq⟩ := List.mem_map.mp hother
        refine ⟨Number.isFinite_ofNat (by omega), ⟨c, hc, heq⟩, fun c hc => ?_⟩
        obtain ⟨c', hc', heq⟩ := List.mem_map.mp (hkeys ▸ List.mem_map_of_mem hc)
        exact heq ▸ hkey c' hc'
  select hq hkeys := by
    obtain ⟨_, _, hwell⟩ := hq
    cases hwell with
    | select _ _ hother =>
        rw [← hkeys] at hother
        obtain ⟨c, hc, heq⟩ := List.mem_map.mp hother
        exact ⟨trivial, c, hc, heq⟩
  pluralBody hq c hc e he := by
    obtain ⟨_, _, hwell⟩ := hq
    cases hwell with
    | plural _ hoffset _ _ _ _ hbody =>
        -- The bodies are read under this plural, whose offset is a finite number.
        refine ⟨fun s hs => ?_, true, hbody c hc e he⟩
        obtain rfl := Option.some.inj hs
        exact Number.isFinite_ofNat (by omega)
  selectBody := fun ⟨hscope, inPlural, hwell⟩ c hc e he =>
    ⟨hscope, inPlural, (hwell.isMessage_of_select c hc).wellFormed e he⟩

/-- **The message of a well-formed pattern has finite offsets and complete choices everywhere.** -/
theorem all_made_message {pattern : List (Element σ)} {inPlural : Bool} {m : LiveMessage}
    (hwell : ∀ e ∈ pattern, e.WellFormed inPlural) (h : Compile.message context pattern = .ok m) :
    Node.AllOf Node.Made m.nodes :=
  carries_made.allOf (fun _ _ hnode => hnode.here)
    (fun e he => ⟨(fun _ hs => nomatch hs), inPlural, hwell e he⟩) h

end Made

/-! ### What nodes are compiled with -/

/-- Rules and formatters that a context has. -/
structure Context.Holds (context : Context) (rules : List Plural.Rule)
    (formatters : List Formatting.Formatter) : Prop where
  rule : ∀ rule ∈ rules, rule = context.rule
  formatter : ∀ formatter ∈ formatters, ∃ name, context.registry.resolve? name = some formatter

section Holds

variable {σ : Type} {context : Context}

lemma Context.holds_nil (context : Context) : context.Holds [] [] :=
  ⟨(fun _ h => nomatch h), fun _ h => nomatch h⟩

lemma Context.Holds.append {rules others : List Plural.Rule}
    {formatters more : List Formatting.Formatter} (h : context.Holds rules formatters)
    (ho : context.Holds others more) : context.Holds (rules ++ others) (formatters ++ more) := by
  constructor
  · intro r hr
    rcases List.mem_append.mp hr with hr | hr
    · exact h.rule r hr
    · exact ho.rule r hr
  · intro f hf
    rcases List.mem_append.mp hf with hf | hf
    · exact h.formatter f hf
    · exact ho.formatter f hf

/-- Isolation adds neither rules nor formatters. -/
lemma Context.Holds.wrap {node : LiveNode} (h : context.Holds node.rules node.formatters) :
    context.Holds (Compile.wrap context node).rules (Compile.wrap context node).formatters := by
  rw [Compile.wrap]
  split
  · rw [Node.rules, Node.formatters]
    exact h
  · exact h

mutual

/-- **A node has no rules and formatters but those that it is compiled with.** -/
theorem holds_element : ∀ {e : Element σ} {scope : Option Scope} {node : LiveNode},
    Compile.element context scope e = .ok node → context.Holds node.rules node.formatters
  | .literal value _, scope, node, h => by
      obtain rfl := Except.ok.inj h
      simpa only [Node.rules, Node.formatters] using context.holds_nil
  | .argument name _, scope, node, h => by
      obtain rfl := Except.ok.inj h
      apply Context.Holds.wrap
      simpa only [Node.rules, Node.formatters] using context.holds_nil
  | .call arg name style _, scope, node, h => by
      rw [Compile.element, Compile.call] at h
      cases hname : context.registry.resolve? name with
      | none => rw [hname] at h; cases h
      | some formatter =>
          rw [hname] at h
          obtain rfl := Except.ok.inj h
          apply Context.Holds.wrap
          rw [Node.rules, Node.formatters]
          · refine ⟨(fun _ h => nomatch h), fun f hf => ⟨name, ?_⟩⟩
            rw [List.mem_singleton.mp hf, hname]
          all_goals simp
  | .plural arg kind offset cases _, scope, node, h => by
      obtain ⟨-, branches, hbranches, rfl⟩ := compile_plural h
      have hcases := holds_pluralCases hbranches
      apply Context.Holds.wrap
      rw [Node.rules, Node.formatters]
      refine ⟨fun r hr => ?_, hcases.formatter⟩
      -- The rule of the plural is that of the context, as are those in its cases.
      rcases List.mem_cons.mp hr with rfl | hr
      · rfl
      · exact hcases.rule r hr
  | .select arg cases _, scope, node, h => by
      obtain ⟨branches, hbranches, rfl⟩ := compile_select h
      have hcases := holds_selectCases hbranches
      apply Context.Holds.wrap
      rw [Node.rules, Node.formatters]
      exact hcases
  | .numberSign _, scope, node, h => by
      obtain rfl := Except.ok.inj h
      cases scope with
      | none => simpa only [Compile.numberSign, Node.rules, Node.formatters] using context.holds_nil
      | some s =>
          apply Context.Holds.wrap
          simpa only [Node.rules, Node.formatters] using context.holds_nil

theorem holds_elements : ∀ {es : List (Element σ)} {scope : Option Scope} {nodes : List LiveNode},
    Compile.elements context scope es = .ok nodes →
      context.Holds (Node.rulesOfAll nodes) (Node.formattersOfAll nodes)
  | [], scope, nodes, h => by
      obtain rfl := Except.ok.inj h
      simpa only [Node.rulesOfAll, Node.formattersOfAll] using context.holds_nil
  | e :: rest, scope, nodes, h => by
      obtain ⟨node, others, hnode, hothers, rfl⟩ := compile_cons h
      rw [Node.rulesOfAll, Node.formattersOfAll]
      exact (holds_element hnode).append (holds_elements hothers)

theorem holds_pluralCases : ∀ {cases : List (Case Key σ (Element σ))} {scope : Option Scope}
    {branches : List (Branch Key LiveNode)},
    Compile.pluralCases context scope cases = .ok branches →
      context.Holds (Node.rulesOfPlural branches) (Node.formattersOfPlural branches)
  | [], scope, branches, h => by
      obtain rfl := Except.ok.inj h
      simpa only [Node.rulesOfPlural, Node.formattersOfPlural] using context.holds_nil
  | ⟨key, body, _⟩ :: rest, scope, branches, h => by
      obtain ⟨nodes, others, hnodes, hothers, rfl⟩ := compile_pluralCases_cons h
      rw [Node.rulesOfPlural, Node.formattersOfPlural]
      exact (holds_elements hnodes).append (holds_pluralCases hothers)

theorem holds_selectCases : ∀ {cases : List (Case String σ (Element σ))} {scope : Option Scope}
    {branches : List (Branch String LiveNode)},
    Compile.selectCases context scope cases = .ok branches →
      context.Holds (Node.rulesOfSelect branches) (Node.formattersOfSelect branches)
  | [], scope, branches, h => by
      obtain rfl := Except.ok.inj h
      simpa only [Node.rulesOfSelect, Node.formattersOfSelect] using context.holds_nil
  | ⟨key, body, _⟩ :: rest, scope, branches, h => by
      obtain ⟨nodes, others, hnodes, hothers, rfl⟩ := compile_selectCases_cons h
      rw [Node.rulesOfSelect, Node.formattersOfSelect]
      exact (holds_elements hnodes).append (holds_selectCases hothers)

end

/-- **A message has no rules and formatters but those that it is compiled with.** -/
theorem holds_message {pattern : List (Element σ)} {m : LiveMessage}
    (h : Compile.message context pattern = .ok m) :
    context.Holds (Node.rulesOfAll m.nodes) (Node.formattersOfAll m.nodes) := by
  rw [Compile.message] at h
  obtain ⟨nodes, hnodes, h⟩ := bind_eq_ok.mp h
  obtain rfl := Except.ok.inj h
  exact holds_elements hnodes

end Holds

end MessageCatalog
