/-
Linking brings stored messages back to life.

A live node that is stored and linked again is the same node, up to the rules and the formatters
that it is linked with. It says the same as before if these work like the ones that it had.

* `Node.Alike`: nodes that look the same and say the same;
* `Node.alike_map`: such are nodes with other rules and formatters, if these work alike;
* `yields_linkNode`, `yields_linkBundle`: the stored form of a node or of a bundle is linked to the
  same with the rules and formatters of the linking in their places, if it is linked at all;
* `linkBundle_map`: it is linked if choices are complete and the linking has all of these;
* `Linking.Serves`, `linkBundle_store`: so it is linked to one that is alike if they work alike.
-/
import MessageCatalog.Module.Link
import MessageCatalog.Proofs.Message.Answers
import MessageCatalog.Proofs.Message.Occurrence
import MessageCatalog.Proofs.Plural.Key

namespace MessageCatalog

open Formatting (Formatter Reference)
open Plural (Key Kind Rule)

/-! ### Nodes that are alike -/

/-- A node without its plural rules, and with the names of its formatters only. -/
abbrev Shape := Node Reference Unit Key

namespace Node

/-- What a node looks like. -/
def shape (node : LiveNode) : Shape :=
  node.map Formatter.reference (fun _ => ()) id

/-- Nodes that look the same and say the same. -/
def Alike (a b : LiveNode) : Prop :=
  a.shape = b.shape ∧ ∀ args, a.render args = b.render args

end Node

/-- What a message looks like: its locale and its nodes. -/
def Message.shape (m : LiveMessage) : Message Shape :=
  m.mapNodes Formatter.reference (fun _ => ()) id

/-- Messages that look the same and say the same. -/
def Message.Alike (a b : LiveMessage) : Prop :=
  a.shape = b.shape ∧ ∀ args, a.format args = b.format args

/-- What a bundle looks like: its keys, and what its messages look like. -/
def Bundle.shape (b : Bundle LiveMessage) : Bundle (Message Shape) :=
  b.map Message.shape

section Bundles

variable {b : Bundle LiveMessage} {f : LiveMessage → LiveMessage}

/-- A bundle of messages that say the same says the same. -/
lemma Bundle.format_congr (h : ∀ m ∈ b.items, ∀ args, (f m).format args = m.format args)
    (args : Arguments) : (b.map f).format args = b.format args := by
  cases b with
  | one m => exact h m List.mem_cons_self args
  | group entries => rfl

/-- A bundle of messages that say the same says the same at every path. -/
lemma Bundle.formatAt_congr (h : ∀ m ∈ b.items, ∀ args, (f m).format args = m.format args)
    (path : List String) (args : Arguments) :
    (b.map f).formatAt path args = b.formatAt path args := by
  rw [Bundle.formatAt, Bundle.formatAt, Bundle.lookup?, Bundle.lookup?, Bundle.at?_map]
  by_cases hpath : path.isEmpty
  · rw [if_pos hpath, if_pos hpath]
  · rw [if_neg hpath, if_neg hpath]
    cases hat : b.at? path with
    | none => rfl
    | some inner =>
        cases inner with
        | group entries => rfl
        | one m => exact h m (Bundle.items_subset_of_at? hat List.mem_cons_self) args

variable (h : ∀ m ∈ b.items, (f m).Alike m)

include h

/-- A bundle of messages that are alike looks the same. -/
lemma Bundle.shape_map : (b.map f).shape = b.shape := by
  rw [Bundle.shape, Bundle.shape, Bundle.map_map]
  exact Bundle.map_congr b fun m hm => (h m hm).1

/-- A bundle of messages that are alike says the same. -/
lemma Bundle.format_map (args : Arguments) : (b.map f).format args = b.format args :=
  Bundle.format_congr (fun m hm => (h m hm).2) args

/-- A bundle of messages that are alike says the same at every path. -/
lemma Bundle.formatAt_map (path : List String) (args : Arguments) :
    (b.map f).formatAt path args = b.formatAt path args :=
  Bundle.formatAt_congr (fun m hm => (h m hm).2) path args

end Bundles

/-! ### Keys that can be read -/

/-- The keys of a plural have been read from texts. -/
def Node.KeysRead : LiveNode → Prop
  | .plural _ _ _ _ cases => ∀ c ∈ cases, ∃ text, Key.ofText? text = some c.key
  | _ => True

lemma Node.Made.keysRead {node : LiveNode} (h : node.Made) : node.KeysRead := by
  cases node with
  | plural arg kind offset rule cases => exact fun c hc => ⟨_, (h.2.2 c hc).ofText?_text⟩
  | _ => trivial

/-! ### Rules and formatters that work alike -/

/-- A rule that picks the same categories as another one. -/
def Plural.Rule.PicksLike (a b : Rule) : Prop :=
  ∀ x kind, a.category x kind = b.category x kind

/-- A formatter that gives the same texts as another one, under the same name. -/
def Formatting.Formatter.WorksLike (a b : Formatter) : Prop :=
  a.reference = b.reference ∧ ∀ request, a.run request = b.run request

lemma choosePlural_congr {α : Type} {a b : Rule} (h : a.PicksLike b) (value : Value) (kind : Kind)
    (offset : Float) (cases : List (Key × α)) :
    choosePlural value kind offset a cases = choosePlural value kind offset b cases := by
  have hcategory (x : Float) : a.category x kind = b.category x kind := h x kind
  simp only [choosePlural, choosePluralByNumber, hcategory]

namespace Node

variable {f : Formatter → Formatter} {g : Rule → Rule}

/-- A node says the same with other rules and formatters that work alike. -/
theorem render_map (node : LiveNode) : (∀ x ∈ node.formatters, (f x).WorksLike x) →
    (∀ r ∈ node.rules, (g r).PicksLike r) →
      ∀ args, (node.map f g id).render args = node.render args := by
  induction node using innerInd with
  | h node ih =>
    intro hformatters hrules args
    have hinner : ∀ tree ∈ node.inner, ∀ args, (tree.map f g id).render args = tree.render args :=
      fun tree htree => ih tree htree
        (fun x hx => hformatters x (formatters_subset_of_inner htree hx))
        fun r hr => hrules r (rules_subset_of_inner htree hr)
    have hbody {nodes : List LiveNode} (h : nodes ⊆ node.inner) :
        (fun args => renderAll (nodes.map (map f g id)) args) = fun args => renderAll nodes args :=
      funext fun args => renderAll_map fun tree htree => hinner tree (h htree) args
    -- Only calls ask a formatter and only plurals a rule; all else is by induction.
    cases node with
    | call arg formatter locale style =>
        simp only [map, render, (hformatters formatter List.mem_cons_self).2]
    | plural arg kind offset rule cases =>
        have hcases : renderPlural (mapPlural f g id cases) = renderPlural cases := by
          rw [mapPlural_eq_map, renderPlural_eq_map, renderPlural_eq_map, List.map_map]
          exact List.map_congr_left fun c hc => congrArg (Prod.mk c.key) <|
            hbody fun tree htree => List.mem_flatMap.mpr ⟨c, hc, htree⟩
        rw [map, render, render, hcases, choosePlural_congr (hrules rule List.mem_cons_self)]
    | select arg cases =>
        have hcases : renderSelect (mapSelect f g id cases) = renderSelect cases := by
          rw [mapSelect_eq_map, renderSelect_eq_map, renderSelect_eq_map, List.map_map]
          exact List.map_congr_left fun c hc => congrArg (Prod.mk c.key) <|
            hbody fun tree htree => List.mem_flatMap.mpr ⟨c, hc, htree⟩
        rw [map, render, render, hcases]
    | isolate tree => rw [map, render, render, hinner tree List.mem_cons_self]
    | _ => rfl

/-- **A node looks the same and says the same with other rules and formatters that work alike.** -/
theorem alike_map (node : LiveNode) (hformatters : ∀ x ∈ node.formatters, (f x).WorksLike x)
    (hrules : ∀ r ∈ node.rules, (g r).PicksLike r) : (node.map f g id).Alike node :=
  ⟨map_map (fun _ => rfl) node (fun x hx => (hformatters x hx).1) fun _ _ => rfl,
    render_map node hformatters hrules⟩

end Node

namespace Module

/-- A linking gives rules and formatters that work like some that nodes have. -/
structure Linking.Serves (linking : Linking) (rules : List Rule) (formatters : List Formatter) :
    Prop where
  rule : ∀ rule ∈ rules, ∃ linked, linking.rule rule.locale = .ok linked ∧ linked.PicksLike rule
  formatter : ∀ formatter ∈ formatters, ∃ linked,
    linking.formatter formatter.reference = .ok linked ∧ linked.WorksLike formatter

/-! ### Choices -/

/-- A choice with a case for all other values passes the check. -/
lemma checkOther_of_mem {ν : Type} (arg : String) {cases : List (Branch String ν)}
    {c : Branch String ν} (hc : c ∈ cases) (hkey : c.key = "other") :
    checkOther arg cases = .ok () := by
  have hany : cases.any (·.key == "other") = true :=
    List.any_eq_true.mpr ⟨c, hc, beq_iff_eq.mpr hkey⟩
  rw [checkOther, if_pos hany]

/-- A key that is read from some text is linked from its own. -/
lemma linkKey_text {key : Key} {text : String} (h : Key.ofText? text = some key) :
    linkKey key.text = .ok key := by
  rw [linkKey, Key.ofText?_text h]

/-! ### Nodes -/

/-- The stored form of a node. -/
def storeNode (node : LiveNode) : StoredNode :=
  node.map Formatter.reference Rule.locale Key.text

/-- The stored forms of nodes. -/
def storeNodes (nodes : List LiveNode) : List StoredNode :=
  Node.mapAll Formatter.reference Rule.locale Key.text nodes

section Link

variable {linking : Linking} {f : Formatter → Formatter} {g : Rule → Rule}
  {kind : LoadError → Prop}

lemma storeNode_plural (arg : String) (kind : Plural.Kind) (offset : Float) (rule : Rule)
    (cases : List (Branch Key LiveNode)) :
    storeNode (.plural arg kind offset rule cases) = .plural arg kind offset rule.locale
      (cases.map fun c => ⟨c.key.text, c.body.map storeNode⟩) := by
  rw [storeNode, Node.map, Node.mapPlural_eq_map]
  rfl

lemma storeNode_select (arg : String) (cases : List (Branch String LiveNode)) :
    storeNode (.select arg cases) =
      .select arg (cases.map fun c => ⟨c.key, c.body.map storeNode⟩) := by
  rw [storeNode, Node.map, Node.mapSelect_eq_map]
  rfl

/-- A choice passes the check if it has a case for all other values, or fails it. -/
lemma yields_checkOther {α ν : Type} (arg : String) {cases : List α} {key : α → String}
    {body : α → List ν}
    (h : (∃ c ∈ cases, key c = "other") ∨ ∀ arg, kind (.invalid (.noOther arg))) :
    Yields kind () (checkOther arg (cases.map fun c => ⟨key c, body c⟩)) := by
  rcases h with ⟨c, hc, hkey⟩ | hkind
  · exact .inl (checkOther_of_mem arg
      (List.mem_map_of_mem (f := fun c => Branch.mk (key c) (body c)) hc) hkey)
  · rw [checkOther]
    split
    · exact .ok ()
    · exact .error () (hkind arg)

lemma yields_linkNodes {nodes : List LiveNode}
    (h : ∀ node ∈ nodes, Yields kind (node.map f g id) (linkNode linking (storeNode node))) :
    Yields kind (nodes.map (Node.map f g id)) (linkNodes linking (nodes.map storeNode)) := by
  induction nodes with
  | nil =>
      rw [List.map_nil, List.map_nil, linkNodes]
      exact .ok _
  | cons node rest ih =>
      obtain ⟨hnode, hrest⟩ := List.forall_mem_cons.mp h
      rw [List.map_cons, List.map_cons, linkNodes]
      exact hnode.bind ((ih hrest).bind (.ok _))

lemma yields_linkPlural {cases : List (Branch Key LiveNode)}
    (hkeys : ∀ c ∈ cases, ∃ text, Key.ofText? text = some c.key)
    (h : ∀ c ∈ cases, ∀ node ∈ c.body,
      Yields kind (node.map f g id) (linkNode linking (storeNode node))) :
    Yields kind (cases.map fun c => ⟨c.key, c.body.map (Node.map f g id)⟩)
      (linkPlural linking (cases.map fun c => ⟨c.key.text, c.body.map storeNode⟩)) := by
  induction cases with
  | nil =>
      rw [List.map_nil, List.map_nil, linkPlural]
      exact .ok _
  | cons c rest ih =>
      obtain ⟨⟨text, hkey⟩, hkeys⟩ := List.forall_mem_cons.mp hkeys
      obtain ⟨hbody, hrest⟩ := List.forall_mem_cons.mp h
      rw [List.map_cons, List.map_cons, linkPlural, linkKey_text hkey]
      exact (Yields.ok c.key).bind ((yields_linkNodes hbody).bind ((ih hkeys hrest).bind (.ok _)))

lemma yields_linkSelect {cases : List (Branch String LiveNode)}
    (h : ∀ c ∈ cases, ∀ node ∈ c.body,
      Yields kind (node.map f g id) (linkNode linking (storeNode node))) :
    Yields kind (cases.map fun c => ⟨c.key, c.body.map (Node.map f g id)⟩)
      (linkSelect linking (cases.map fun c => ⟨c.key, c.body.map storeNode⟩)) := by
  induction cases with
  | nil =>
      rw [List.map_nil, List.map_nil, linkSelect]
      exact .ok _
  | cons c rest ih =>
      obtain ⟨hbody, hrest⟩ := List.forall_mem_cons.mp h
      rw [List.map_cons, List.map_cons, linkSelect]
      exact (yields_linkNodes hbody).bind ((ih hrest).bind (.ok _))

/-- **The stored form of a node is linked to the node** with the rules and formatters that the
linking has in the places of its own, unless there is an error of the kind that the linking has. -/
theorem yields_linkNode (node : LiveNode) :
    node.All (fun n => n.KeysRead ∧ (n.HasOther ∨ ∀ arg, kind (.invalid (.noOther arg)))) →
    (∀ x ∈ node.formatters, Yields kind (f x) (linking.formatter x.reference)) →
    (∀ r ∈ node.rules, Yields kind (g r) (linking.rule r.locale)) →
      Yields kind (node.map f g id) (linkNode linking (storeNode node)) := by
  induction node using Node.innerInd with
  | h node ih =>
    intro hall hformatters hrules
    obtain ⟨⟨hkeys, hother⟩, hall⟩ := Node.all_iff_inner.mp hall
    have hinner : ∀ tree ∈ node.inner,
        Yields kind (tree.map f g id) (linkNode linking (storeNode tree)) :=
      fun tree htree => ih tree htree (hall tree htree)
        (fun x hx => hformatters x (Node.formatters_subset_of_inner htree hx))
        fun r hr => hrules r (Node.rules_subset_of_inner htree hr)
    -- What the node itself needs comes first, then the check of a choice, then what is inside.
    cases node with
    | call arg formatter locale style =>
        rw [storeNode, Node.map, Node.map, linkNode]
        exact (hformatters formatter List.mem_cons_self).bind (.ok _)
    | plural arg counts offset rule cases =>
        have hbranches := yields_linkPlural hkeys fun c hc tree htree =>
          hinner tree (List.mem_flatMap.mpr ⟨c, hc, htree⟩)
        have hcheck : Yields kind () (checkOther arg
            (cases.map fun c => Branch.mk c.key.text (c.body.map storeNode))) := by
          refine yields_checkOther arg (hother.imp_left ?_)
          rintro ⟨c, hc, hkey⟩
          exact ⟨c, hc, by rw [hkey, Key.text]⟩
        rw [storeNode_plural, linkNode, Node.map, Node.mapPlural_eq_map]
        exact (hrules rule List.mem_cons_self).bind (hcheck.bind (hbranches.bind (.ok _)))
    | select arg cases =>
        have hbranches := yields_linkSelect fun c hc tree htree =>
          hinner tree (List.mem_flatMap.mpr ⟨c, hc, htree⟩)
        have hcheck : Yields kind () (checkOther arg
            (cases.map fun c => Branch.mk c.key (c.body.map storeNode))) :=
          yields_checkOther arg hother
        rw [storeNode_select, linkNode, Node.map, Node.mapSelect_eq_map]
        exact hcheck.bind (hbranches.bind (.ok _))
    | isolate tree =>
        have htree := hinner tree List.mem_cons_self
        rw [storeNode] at htree
        rw [storeNode, Node.map, Node.map, linkNode]
        exact htree.bind (.ok _)
    | _ =>
        simp only [storeNode, Node.map, linkNode]
        exact .ok _

end Link

section Bundles

variable {linking : Linking} {b : Bundle LiveMessage} {f : Formatter → Formatter} {g : Rule → Rule}

lemma mem_rulesOf {m : LiveMessage} (hm : m ∈ b.items) {node : LiveNode} (hnode : node ∈ m.nodes)
    {rule : Rule} (hrule : rule ∈ node.rules) : rule ∈ rulesOf b := by
  refine List.mem_flatMap.mpr ⟨m, hm, ?_⟩
  rw [Node.rulesOfAll_eq]
  exact List.mem_flatMap.mpr ⟨node, hnode, hrule⟩

lemma mem_formattersOf {m : LiveMessage} (hm : m ∈ b.items) {node : LiveNode}
    (hnode : node ∈ m.nodes) {formatter : Formatter} (hformatter : formatter ∈ node.formatters) :
    formatter ∈ formattersOf b := by
  refine List.mem_flatMap.mpr ⟨m, hm, ?_⟩
  rw [Node.formattersOfAll_eq]
  exact List.mem_flatMap.mpr ⟨node, hnode, hformatter⟩

/-- **The stored form of a bundle is linked to the bundle** with the rules and formatters that the
linking has in the places of its own, unless there is an error of the kind that the linking has. -/
theorem yields_linkBundle {kind : LoadError → Prop}
    (hnodes : ∀ m ∈ b.items, Node.AllOf
      (fun n => n.KeysRead ∧ (n.HasOther ∨ ∀ arg, kind (.invalid (.noOther arg)))) m.nodes)
    (hformatters : ∀ x ∈ formattersOf b, Yields kind (f x) (linking.formatter x.reference))
    (hrules : ∀ r ∈ rulesOf b, Yields kind (g r) (linking.rule r.locale)) :
    Yields kind (b.map (Message.mapNodes f g id)) (linkBundle linking (store b)) := by
  refine Bundle.yields_traverse b () fun _ m hm => ?_
  have hlinked : Yields kind (m.nodes.map (Node.map f g id))
      (linkNodes linking (m.nodes.map storeNode)) :=
    yields_linkNodes fun node hnode => yields_linkNode node
      (Node.allOf_iff.mp (hnodes m hm) node hnode)
      (fun x hx => hformatters x (mem_formattersOf hm hnode hx))
      fun r hr => hrules r (mem_rulesOf hm hnode hr)
  have hstored : (m.mapNodes Formatter.reference Rule.locale Key.text).nodes =
      m.nodes.map storeNode := Node.mapAll_eq_map m.nodes
  have hlive : m.mapNodes f g id = ⟨m.locale, m.nodes.map (Node.map f g id)⟩ := by
    rw [Message.mapNodes, Node.mapAll_eq_map]
  rw [linkMessage, hstored, hlive]
  exact hlinked.bind (.ok _)

/-- There is none if choices are complete and the linking has all rules and formatters. -/
theorem linkBundle_map (hmade : ∀ m ∈ b.items, Node.AllOf Node.Made m.nodes)
    (hformatters : ∀ x ∈ formattersOf b, linking.formatter x.reference = .ok (f x))
    (hrules : ∀ r ∈ rulesOf b, linking.rule r.locale = .ok (g r)) :
    linkBundle linking (store b) = .ok (b.map (Message.mapNodes f g id)) := by
  refine yields_false_iff.mp (yields_linkBundle (fun m hm => ?_)
    (fun x hx => yields_false_iff.mpr (hformatters x hx))
    fun r hr => yields_false_iff.mpr (hrules r hr))
  exact Node.AllOf.imp (fun _ h => ⟨h.keysRead, .inl h.hasOther⟩) m.nodes (hmade m hm)

/-- Messages are alike if the rules and formatters of the one work like those of the other. -/
lemma alike_mapNodes {m : LiveMessage} (hm : m ∈ b.items)
    (hformatters : ∀ x ∈ formattersOf b, (f x).WorksLike x)
    (hrules : ∀ r ∈ rulesOf b, (g r).PicksLike r) : (m.mapNodes f g id).Alike m := by
  have halike : ∀ node ∈ m.nodes, (node.map f g id).Alike node := fun node hnode =>
    node.alike_map (fun x hx => hformatters x (mem_formattersOf hm hnode hx))
      fun r hr => hrules r (mem_rulesOf hm hnode hr)
  constructor
  · simp only [Message.shape, Message.mapNodes, Node.mapAll_eq_map, List.map_map]
    exact congrArg _ (List.map_congr_left fun node hnode => (halike node hnode).1)
  · intro args
    simp only [Message.format, Message.mapNodes, Node.mapAll_eq_map]
    exact Node.renderAll_map fun node hnode => (halike node hnode).2 args

/-- **The stored form of a bundle is linked to a bundle of messages that are alike.** -/
theorem linkBundle_store (hmade : ∀ m ∈ b.items, Node.AllOf Node.Made m.nodes)
    (hserves : linking.Serves (rulesOf b) (formattersOf b)) :
    ∃ f : LiveMessage → LiveMessage, linkBundle linking (store b) = .ok (b.map f) ∧
      ∀ m ∈ b.items, (f m).Alike m := by
  have hformatter (x : Formatter) : ∃ given, x ∈ formattersOf b →
      linking.formatter x.reference = .ok given ∧ given.WorksLike x := by
    by_cases hx : x ∈ formattersOf b
    · exact (hserves.formatter x hx).imp fun _ h _ => h
    · exact ⟨x, fun h => absurd h hx⟩
  have hrule (r : Rule) : ∃ given, r ∈ rulesOf b →
      linking.rule r.locale = .ok given ∧ given.PicksLike r := by
    by_cases hr : r ∈ rulesOf b
    · exact (hserves.rule r hr).imp fun _ h _ => h
    · exact ⟨r, fun h => absurd h hr⟩
  choose f hf using hformatter
  choose g hg using hrule
  refine ⟨Message.mapNodes f g id, ?_, fun m hm => ?_⟩
  · exact linkBundle_map hmade (fun x hx => (hf x hx).1) fun r hr => (hg r hr).1
  · exact alike_mapNodes hm (fun x hx => (hf x hx).2) fun r hr => (hg r hr).2

end Bundles

end Module

end MessageCatalog
