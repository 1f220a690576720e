/-
The order of cases does not matter.

A choice finds its cases by their keys, and patterns that can be read have no key twice in one
choice. So the cases of any choices, at any depth, may be put in another order, and the message says
the same.

* `Node.Reordered`: a tree with the cases of its choices in another order, for example with all of
  them arranged by `Node.arrange`;
* `Node.Distinct`, `all_distinct_message`: no choice of a message has a key twice;
* `Reordered.render`: so a tree says the same in another order;
* `message_reordered`: and so does a message.
-/
import MessageCatalog.Proofs.Message.Branches
import MessageCatalog.Proofs.Message.Choice
import MessageCatalog.Proofs.Pattern.Acceptance

namespace MessageCatalog

open Pattern (Element Span)
open Plural (Key Kind Rule)

/-! ### Trees in another order -/

namespace Node

mutual

/-- A node with the cases of its choices in another order, at any depth. -/
inductive Reordered : LiveNode → LiveNode → Prop where
  | refl (node : LiveNode) : Reordered node node
  | plural {arg kind offset rule cases others} : ReorderedCases cases others →
      Reordered (.plural arg kind offset rule cases) (.plural arg kind offset rule others)
  | select {arg cases others} : ReorderedCases cases others →
      Reordered (.select arg cases) (.select arg others)
  | isolate {inner other} : Reordered inner other → Reordered (.isolate inner) (.isolate other)

/-- Nodes, each with the cases of its choices in another order. -/
inductive ReorderedAll : List LiveNode → List LiveNode → Prop where
  | nil : ReorderedAll [] []
  | cons {node other rest others} : Reordered node other → ReorderedAll rest others →
      ReorderedAll (node :: rest) (other :: others)

/-- Cases in another order, and with the cases of the choices in them in another order. -/
inductive ReorderedCases : {κ : Type} → List (Branch κ LiveNode) → List (Branch κ LiveNode) → Prop
    where
  | nil {κ} : ReorderedCases ([] : List (Branch κ LiveNode)) []
  | cons {κ body other} {key : κ} {rest others : List (Branch κ LiveNode)} :
      ReorderedAll body other → ReorderedCases rest others →
      ReorderedCases (⟨key, body⟩ :: rest) (⟨key, other⟩ :: others)
  | perm {κ} {cases others reordered : List (Branch κ LiveNode)} : ReorderedCases cases others →
      others.Perm reordered → ReorderedCases cases reordered

end

/-- Cases in another order have the same keys. -/
lemma ReorderedCases.keys_perm : ∀ {κ : Type} {cases others : List (Branch κ LiveNode)},
    ReorderedCases cases others → (cases.map (·.key)).Perm (others.map (·.key))
  | _, _, _, .nil => .nil
  | _, _, _, .cons _ hrest => hrest.keys_perm.cons _
  | _, _, _, .perm h hperm => h.keys_perm.trans (hperm.map _)

/-! ### Trees arranged -/

section Arrange

variable (f : ∀ {κ : Type}, List (Branch κ LiveNode) → List (Branch κ LiveNode))

mutual

/-- The node with the cases of all its choices arranged, at every depth. -/
def arrange : LiveNode → LiveNode
  | .plural arg kind offset rule cases => .plural arg kind offset rule (f (arrangePlural cases))
  | .select arg cases => .select arg (f (arrangeSelect cases))
  | .isolate inner => .isolate (arrange inner)
  | node => node

/-- The nodes with the cases of all their choices arranged. -/
def arrangeAll : List LiveNode → List LiveNode
  | [] => []
  | node :: rest => arrange node :: arrangeAll rest

/-- The plural branches with the cases of all choices in them arranged. -/
def arrangePlural : List (Branch Key LiveNode) → List (Branch Key LiveNode)
  | [] => []
  | ⟨key, body⟩ :: rest => ⟨key, arrangeAll body⟩ :: arrangePlural rest

/-- The select branches with the cases of all choices in them arranged. -/
def arrangeSelect : List (Branch String LiveNode) → List (Branch String LiveNode)
  | [] => []
  | ⟨key, body⟩ :: rest => ⟨key, arrangeAll body⟩ :: arrangeSelect rest

end

variable {f}

mutual

/-- A tree whose cases are arranged is a tree in another order, if nothing is added or lost. -/
theorem reordered_arrange
    (hf : ∀ {κ : Type} (cases : List (Branch κ LiveNode)), cases.Perm (f cases)) :
    ∀ node : LiveNode, Reordered node (arrange f node)
  | .plural _ _ _ _ cases => by
      rw [arrange]
      exact .plural (.perm (reordered_arrangePlural hf cases) (hf _))
  | .select _ cases => by
      rw [arrange]
      exact .select (.perm (reordered_arrangeSelect hf cases) (hf _))
  | .isolate inner => by
      rw [arrange]
      exact .isolate (reordered_arrange hf inner)
  | .text _ => .refl _
  | .argument _ => .refl _
  | .numberSign _ _ _ => .refl _
  | .call _ _ _ _ => .refl _

theorem reordered_arrangeAll
    (hf : ∀ {κ : Type} (cases : List (Branch κ LiveNode)), cases.Perm (f cases)) :
    ∀ nodes : List LiveNode, ReorderedAll nodes (arrangeAll f nodes)
  | [] => .nil
  | node :: rest => by
      rw [arrangeAll]
      exact .cons (reordered_arrange hf node) (reordered_arrangeAll hf rest)

theorem reordered_arrangePlural
    (hf : ∀ {κ : Type} (cases : List (Branch κ LiveNode)), cases.Perm (f cases)) :
    ∀ cases : List (Branch Key LiveNode), ReorderedCases cases (arrangePlural f cases)
  | [] => .nil
  | ⟨_, body⟩ :: rest => by
      rw [arrangePlural]
      exact .cons (reordered_arrangeAll hf body) (reordered_arrangePlural hf rest)

theorem reordered_arrangeSelect
    (hf : ∀ {κ : Type} (cases : List (Branch κ LiveNode)), cases.Perm (f cases)) :
    ∀ cases : List (Branch String LiveNode), ReorderedCases cases (arrangeSelect f cases)
  | [] => .nil
  | ⟨_, body⟩ :: rest => by
      rw [arrangeSelect]
      exact .cons (reordered_arrangeAll hf body) (reordered_arrangeSelect hf rest)

end

end Arrange

/-! ### Distinct keys -/

/-- No two cases of a choice have the same key. -/
def Distinct : LiveNode → Prop
  | .plural _ _ _ _ cases => (cases.map (·.key)).Nodup
  | .select _ cases => (cases.map (·.key)).Nodup
  | _ => True

end Node

/-- Well-formed elements give choices without a key that occurs twice. -/
lemma carries_distinct {σ : Type} {context : Context} : Compile.Carries context
    (fun _ (e : Element σ) => ∃ inPlural, e.WellFormed inPlural) (fun _ node => node.Distinct) where
  text _ _ := trivial
  isolate _ _ := trivial
  argument _ := trivial
  call _ _ := trivial
  numberSign _ := trivial
  plural hq _ hkeys := by
    obtain ⟨_, hwell⟩ := hq
    cases hwell with
    | plural _ _ hnodup => rwa [← hkeys] at hnodup
  select hq hkeys := by
    obtain ⟨_, hwell⟩ := hq
    cases hwell with
    | select _ hnodup => rwa [← hkeys] at hnodup
  pluralBody := fun ⟨_, hwell⟩ c hc e he =>
    ⟨true, (hwell.isMessage_of_plural c hc).wellFormed e he⟩
  selectBody := fun ⟨inPlural, hwell⟩ c hc e he =>
    ⟨inPlural, (hwell.isMessage_of_select c hc).wellFormed e he⟩

/-- No choice of a message that was read from a text has a key twice. -/
theorem all_distinct_message {context : Context} {text : String} {pattern : List (Element Span)}
    {m : LiveMessage} (hparse : Pattern.parse text = .ok pattern)
    (hm : Compile.message context pattern = .ok m) : Node.AllOf Node.Distinct m.nodes :=
  carries_distinct.allOf (fun _ _ hnode => hnode.here)
    (fun e he => ⟨false, (Pattern.isMessage_of_parse hparse).wellFormed e he⟩) hm

/-! ### What they say -/

namespace Node

variable {args : Arguments}

/-- What each case says, under its key. -/
def saidCases {κ : Type} (args : Arguments) (cases : List (Branch κ LiveNode)) :
    List (κ × Rendering) :=
  cases.map fun c => (c.key, renderAll c.body args)

lemma saidCases_keys {κ : Type} (cases : List (Branch κ LiveNode)) :
    (saidCases args cases).map (·.1) = cases.map (·.key) := by
  rw [saidCases, List.map_map]
  rfl

/-- A plural says what is said under the key that it picks. -/
lemma render_plural_said (arg : String) (kind : Kind) (offset : Float) (rule : Rule)
    (cases : List (Branch Key LiveNode)) :
    (plural arg kind offset rule cases : LiveNode).render args =
      (choosePlural (args.value arg) kind offset rule (saidCases args cases)).getD (.ok "") := by
  rw [render_plural, saidCases, choosePlural_branches]
  cases pickPlural args arg kind offset rule cases <;> rfl

/-- A select says what is said under the key that it picks. -/
lemma render_select_said (arg : String) (cases : List (Branch String LiveNode)) :
    (select arg cases : LiveNode).render args =
      (chooseSelect (args.value arg) (saidCases args cases)).getD (.ok "") := by
  rw [render_select, saidCases, chooseSelect_branches]
  cases pickSelect args arg cases <;> rfl

mutual

/-- **A tree without a key that occurs twice in a choice says the same in another order.** -/
theorem Reordered.render : ∀ {node other : LiveNode}, Reordered node other → node.All Distinct →
    node.render args = other.render args
  | _, _, .refl _, _ => rfl
  | _, _, .plural hcases, hdistinct => by
      rw [All, allPlural_iff] at hdistinct
      rw [render_plural_said, render_plural_said,
        choosePlural_of_caseOf? (hcases.said hdistinct.1 hdistinct.2)]
  | _, _, .select hcases, hdistinct => by
      rw [All, allSelect_iff] at hdistinct
      rw [render_select_said, render_select_said,
        chooseSelect_of_caseOf? (hcases.said hdistinct.1 hdistinct.2)]
  | _, _, .isolate hinner, hdistinct => by
      rw [All] at hdistinct
      rw [Node.render, Node.render, hinner.render hdistinct.2]

theorem ReorderedAll.render : ∀ {nodes others : List LiveNode}, ReorderedAll nodes others →
    AllOf Distinct nodes → renderAll nodes args = renderAll others args
  | _, _, .nil, _ => rfl
  | _, _, .cons hnode hrest, hdistinct => by
      rw [AllOf] at hdistinct
      rw [renderAll, renderAll, hnode.render hdistinct.1, hrest.render hdistinct.2]

/-- Under each key the same is said. -/
theorem ReorderedCases.said : ∀ {κ : Type} [BEq κ] [LawfulBEq κ]
    {cases others : List (Branch κ LiveNode)}, ReorderedCases cases others →
    (cases.map (·.key)).Nodup → (∀ c ∈ cases, AllOf Distinct c.body) →
    ∀ key, caseOf? key (saidCases args cases) = caseOf? key (saidCases args others)
  | _, _, _, _, _, .nil, _, _, _ => rfl
  | _, _, _, _, _, .cons hbody hrest, hkeys, hdistinct, key => by
      obtain ⟨hfirst, hrest'⟩ := List.forall_mem_cons.mp hdistinct
      have hsaid := hrest.said (List.nodup_cons.mp hkeys).2 hrest' key
      rw [saidCases, saidCases, List.map_cons, List.map_cons, caseOf?_cons, caseOf?_cons,
        hbody.render hfirst]
      congr 1
  | _, _, _, _, _, .perm h hperm, hkeys, hdistinct, key => by
      rw [h.said hkeys hdistinct key]
      have hothers := h.keys_perm.nodup_iff.mp hkeys
      exact caseOf?_perm (by rwa [saidCases_keys]) (hperm.map _)

end

end Node

/-! ### Messages -/

/-- **The order of cases does not matter.** A message that was read from a text says the same, or
has the same error, with the cases of its choices in any other order, at any depth. -/
theorem message_reordered {context : Context} {text : String} {pattern : List (Element Span)}
    {m m' : LiveMessage} (hparse : Pattern.parse text = .ok pattern)
    (hm : Compile.message context pattern = .ok m) (h : Node.ReorderedAll m.nodes m'.nodes)
    (args : Arguments) : m'.format args = m.format args :=
  (h.render (all_distinct_message hparse hm)).symm

/-- The case of an exact number is found behind the case of its category, and the choice in it, too,
finds its cases in reverse order. -/
theorem message_reordered_english :
    let context : Context := ⟨"en", Plural.Family.english.rule "en", ⟨[], none⟩, false, false⟩
    let text := "{n, plural, =1{a {g, select, x{X} other{-}}} one{b} other{c}}"
    let args : Arguments := .ofPairs [("n", .num 1), ("g", .text "x")]
    ∃ pattern m, Pattern.parse text = .ok pattern ∧ Compile.message context pattern = .ok m ∧
      Node.ReorderedAll m.nodes (Node.arrangeAll List.reverse m.nodes) ∧
      m.format args = .ok "a X" ∧
      Message.format ⟨"en", Node.arrangeAll List.reverse m.nodes⟩ args = .ok "a X" := by
  intro context text args
  have hok : passes (fun pattern => passes (fun m : LiveMessage =>
      decide (m.format args = .ok "a X")) (Compile.message context pattern))
      (Pattern.parse text) = true := by
    decide +kernel
  obtain ⟨pattern, hparse, hok⟩ := passes_eq_true hok
  obtain ⟨m, hm, hformat⟩ := passes_eq_true hok
  have hformat := of_decide_eq_true hformat
  have hreordered := Node.reordered_arrangeAll
    (fun cases => (List.reverse_perm cases).symm) m.nodes
  let m' : LiveMessage := ⟨"en", Node.arrangeAll List.reverse m.nodes⟩
  have hsame : m'.format args = m.format args := message_reordered hparse hm hreordered args
  exact ⟨pattern, m, hparse, hm, hreordered, hformat, hsame.trans hformat⟩

end MessageCatalog
