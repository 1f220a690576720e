/-
What messages with complete choices answer.

* `Node.HasOther`: a choice has a case for all other values;
* `Node.Decides`, `decides_of_hasOther`: such a choice picks one of its cases for every value;
* `Node.strictArgs`: the arguments on whose numbers a tree insists;
* `answersAll_renderAll`: the nodes of a message have a text, or one of these arguments is no
  number;
* `Message.Sound`, `sound_of_hasOther`: all of this together.
-/
import MessageCatalog.Message.Render
import MessageCatalog.Proofs.Except
import MessageCatalog.Proofs.Message.Compiled

namespace MessageCatalog

open Plural (Key Kind Rule)

/-! ### Picking a case -/

section Choices

variable {κ α : Type}

lemma caseOf?_isSome [BEq κ] [LawfulBEq κ] {key : κ} {cases : List (κ × α)}
    (h : ∃ c ∈ cases, c.1 = key) : (caseOf? key cases).isSome := by
  obtain ⟨c, hc, rfl⟩ := h
  rw [caseOf?, Option.isSome_map, List.find?_isSome]
  exact ⟨c, hc, beq_self_eq_true c.1⟩

lemma mem_of_caseOf? [BEq κ] {key : κ} {cases : List (κ × α)} {a : α}
    (h : caseOf? key cases = some a) : ∃ c ∈ cases, c.2 = a := by
  obtain ⟨c, hc, rfl⟩ := Option.map_eq_some_iff.mp h
  exact ⟨c, List.mem_of_find?_eq_some hc, rfl⟩

/-- With a case for all other values, a number has a case. -/
lemma choosePluralByNumber_isSome {cases : List (Key × α)}
    (h : ∃ c ∈ cases, c.1 = .label "other") (x : Float) (kind : Kind) (rule : Rule) :
    (choosePluralByNumber x kind rule cases).isSome := by
  rw [choosePluralByNumber]
  split
  · rfl
  · split
    · rfl
    · exact caseOf?_isSome h

/-- With a case for all other values, every value has a case. -/
lemma choosePlural_isSome {cases : List (Key × α)} (h : ∃ c ∈ cases, c.1 = .label "other")
    (value : Value) (kind : Kind) (offset : Float) (rule : Rule) :
    (choosePlural value kind offset rule cases).isSome := by
  rw [choosePlural]
  split
  · exact choosePluralByNumber_isSome h _ kind rule
  · exact caseOf?_isSome h

/-- With a case for all other values, every value has a case. -/
lemma chooseSelect_isSome {cases : List (String × α)} (h : ∃ c ∈ cases, c.1 = "other")
    (value : Value) : (chooseSelect value cases).isSome := by
  simp only [chooseSelect]
  split
  · rfl
  · exact caseOf?_isSome h

/-- What is picked is one of the cases. -/
lemma mem_of_choosePlural {value : Value} {kind : Kind} {offset : Float} {rule : Rule}
    {cases : List (Key × α)} {a : α} (h : choosePlural value kind offset rule cases = some a) :
    ∃ c ∈ cases, c.2 = a := by
  rw [choosePlural] at h
  split at h
  · rw [choosePluralByNumber] at h
    split at h
    · rename_i heq
      obtain ⟨n, _, hcase⟩ := Option.bind_eq_some_iff.mp heq
      exact mem_of_caseOf? (hcase.trans h)
    · split at h
      · rename_i heq
        exact mem_of_caseOf? (heq.trans h)
      · exact mem_of_caseOf? h
  · exact mem_of_caseOf? h

/-- What is picked is one of the cases. -/
lemma mem_of_chooseSelect {value : Value} {cases : List (String × α)} {a : α}
    (h : chooseSelect value cases = some a) : ∃ c ∈ cases, c.2 = a := by
  simp only [chooseSelect] at h
  split at h
  · rename_i heq
    split at heq
    · cases heq
    · exact mem_of_caseOf? (heq.trans h)
  · exact mem_of_caseOf? h

/-- A choice keeps its keys when its branches are rendered. -/
lemma exists_key_map {ν : Type} {cases : List (Branch κ ν)} {key : κ}
    (h : ∃ c ∈ cases, c.key = key) (f : Branch κ ν → α) :
    ∃ c ∈ cases.map fun c => (c.key, f c), c.1 = key := by
  obtain ⟨c, hc, rfl⟩ := h
  exact ⟨_, List.mem_map_of_mem hc, rfl⟩

end Choices

namespace Node

/-! ### Choices that decide -/

/-- A choice has a case for all other values. -/
def HasOther : LiveNode → Prop
  | .plural _ _ _ _ cases => ∃ c ∈ cases, c.key = .label "other"
  | .select _ cases => ∃ c ∈ cases, c.key = "other"
  | _ => True

lemma Made.hasOther {node : LiveNode} (h : node.Made) : node.HasOther := by
  cases node with
  | plural arg kind offset rule cases => exact h.2.1
  | select arg cases => exact h.2
  | _ => trivial

/-- A choice picks one of its cases for every value. -/
def Decides : LiveNode → Prop
  | .plural _ kind offset rule cases =>
    ∀ value, (choosePlural value kind offset rule (renderPlural cases)).isSome
  | .select _ cases => ∀ value, (chooseSelect value (renderSelect cases)).isSome
  | _ => True

/-- Nodes say the same with each of them replaced by one that says the same. -/
lemma renderAll_map {f : LiveNode → LiveNode} {nodes : List LiveNode} {args : Arguments}
    (h : ∀ node ∈ nodes, (f node).render args = node.render args) :
    renderAll (nodes.map f) args = renderAll nodes args := by
  induction nodes with
  | nil => rfl
  | cons node rest ih =>
      obtain ⟨hnode, hrest⟩ := List.forall_mem_cons.mp h
      rw [List.map_cons, renderAll, renderAll, hnode, ih hrest]

lemma renderPlural_eq_map (cases : List (Branch Key LiveNode)) :
    renderPlural cases = cases.map fun c => (c.key, fun args => renderAll c.body args) := by
  induction cases with
  | nil => rfl
  | cons c rest ih => rw [renderPlural, ih, List.map_cons]

lemma renderSelect_eq_map (cases : List (Branch String LiveNode)) :
    renderSelect cases = cases.map fun c => (c.key, fun args => renderAll c.body args) := by
  induction cases with
  | nil => rfl
  | cons c rest ih => rw [renderSelect, ih, List.map_cons]

/-- **A choice with a case for all other values picks a case for every value.** -/
theorem decides_of_hasOther {node : LiveNode} (h : node.HasOther) : node.Decides := by
  cases node with
  | plural arg kind offset rule cases =>
      intro value
      rw [renderPlural_eq_map]
      exact choosePlural_isSome (exists_key_map h _) value kind offset rule
  | select arg cases =>
      intro value
      rw [renderSelect_eq_map]
      exact chooseSelect_isSome (exists_key_map h _) value
  | _ => trivial

/-! ### Strict number signs -/

mutual

/-- The arguments of the strict number signs in a node. -/
def strictArgs : LiveNode → List String
  | .numberSign arg _ strict => if strict then [arg] else []
  | .plural _ _ _ _ cases => strictArgsOfPlural cases
  | .select _ cases => strictArgsOfSelect cases
  | .isolate inner => inner.strictArgs
  | _ => []

/-- The arguments of the strict number signs in nodes. -/
def strictArgsOfAll : List LiveNode → List String
  | [] => []
  | node :: rest => node.strictArgs ++ strictArgsOfAll rest

/-- The arguments of the strict number signs in plural branches. -/
def strictArgsOfPlural : List (Branch Key LiveNode) → List String
  | [] => []
  | ⟨_, body⟩ :: rest => strictArgsOfAll body ++ strictArgsOfPlural rest

/-- The arguments of the strict number signs in select branches. -/
def strictArgsOfSelect : List (Branch String LiveNode) → List String
  | [] => []
  | ⟨_, body⟩ :: rest => strictArgsOfAll body ++ strictArgsOfSelect rest

end

end Node

/-! ### Answers -/

/-- A text, or the complaint that one of the given arguments counts as no number. -/
def Rendering.Answers (rendering : Rendering) (strict : List String) (args : Arguments) : Prop :=
  (∃ text, rendering = .ok text) ∨
    ∃ arg ∈ strict, (args.value arg).number? = none ∧
      rendering = .error (.notANumber arg (args.value arg).render)

section Answers

variable {rendering : Rendering} {strict more : List String} {args : Arguments}

lemma Rendering.Answers.ok (text : String) : Rendering.Answers (.ok text) strict args :=
  .inl ⟨text, rfl⟩

lemma Rendering.Answers.mono (h : rendering.Answers strict args) (hsub : strict ⊆ more) :
    rendering.Answers more args := by
  rcases h with h | ⟨arg, hmem, hnumber, heq⟩
  · exact .inl h
  · exact .inr ⟨arg, hsub hmem, hnumber, heq⟩

lemma Rendering.Answers.map (h : rendering.Answers strict args) (f : String → String) :
    Rendering.Answers (Except.map f rendering) strict args := by
  rcases h with ⟨text, rfl⟩ | ⟨arg, hmem, hnumber, rfl⟩
  · exact .inl ⟨f text, rfl⟩
  · exact .inr ⟨arg, hmem, hnumber, rfl⟩

/-- Two answers one after the other are an answer. -/
lemma Rendering.Answers.append {other : Rendering} (h : rendering.Answers strict args)
    (hother : other.Answers more args) :
    Rendering.Answers (do
      let first ← rendering
      let others ← other
      return first ++ others) (strict ++ more) args := by
  rcases h with ⟨text, rfl⟩ | ⟨arg, hmem, hnumber, rfl⟩
  · rcases hother with ⟨text', rfl⟩ | ⟨arg, hmem, hnumber, rfl⟩
    · exact .inl ⟨text ++ text', rfl⟩
    · exact .inr ⟨arg, List.mem_append_right _ hmem, hnumber, rfl⟩
  · exact .inr ⟨arg, List.mem_append_left _ hmem, hnumber, rfl⟩

lemma answers_renderNumberSign (arg : String) (offset : Float) (isStrict : Bool)
    (args : Arguments) :
    (renderNumberSign arg offset isStrict args).Answers (if isStrict then [arg] else []) args := by
  rw [renderNumberSign, ← Arguments.number?_value, ← Arguments.render_value]
  split
  · exact .ok _
  · rename_i hnumber
    cases isStrict with
    | false => exact .ok _
    | true => exact .inr ⟨arg, List.mem_singleton_self arg, hnumber, rfl⟩

/-- The case that was chosen answers if all cases do. -/
lemma answers_renderChosen {chosen : Option (Arguments → Rendering)}
    (h : ∀ body ∈ chosen, (body args).Answers strict args) :
    (renderChosen chosen args).Answers strict args := by
  cases chosen with
  | none => exact .ok ""
  | some body => exact h body rfl

end Answers

namespace Node

variable (args : Arguments)

mutual

/-- **A node has a text, or one of its strict number signs stands for no number.** -/
theorem answers_render : ∀ node : LiveNode, (node.render args).Answers node.strictArgs args
  | .text _ => by
      rw [render]
      exact .ok _
  | .argument _ => by
      rw [render]
      exact .ok _
  | .numberSign arg offset isStrict => by
      rw [render, strictArgs]
      exact answers_renderNumberSign arg offset isStrict args
  | .call _ _ _ _ => by
      rw [render]
      exact .ok _
  | .plural _ _ _ _ cases => by
      rw [render, strictArgs]
      refine answers_renderChosen fun body hbody => ?_
      obtain ⟨c, hc, rfl⟩ := mem_of_choosePlural hbody
      exact answers_renderPlural cases c hc
  | .select _ cases => by
      rw [render, strictArgs]
      refine answers_renderChosen fun body hbody => ?_
      obtain ⟨c, hc, rfl⟩ := mem_of_chooseSelect hbody
      exact answers_renderSelect cases c hc
  | .isolate inner => by
      rw [render, strictArgs]
      exact (answers_render inner).map isolated

theorem answers_renderAll : ∀ nodes : List LiveNode,
    (renderAll nodes args).Answers (strictArgsOfAll nodes) args
  | [] => by
      rw [renderAll]
      exact .ok _
  | node :: rest => by
      rw [renderAll, strictArgsOfAll]
      exact (answers_render node).append (answers_renderAll rest)

theorem answers_renderPlural : ∀ cases : List (Branch Key LiveNode),
    ∀ c ∈ renderPlural cases, (c.2 args).Answers (strictArgsOfPlural cases) args
  | [], c, hc => by
      rw [renderPlural] at hc
      cases hc
  | ⟨key, body⟩ :: rest, c, hc => by
      rw [renderPlural] at hc
      rw [strictArgsOfPlural]
      rcases List.mem_cons.mp hc with rfl | hc
      · exact (answers_renderAll body).mono (List.subset_append_left _ _)
      · exact (answers_renderPlural rest c hc).mono (List.subset_append_right _ _)

theorem answers_renderSelect : ∀ cases : List (Branch String LiveNode),
    ∀ c ∈ renderSelect cases, (c.2 args).Answers (strictArgsOfSelect cases) args
  | [], c, hc => by
      rw [renderSelect] at hc
      cases hc
  | ⟨key, body⟩ :: rest, c, hc => by
      rw [renderSelect] at hc
      rw [strictArgsOfSelect]
      rcases List.mem_cons.mp hc with rfl | hc
      · exact (answers_renderAll body).mono (List.subset_append_left _ _)
      · exact (answers_renderSelect rest c hc).mono (List.subset_append_right _ _)

end

end Node

/-! ### Messages -/

/-- A message whose choices are complete at every depth: none of them is without a case for some
value, and there is no other error than that a strict number sign stands for no number. -/
structure Message.Sound (m : LiveMessage) : Prop where
  other : Node.AllOf Node.HasOther m.nodes
  decides : Node.AllOf Node.Decides m.nodes
  answers : ∀ args, (m.format args).Answers (Node.strictArgsOfAll m.nodes) args

/-- **A message is sound if each of its choices has a case for all other values.** -/
theorem Message.sound_of_hasOther {m : LiveMessage} (h : Node.AllOf Node.HasOther m.nodes) :
    m.Sound :=
  ⟨h, Node.AllOf.imp (fun _ hnode => Node.decides_of_hasOther hnode) m.nodes h,
    fun args => Node.answers_renderAll args m.nodes⟩

/-- The messages that are compiled are sound. -/
theorem Message.sound_of_made {m : LiveMessage} (h : Node.AllOf Node.Made m.nodes) : m.Sound :=
  sound_of_hasOther (Node.AllOf.imp (fun _ hnode => hnode.hasOther) m.nodes h)

end MessageCatalog
