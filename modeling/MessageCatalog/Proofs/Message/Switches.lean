/-
Compiling patterns with other switches.

A compiler may check keys or not, insist on numbers or not, and isolate what it interpolates or not.
None of this changes which nodes a pattern has, but only what these nodes are like.

* `Follows`: a computation with the result of another one, changed, or with its error, unless that
  error may go away;
* `Switches`, `Context.switch`: what is switched, and a context with other switches;
* `Node.recast`: a node as other switches make it;
* `Switches.Relates`: a relation between what is said under some switches and under others, which
  holds of all nodes if it holds of number signs and of isolated texts;
* `follows_message`: with other switches, a pattern has the same message, recast, or the same error.
-/
import MessageCatalog.Proofs.Message.Branches

namespace MessageCatalog

open Pattern (Case Element)
open Plural (Key Kind Rule)

/-! ### Computations that follow others -/

section Follows

variable {ε ε' α α' β β' : Type}

/-- The second computation has the result of the first one, changed. If the first one has an error,
then either the error is one that may go away, or the second one has it too. -/
def Follows (f : α → β) (spared : ε → Prop) (x : Except ε α) (y : Except ε β) : Prop :=
  (∀ a, x = .ok a → y = .ok (f a)) ∧ ∀ e, x = .error e → spared e ∨ y = .error e

variable {f : α → β} {f' : α' → β'} {spared : ε → Prop} {x : Except ε α} {y : Except ε β}

lemma Follows.ok {a : α} {b : β} (h : f a = b) : Follows f spared (.ok a) (.ok b) := by
  refine ⟨fun a' ha => ?_, fun e he => nomatch he⟩
  obtain rfl := Except.ok.inj ha
  rw [h]

lemma Follows.error (e : ε) : Follows f spared (.error e) (.error e) := by
  refine ⟨fun a h => (nomatch h), fun e' h => ?_⟩
  obtain rfl := Except.error.inj h
  exact .inr rfl

lemma Follows.refl (x : Except ε α) : Follows id spared x x :=
  ⟨fun _ h => h, fun _ h => .inr h⟩

/-- Two computations in a row follow two others in a row. -/
lemma Follows.bind {k : α → Except ε α'} {k' : β → Except ε β'} (h : Follows f spared x y)
    (hk : ∀ a, x = .ok a → Follows f' spared (k a) (k' (f a))) :
    Follows f' spared (x >>= k) (y >>= k') := by
  cases x with
  | ok a =>
      rw [h.1 a rfl]
      exact hk a rfl
  | error e =>
      refine ⟨fun _ hx => (nomatch hx), fun e' hx => ?_⟩
      obtain rfl := Except.error.inj hx
      rcases h.2 e rfl with hspared | hy
      · exact .inl hspared
      · rw [hy]
        exact .inr rfl

lemma Follows.map {g : α → α'} {g' : β → β'} (h : Follows f spared x y)
    (hg : ∀ a, g' (f a) = f' (g a)) : Follows f' spared (x.map g) (y.map g') := by
  constructor
  · intro a' ha
    obtain ⟨a, rfl, rfl⟩ := map_eq_ok.mp ha
    rw [h.1 a rfl, ← hg]
    rfl
  · intro e he
    rw [map_eq_error] at he ⊢
    exact h.2 e he

lemma Follows.mapError {spared' : ε' → Prop} {g : ε → ε'} (h : Follows f spared x y)
    (hg : ∀ e, spared e → spared' (g e)) : Follows f spared' (x.mapError g) (y.mapError g) := by
  constructor
  · intro a ha
    rw [mapError_eq_ok] at ha ⊢
    exact h.1 a ha
  · intro e' he
    obtain ⟨e, hx, rfl⟩ := mapError_eq_error.mp he
    rcases h.2 e hx with hspared | hy
    · exact .inl (hg e hspared)
    · exact .inr (mapError_eq_error.mpr ⟨e, hy, rfl⟩)

/-- If no error may go away, then both computations have results or both have the same error. -/
lemma Follows.cases (h : Follows f (fun _ => False) x y) :
    (∃ e, x = .error e ∧ y = .error e) ∨ ∃ a, x = .ok a ∧ y = .ok (f a) := by
  cases x with
  | ok a => exact .inr ⟨a, rfl, h.1 a rfl⟩
  | error e =>
      rcases h.2 e rfl with hfalse | hy
      · exact hfalse.elim
      · exact .inl ⟨e, rfl, hy⟩

end Follows

/-! ### Switches -/

/-- What may be switched, all else being equal. -/
structure Switches where
  /-- Whether keys are checked, for which rules keep the categories that they declare. -/
  checkKeys : Bool
  /-- Whether number signs insist on numbers. -/
  strict : Bool
  /-- Whether every result but literal text keeps its own direction. -/
  isolate : Bool

namespace Switches

variable (s : Switches)

/-- A rule as it is used. -/
def rule (rule : Rule) : Rule :=
  if s.checkKeys then rule else rule.undeclared

/-- A node that is not literal text, isolated if that is wanted. -/
def wrap (node : LiveNode) : LiveNode :=
  if s.isolate then .isolate node else node

end Switches

/-- The same context with other switches. -/
def Context.switch (context : Context) (s : Switches) : Context :=
  { context with rule := s.rule context.rule, strict := s.strict, isolate := s.isolate }

namespace Node

mutual

/-- The node that other switches make in place of a node. -/
def recast (s : Switches) : LiveNode → LiveNode
  | .text value => .text value
  | .argument name => s.wrap (.argument name)
  | .numberSign arg offset _ => s.wrap (.numberSign arg offset s.strict)
  | .call arg formatter locale style => s.wrap (.call arg formatter locale style)
  | .plural arg kind offset rule cases =>
    s.wrap (.plural arg kind offset (s.rule rule) (recastPlural s cases))
  | .select arg cases => s.wrap (.select arg (recastSelect s cases))
  | .isolate inner => inner.recast s

/-- The nodes that other switches make in place of nodes. -/
def recastAll (s : Switches) : List LiveNode → List LiveNode
  | [] => []
  | node :: rest => node.recast s :: recastAll s rest

/-- The plural branches that other switches make in place of plural branches. -/
def recastPlural (s : Switches) : List (Branch Key LiveNode) → List (Branch Key LiveNode)
  | [] => []
  | ⟨key, body⟩ :: rest => ⟨key, recastAll s body⟩ :: recastPlural s rest

/-- The select branches that other switches make in place of select branches. -/
def recastSelect (s : Switches) : List (Branch String LiveNode) → List (Branch String LiveNode)
  | [] => []
  | ⟨key, body⟩ :: rest => ⟨key, recastAll s body⟩ :: recastSelect s rest

end

lemma recastAll_eq_map (s : Switches) (nodes : List LiveNode) :
    recastAll s nodes = nodes.map (recast s) := by
  induction nodes with
  | nil => rfl
  | cons node rest ih => rw [recastAll, ih, List.map_cons]

lemma recastPlural_eq_map (s : Switches) (cases : List (Branch Key LiveNode)) :
    recastPlural s cases = cases.map (Branch.mapBody (recast s)) := by
  induction cases with
  | nil => rfl
  | cons c rest ih => rw [recastPlural, ih, recastAll_eq_map, List.map_cons, Branch.mapBody]

lemma recastSelect_eq_map (s : Switches) (cases : List (Branch String LiveNode)) :
    recastSelect s cases = cases.map (Branch.mapBody (recast s)) := by
  induction cases with
  | nil => rfl
  | cons c rest ih => rw [recastSelect, ih, recastAll_eq_map, List.map_cons, Branch.mapBody]

/-- Isolation is decided anew. -/
lemma recast_wrap {s : Switches} {context : Context} {node node' : LiveNode}
    (h : node.recast s = s.wrap node') :
    (Compile.wrap context node).recast s = Compile.wrap (context.switch s) node' := by
  rw [Compile.wrap]
  split
  · rw [recast]
    exact h
  · exact h

end Node

/-- The message that other switches make in place of a message. -/
def Message.recast (s : Switches) (m : LiveMessage) : LiveMessage :=
  ⟨m.locale, Node.recastAll s m.nodes⟩

/-! ### Renderings -/

/-- What a node says that no switch changes and that has no branches. -/
def Node.said? (args : Arguments) : LiveNode → Option String
  | .text value => some value
  | .argument name => some (args.value name).render
  | .call arg formatter locale style => some (formatter.run ⟨args.value arg, locale, style⟩)
  | _ => none

/-- What a node that is not literal text says, isolated if that is wanted. -/
def Switches.apart (s : Switches) (rendering : Rendering) : Rendering :=
  if s.isolate then rendering.map isolated else rendering

lemma Node.render_wrap (s : Switches) (node : LiveNode) (args : Arguments) :
    (s.wrap node).render args = s.apart (node.render args) := by
  rw [Switches.wrap, Switches.apart]
  split
  · rw [render]
  · rfl

lemma Node.leaves_wrap (args : Arguments) (s : Switches) (node : LiveNode) :
    leaves args (s.wrap node) = leaves args node := by
  rw [Switches.wrap]
  split
  · rw [leaves]
  · rfl

/-- The categories that a rule declares do not matter for the branch that is picked. -/
lemma pickPlural_rule {ν : Type} (args : Arguments) (arg : String) (kind : Kind) (offset : Float)
    (s : Switches) (rule : Rule) (cases : List (Branch Key ν)) :
    pickPlural args arg kind offset (s.rule rule) cases =
      pickPlural args arg kind offset rule cases := by
  rw [Switches.rule]
  split <;> rfl

/-- A relation between what is said under some switches and under others, given the nodes that are
reached. Only number signs may differ, and isolation. -/
structure Switches.Relates (args : Arguments) (s s' : Switches)
    (R : List LiveNode → Rendering → Rendering → Prop) : Prop where
  nil : R [] (.ok "") (.ok "")
  same : ∀ node shown, Node.said? args node = some shown → R [node] (.ok shown) (.ok shown)
  numberSign : ∀ arg offset, R [.numberSign arg offset s.strict]
    (renderNumberSign arg offset s.strict args) (renderNumberSign arg offset s'.strict args)
  append : ∀ {leaves others x x' y y'}, R leaves x x' → R others y y' →
    R (leaves ++ others)
      (do
        let first ← x
        let rest ← y
        return first ++ rest)
      (do
        let first ← x'
        let rest ← y'
        return first ++ rest)
  apart : ∀ {leaves x x'}, R leaves x x' → R leaves (s.apart x) (s'.apart x')

namespace Switches.Relates

open Node

variable {args : Arguments} {s s' : Switches} {R : List LiveNode → Rendering → Rendering → Prop}

/-- What a node says under some switches is related to what it says under others. -/
def Holds (args : Arguments) (s s' : Switches) (R : List LiveNode → Rendering → Rendering → Prop)
    (node : LiveNode) : Prop :=
  R (leaves args (node.recast s)) ((node.recast s).render args) ((node.recast s').render args)

lemma wrap (h : Relates args s s' R) {node node' : LiveNode}
    (hnode : R (leaves args node) (node.render args) (node'.render args)) :
    R (leaves args (s.wrap node)) ((s.wrap node).render args) ((s'.wrap node').render args) := by
  rw [leaves_wrap, render_wrap, render_wrap]
  exact h.apart hnode

/-- Nodes in a row are related if all of them are. -/
lemma nodes (h : Relates args s s' R) (nodes : List LiveNode)
    (hnodes : ∀ node ∈ nodes, Holds args s s' R node) :
    R (leavesOfAll args (nodes.map (recast s))) (renderAll (nodes.map (recast s)) args)
      (renderAll (nodes.map (recast s')) args) := by
  induction nodes with
  | nil => exact h.nil
  | cons node rest ih =>
      obtain ⟨hnode, hrest⟩ := List.forall_mem_cons.mp hnodes
      rw [List.map_cons, List.map_cons, leavesOfAll, renderAll, renderAll]
      exact h.append hnode (ih hrest)

/-- The branch that was picked is related if all its nodes are. -/
lemma branch (h : Relates args s s' R) {κ : Type} {picked : Option (Branch κ LiveNode)}
    (hnodes : ∀ c ∈ picked, ∀ node ∈ c.body, Holds args s s' R node) :
    R (leavesOfBranch args (picked.map (Branch.mapBody (recast s))))
      (renderBranch args (picked.map (Branch.mapBody (recast s))))
      (renderBranch args (picked.map (Branch.mapBody (recast s')))) := by
  cases picked with
  | none => exact h.nil
  | some c => exact h.nodes c.body (hnodes c rfl)

/-- **What a node says under some switches is related to what it says under others,** for every
relation that is as above. -/
theorem render (h : Relates args s s' R) (node : LiveNode) : Holds args s s' R node := by
  rw [Holds]
  induction node using Node.ind with
  | text value =>
      rw [recast, recast, leaves, Node.render]
      · exact h.same _ _ rfl
      all_goals simp
  | argument name =>
      rw [recast, recast]
      refine h.wrap ?_
      rw [leaves, Node.render, ← Arguments.render_value]
      · exact h.same _ _ rfl
      all_goals simp
  | numberSign arg offset strict =>
      rw [recast, recast]
      refine h.wrap ?_
      rw [leaves, Node.render, Node.render]
      · exact h.numberSign arg offset
      all_goals simp
  | call arg formatter locale style =>
      rw [recast, recast]
      refine h.wrap ?_
      rw [leaves, Node.render]
      · exact h.same _ _ rfl
      all_goals simp
  -- The picked case is the same for all switches: they change bodies and declared categories, and
  -- choosing looks at neither.
  | plural arg kind offset rule cases ih =>
      rw [recast, recast, recastPlural_eq_map, recastPlural_eq_map]
      refine h.wrap ?_
      rw [leaves_plural, render_plural, render_plural, pickPlural_rule, pickPlural_rule,
        pickPlural_mapBody, pickPlural_mapBody]
      exact h.branch fun c hc => ih c (mem_of_pickPlural hc)
  | select arg cases ih =>
      rw [recast, recast, recastSelect_eq_map, recastSelect_eq_map]
      refine h.wrap ?_
      rw [leaves_select, render_select, render_select, pickSelect_mapBody, pickSelect_mapBody]
      exact h.branch fun c hc => ih c (mem_of_pickSelect hc)
  | isolate inner ih =>
      rw [recast, recast]
      exact ih

/-- What a message says under some switches is related to what it says under others. -/
theorem format (h : Relates args s s' R) (m : LiveMessage) :
    R (leavesOfAll args (m.recast s).nodes) ((m.recast s).format args)
      ((m.recast s').format args) := by
  rw [Message.format, Message.format, Message.recast, Message.recast, recastAll_eq_map,
    recastAll_eq_map]
  exact h.nodes m.nodes fun node _ => h.render node

end Switches.Relates

/-! ### Compilation -/

/-- With other switches, the check of any keys comes out as before, unless an error may go away. -/
def Context.Spares (context : Context) (s : Switches) (spared : StatementError → Prop) : Prop :=
  ∀ arg kind keys, Follows id spared (checkKeys context.rule arg kind keys)
    (checkKeys (s.rule context.rule) arg kind keys)

/-- With the same rule, no error of a check goes away. -/
lemma Context.spares_of_rule {context : Context} {s : Switches}
    (h : s.rule context.rule = context.rule) : context.Spares s fun _ => False := by
  intro arg kind keys
  rw [h]
  exact .refl _

section Compilation

variable {σ : Type} {context : Context} {s : Switches} {spared : StatementError → Prop}

mutual

/-- **Other switches make the same node, recast, or have the same error.** -/
theorem follows_element (hkeys : context.Spares s spared) (scope : Option Scope) :
    ∀ e : Element σ,
    Follows (Node.recast s) spared (Compile.element context scope e)
      (Compile.element (context.switch s) scope e)
  | .literal value _ => by
      rw [Compile.element, Compile.element]
      exact .ok (by rw [Node.recast])
  | .argument name _ => by
      rw [Compile.element, Compile.element]
      exact .ok (Node.recast_wrap (by rw [Node.recast]))
  | .call arg name style _ => by
      rw [Compile.element, Compile.element, Compile.call, Compile.call]
      simp only [Context.switch]
      cases context.registry.resolve? name with
      | none => exact .error _
      | some formatter => exact .ok (Node.recast_wrap (by rw [Node.recast]))
  | .plural arg kind offset cases _ => by
      rw [Compile.element, Compile.element]
      -- Only the check of the keys may fail here and be spared there.
      refine (hkeys arg kind _).bind fun _ _ => ?_
      refine (follows_pluralCases hkeys _ cases).bind fun branches _ => ?_
      exact .ok (Node.recast_wrap (by rw [Node.recast]; rfl))
  | .select arg cases _ => by
      rw [Compile.element, Compile.element]
      refine (follows_selectCases hkeys scope cases).bind fun branches _ => ?_
      exact .ok (Node.recast_wrap (by rw [Node.recast]))
  | .numberSign _ => by
      rw [Compile.element, Compile.element]
      cases scope with
      | none => exact .ok (by rw [Compile.numberSign, Compile.numberSign, Node.recast])
      | some plural => exact .ok (Node.recast_wrap (by rw [Node.recast]; rfl))

theorem follows_elements (hkeys : context.Spares s spared) (scope : Option Scope) :
    ∀ es : List (Element σ),
    Follows (Node.recastAll s) spared (Compile.elements context scope es)
      (Compile.elements (context.switch s) scope es)
  | [] => .ok rfl
  | e :: rest => by
      rw [Compile.elements, Compile.elements]
      refine (follows_element hkeys scope e).bind fun node _ => ?_
      refine (follows_elements hkeys scope rest).bind fun others _ => ?_
      exact .ok (by rw [Node.recastAll])

theorem follows_pluralCases (hkeys : context.Spares s spared) (scope : Option Scope) :
    ∀ cases : List (Case Key σ (Element σ)),
    Follows (Node.recastPlural s) spared (Compile.pluralCases context scope cases)
      (Compile.pluralCases (context.switch s) scope cases)
  | [] => .ok rfl
  | ⟨key, body, _⟩ :: rest => by
      rw [Compile.pluralCases, Compile.pluralCases]
      refine (follows_elements hkeys scope body).bind fun nodes _ => ?_
      refine (follows_pluralCases hkeys scope rest).bind fun others _ => ?_
      exact .ok (by rw [Node.recastPlural])

theorem follows_selectCases (hkeys : context.Spares s spared) (scope : Option Scope) :
    ∀ cases : List (Case String σ (Element σ)),
    Follows (Node.recastSelect s) spared (Compile.selectCases context scope cases)
      (Compile.selectCases (context.switch s) scope cases)
  | [] => .ok rfl
  | ⟨key, body, _⟩ :: rest => by
      rw [Compile.selectCases, Compile.selectCases]
      refine (follows_elements hkeys scope body).bind fun nodes _ => ?_
      refine (follows_selectCases hkeys scope rest).bind fun others _ => ?_
      exact .ok (by rw [Node.recastSelect])

end

/-- **Other switches make the same message, recast, or have the same error.** -/
theorem follows_message (hkeys : context.Spares s spared) (pattern : List (Element σ)) :
    Follows (Message.recast s) spared (Compile.message context pattern)
      (Compile.message (context.switch s) pattern) :=
  (follows_elements hkeys none pattern).bind fun _ _ => .ok rfl

end Compilation

end MessageCatalog
