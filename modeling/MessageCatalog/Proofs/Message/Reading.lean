/-
What messages read.

A message looks at no arguments but those that its pattern names, and of these at nothing but their
values, where a name that is not bound has the value null. So it cannot tell apart arguments that
agree on these names.

* `Element.reads`: the names that an element looks up, at any depth;
* `Node.ReadsIn`, `all_readsIn_message`: the nodes of a message look up no other names;
* `Arguments.Agree`: arguments with the same values under some names;
* `render_congr`, `message_reads`: on such arguments a node, and a message, says the same.
-/
import MessageCatalog.Plural.Language
import MessageCatalog.Proofs.Message.Branches
import MessageCatalog.Pattern.Parser

namespace MessageCatalog

open Pattern (Case Element)
open Plural (Key)

/-! ### The names that are looked up -/

namespace Pattern.Element

variable {σ : Type}

mutual

/-- The names of arguments in an element. -/
def reads : Element σ → List String
  | .argument name _ => [name]
  | .call arg _ _ _ => [arg]
  | .plural arg _ _ cases _ => arg :: readsOfPlural cases
  | .select arg cases _ => arg :: readsOfSelect cases
  | _ => []

/-- The names of arguments in elements. -/
def readsOf : List (Element σ) → List String
  | [] => []
  | e :: rest => e.reads ++ readsOf rest

/-- The names of arguments in plural cases. -/
def readsOfPlural : List (Case Key σ (Element σ)) → List String
  | [] => []
  | ⟨_, body, _⟩ :: rest => readsOf body ++ readsOfPlural rest

/-- The names of arguments in select cases. -/
def readsOfSelect : List (Case String σ (Element σ)) → List String
  | [] => []
  | ⟨_, body, _⟩ :: rest => readsOf body ++ readsOfSelect rest

end

lemma readsOf_eq_flatMap (es : List (Element σ)) : readsOf es = es.flatMap reads := by
  induction es with
  | nil => rfl
  | cons e rest ih => rw [readsOf, ih, List.flatMap_cons]

lemma readsOfPlural_eq_flatMap (cases : List (Case Key σ (Element σ))) :
    readsOfPlural cases = cases.flatMap fun c => readsOf c.body := by
  induction cases with
  | nil => rfl
  | cons c rest ih => rw [readsOfPlural, ih, List.flatMap_cons]

lemma readsOfSelect_eq_flatMap (cases : List (Case String σ (Element σ))) :
    readsOfSelect cases = cases.flatMap fun c => readsOf c.body := by
  induction cases with
  | nil => rfl
  | cons c rest ih => rw [readsOfSelect, ih, List.flatMap_cons]

/-- An element looks up nothing but some names. -/
def ReadsIn (names : List String) (e : Element σ) : Prop :=
  ∀ name ∈ e.reads, name ∈ names

variable {names : List String}

lemma readsIn_of_mem {es : List (Element σ)} (h : ∀ name ∈ readsOf es, name ∈ names)
    {e : Element σ} (he : e ∈ es) : e.ReadsIn names := by
  rw [readsOf_eq_flatMap] at h
  exact fun name hname => h name (List.mem_flatMap.mpr ⟨e, he, hname⟩)

/-- The cases of a plural look up nothing that it does not. -/
lemma ReadsIn.plural {arg kind offset mark} {cases : List (Case Key σ (Element σ))}
    (h : (plural arg kind offset cases mark).ReadsIn names) :
    arg ∈ names ∧ ∀ c ∈ cases, ∀ e ∈ c.body, e.ReadsIn names := by
  rw [ReadsIn, reads, readsOfPlural_eq_flatMap] at h
  obtain ⟨harg, hcases⟩ := List.forall_mem_cons.mp h
  exact ⟨harg, fun c hc e he => readsIn_of_mem
    (fun name hname => hcases name (List.mem_flatMap.mpr ⟨c, hc, hname⟩)) he⟩

/-- The cases of a select look up nothing that it does not. -/
lemma ReadsIn.select {arg mark} {cases : List (Case String σ (Element σ))}
    (h : (select arg cases mark).ReadsIn names) :
    arg ∈ names ∧ ∀ c ∈ cases, ∀ e ∈ c.body, e.ReadsIn names := by
  rw [ReadsIn, reads, readsOfSelect_eq_flatMap] at h
  obtain ⟨harg, hcases⟩ := List.forall_mem_cons.mp h
  exact ⟨harg, fun c hc e he => readsIn_of_mem
    (fun name hname => hcases name (List.mem_flatMap.mpr ⟨c, hc, hname⟩)) he⟩

end Pattern.Element

/-- A node itself looks up nothing but some names. -/
def Node.ReadsIn (names : List String) : LiveNode → Prop
  | .argument name => name ∈ names
  | .numberSign arg _ _ => arg ∈ names
  | .call arg _ _ _ => arg ∈ names
  | .plural arg _ _ _ _ => arg ∈ names
  | .select arg _ => arg ∈ names
  | _ => True

section Compilation

variable {σ : Type} {context : Context} {names : List String}

/-- Compilation adds no names. Number signs look up the argument of the plural around them. -/
lemma carries_readsIn : Compile.Carries context
    (fun scope (e : Element σ) => (∀ s ∈ scope, s.arg ∈ names) ∧ e.ReadsIn names)
    (fun _ node => node.ReadsIn names) where
  text _ _ := trivial
  isolate _ _ := trivial
  argument hq := hq.2 _ (by rw [Element.reads]; exact List.mem_singleton_self _)
  call hq _ := hq.2 _ (by rw [Element.reads]; exact List.mem_singleton_self _)
  numberSign hq := hq.1 _ rfl
  plural hq _ _ := hq.2.plural.1
  select hq _ := hq.2.select.1
  pluralBody hq c hc e he := by
    refine ⟨fun s hs => ?_, hq.2.plural.2 c hc e he⟩
    obtain rfl := Option.some.inj hs
    exact hq.2.plural.1
  selectBody hq c hc e he := ⟨hq.1, hq.2.select.2 c hc e he⟩

/-- The nodes of a message look up nothing but the names in its pattern. -/
theorem all_readsIn_message {pattern : List (Element σ)} {m : LiveMessage}
    (h : Compile.message context pattern = .ok m) :
    Node.AllOf (Node.ReadsIn (Element.readsOf pattern)) m.nodes :=
  carries_readsIn.allOf (fun _ _ hnode => hnode.here)
    (fun _ he => ⟨(fun _ hs => nomatch hs), Element.readsIn_of_mem (fun _ hname => hname) he⟩) h

end Compilation

/-! ### Arguments that agree -/

/-- Arguments with the same values under some names. Not to be bound is to have the value null. -/
def Arguments.Agree (names : List String) (args args' : Arguments) : Prop :=
  ∀ name ∈ names, args.value name = args'.value name

namespace Arguments.Agree

variable {names : List String} {args args' : Arguments} {name : String}

lemma number? (h : Agree names args args') (hname : name ∈ names) :
    args.number? name = args'.number? name := by
  rw [← number?_value, ← number?_value, h name hname]

lemma shown (h : Agree names args args') (hname : name ∈ names) :
    args.shown name = args'.shown name := by
  rw [← render_value, ← render_value, h name hname]

end Arguments.Agree

namespace Node

variable {names : List String} {args args' : Arguments}

lemma renderAll_congr {nodes : List LiveNode}
    (h : ∀ node ∈ nodes, node.render args = node.render args') :
    renderAll nodes args = renderAll nodes args' := by
  induction nodes with
  | nil => rfl
  | cons node rest ih =>
      obtain ⟨hnode, hrest⟩ := List.forall_mem_cons.mp h
      rw [renderAll, renderAll, hnode, ih hrest]

lemma renderBranch_congr {κ : Type} {picked : Option (Branch κ LiveNode)}
    (h : ∀ c, picked = some c → ∀ node ∈ c.body, node.render args = node.render args') :
    renderBranch args picked = renderBranch args' picked := by
  cases picked with
  | none => rfl
  | some c => exact renderAll_congr (h c rfl)

/-- **A node says the same on arguments that agree on what it looks up.** -/
theorem render_congr (h : args.Agree names args') (node : LiveNode) :
    node.All (ReadsIn names) → node.render args = node.render args' := by
  induction node using Node.ind with
  | text value => intro _; rfl
  | argument name =>
      intro hreads
      simp only [All, ReadsIn] at hreads
      rw [render, render, h.shown hreads]
  | numberSign arg offset strict =>
      intro hreads
      simp only [All, ReadsIn] at hreads
      rw [render, render, renderNumberSign, renderNumberSign, h.number? hreads, h.shown hreads]
  | call arg formatter locale style =>
      intro hreads
      simp only [All, ReadsIn] at hreads
      rw [render, render, h arg hreads]
  | plural arg kind offset rule cases ih =>
      intro hreads
      rw [All, allPlural_iff] at hreads
      -- The same case is picked, and what is in it reads none but the names either.
      have hpick : pickPlural args arg kind offset rule cases =
          pickPlural args' arg kind offset rule cases := by
        rw [pickPlural, pickPlural, h arg hreads.1]
      rw [render_plural, render_plural, hpick]
      exact renderBranch_congr fun c hc node hnode =>
        ih c (mem_of_pickPlural hc) node hnode
          (allOf_iff.mp (hreads.2 c (mem_of_pickPlural hc)) node hnode)
  | select arg cases ih =>
      intro hreads
      rw [All, allSelect_iff] at hreads
      have hpick : pickSelect args arg cases = pickSelect args' arg cases := by
        rw [pickSelect, pickSelect, h arg hreads.1]
      rw [render_select, render_select, hpick]
      exact renderBranch_congr fun c hc node hnode =>
        ih c (mem_of_pickSelect hc) node hnode
          (allOf_iff.mp (hreads.2 c (mem_of_pickSelect hc)) node hnode)
  | isolate inner ih =>
      intro hreads
      rw [All] at hreads
      rw [render, render, ih hreads.2]

end Node

/-- **A message depends only on the arguments that its pattern names.** It says the same, or has the
same error, on arguments that give these names the same values, where not to be bound is to have the
value null. -/
theorem message_reads {σ : Type} {context : Context} {pattern : List (Element σ)} {m : LiveMessage}
    (hm : Compile.message context pattern = .ok m) {args args' : Arguments}
    (h : args.Agree (Element.readsOf pattern) args') : m.format args = m.format args' :=
  Node.renderAll_congr fun node hnode =>
    Node.render_congr h node (Node.allOf_iff.mp (all_readsIn_message hm) node hnode)

/-- A strict number sign complains in the same way about null as about a name that is not bound, and
it does not matter what is bound to other names. -/
theorem message_reads_unbound :
    let context : Context := ⟨"en", Plural.Family.english.rule "en", ⟨[], none⟩, true, true⟩
    let text := "{g, select, x{{n, plural, other{{w} #}}} other{}}"
    let args : Arguments := .ofPairs [("g", .text "x"), ("n", .null), ("k", .num 1)]
    let args' : Arguments := .ofPairs [("w", .null), ("g", .text "x")]
    ∃ pattern m, Pattern.parse text = .ok pattern ∧ Compile.message context pattern = .ok m ∧
      Element.readsOf pattern = ["g", "n", "w"] ∧ args.Agree ["g", "n", "w"] args' ∧
      m.format args = .error (.notANumber "n" "") ∧
      m.format args' = .error (.notANumber "n" "") := by
  intro context text args args'
  have hok : passes (fun pattern => decide (Element.readsOf pattern = ["g", "n", "w"]) &&
      passes (fun m : LiveMessage => decide (m.format args = .error (.notANumber "n" "")))
        (Compile.message context pattern)) (Pattern.parse text) = true := by
    decide +kernel
  obtain ⟨pattern, hparse, hok⟩ := passes_eq_true hok
  obtain ⟨hreads, hok⟩ := Bool.and_eq_true_iff.mp hok
  obtain ⟨m, hm, hformat⟩ := passes_eq_true hok
  have hreads := of_decide_eq_true hreads
  have hformat := of_decide_eq_true hformat
  have hagree : args.Agree ["g", "n", "w"] args' := by
    have hg : args.value "g" = args'.value "g" := by rfl
    have hn : args.value "n" = args'.value "n" := by rfl
    have hw : args.value "w" = args'.value "w" := by rfl
    simpa [Arguments.Agree] using ⟨hg, hn, hw⟩
  have hsame := message_reads hm (hreads ▸ hagree)
  exact ⟨pattern, m, hparse, hm, hreads, hagree, hformat, hsame.symm.trans hformat⟩

end MessageCatalog
