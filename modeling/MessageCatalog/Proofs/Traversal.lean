/-
What visits of bundles give, path by path.

An item is visited in the context that the keys of its path lead to, the outermost key first.

* `keyTree_of_traverse`, `items_of_traverse`: what a visit makes has the keys of what it visits, and
  an item for each item;
* `at?_of_traverse`: it has at every path what the visit of the item there gives;
* `FirstFailure`, `firstFailure_of_traverse`: a visit fails with the error of the first path at
  which it fails, paths being compared key by key;
* `raises_traverse`: so it has no errors but those of the visits of items.
-/
import MessageCatalog.Proofs.Bundle

namespace MessageCatalog.Bundle

variable {α β γ ε : Type}

/-- The keys of a bundle, without its items. -/
def keyTree (b : Bundle α) : Bundle Unit :=
  b.map fun _ => ()

/-! ### Looking entries up -/

/-- A key below all others has no entry. -/
lemma get?_eq_none_of_lt {entries : Entries α} {key : String} (h : ∀ e ∈ entries, key < e.1) :
    Entries.get? entries key = none := by
  induction entries with
  | nil => rfl
  | cons first rest ih =>
      have hne : key ≠ first.1 := by
        intro heq
        have hlt := h first List.mem_cons_self
        exact String.lt_irrefl first.1 (heq ▸ hlt)
      have hrest := ih fun e he => h e (List.mem_cons_of_mem _ he)
      rw [Entries.get?_cons, if_neg hne, hrest]

lemma at?_group_cons (entries : List (String × Bundle α)) (key : String) (path : List String) :
    (group entries).at? (key :: path) = (Entries.get? entries key).bind fun b => b.at? path := by
  rw [at?]
  cases Entries.get? entries key <;> rfl

/-- The first entry of a group is at paths that start with its key. -/
lemma at?_first (key : String) (b : Bundle α) (rest : List (String × Bundle α))
    (path : List String) : (group ((key, b) :: rest)).at? (key :: path) = b.at? path := by
  rw [at?_group_cons, Entries.get?_cons, if_pos rfl]
  rfl

/-- The other entries of a group are at paths that start with another key. -/
lemma at?_others {key first : String} (h : key ≠ first) (b : Bundle α)
    (rest : List (String × Bundle α)) (path : List String) :
    (group ((first, b) :: rest)).at? (key :: path) = (group rest).at? (key :: path) := by
  rw [at?_group_cons, at?_group_cons, Entries.get?_cons, if_neg h]

/-! ### Visits that succeed -/

section Visit

variable {enter : γ → String → γ} {visit : γ → α → Except ε β}

mutual

/-- **What a visit makes has the keys of what it visits.** -/
theorem keyTree_of_traverse : ∀ {b : Bundle α} {context : γ} {made : Bundle β},
    b.traverse enter visit context = .ok made → made.keyTree = b.keyTree
  | .one item, context, made, h => by
      obtain ⟨item', _, rfl⟩ := map_eq_ok.mp h
      rfl
  | .group entries, context, made, h => by
      obtain ⟨others, hothers, rfl⟩ := map_eq_ok.mp h
      have hkeys := keyTrees_of_traverseEntries hothers
      rw [keyTree, keyTree, map, map, hkeys]

theorem keyTrees_of_traverseEntries : ∀ {entries : List (String × Bundle α)} {context : γ}
    {made : List (String × Bundle β)}, traverseEntries enter visit context entries = .ok made →
      mapEntries (fun _ => ()) made = mapEntries (fun _ => ()) entries
  | [], context, made, h => by
      obtain rfl := Except.ok.inj h
      rfl
  | (key, b) :: rest, context, made, h => by
      obtain ⟨first, others, hfirst, hothers, rfl⟩ := traverseEntries_cons h
      have hb := keyTree_of_traverse hfirst
      have hrest := keyTrees_of_traverseEntries hothers
      rw [keyTree, keyTree] at hb
      rw [mapEntries, mapEntries, hb, hrest]

end

mutual

/-- What a visit makes has an item for each item that it visits, in the same order. -/
theorem items_of_traverse : ∀ {b : Bundle α} {context : γ} {made : Bundle β},
    b.traverse enter visit context = .ok made →
      List.Forall₂ (fun a item => ∃ context, visit context a = .ok item) b.items made.items
  | .one a, context, made, h => by
      obtain ⟨item, hitem, rfl⟩ := map_eq_ok.mp h
      exact .cons ⟨context, hitem⟩ .nil
  | .group entries, context, made, h => by
      obtain ⟨others, hothers, rfl⟩ := map_eq_ok.mp h
      exact items_of_traverseEntries hothers

theorem items_of_traverseEntries : ∀ {entries : List (String × Bundle α)} {context : γ}
    {made : List (String × Bundle β)}, traverseEntries enter visit context entries = .ok made →
      List.Forall₂ (fun a item => ∃ context, visit context a = .ok item)
        (itemsOfEntries entries) (itemsOfEntries made)
  | [], context, made, h => by
      obtain rfl := Except.ok.inj h
      exact .nil
  | (key, b) :: rest, context, made, h => by
      obtain ⟨first, others, hfirst, hothers, rfl⟩ := traverseEntries_cons h
      exact List.rel_append (items_of_traverse hfirst) (items_of_traverseEntries hothers)

end

lemma get?_of_traverseEntries {entries : List (String × Bundle α)} {context : γ}
    {made : List (String × Bundle β)} (h : traverseEntries enter visit context entries = .ok made)
    {key : String} {b : Bundle α} (hget : Entries.get? entries key = some b) :
    ∃ b', b.traverse enter visit (enter context key) = .ok b' ∧
      Entries.get? made key = some b' := by
  induction entries generalizing made with
  | nil => cases hget
  | cons entry rest ih =>
      obtain ⟨k, b₀⟩ := entry
      obtain ⟨first, others, hfirst, hothers, rfl⟩ := traverseEntries_cons h
      rw [Entries.get?_cons] at hget ⊢
      by_cases hkey : key = k
      · rw [if_pos hkey] at hget ⊢
        obtain rfl := Option.some.inj hget
        exact ⟨first, hkey ▸ hfirst, rfl⟩
      · rw [if_neg hkey] at hget ⊢
        exact ih hothers hget

/-- **What a visit makes has at every path what the visit of the item there gives.** -/
theorem at?_of_traverse {b : Bundle α} {context : γ} {made : Bundle β} {path : List String} {a : α}
    (h : b.traverse enter visit context = .ok made) (hat : b.at? path = some (.one a)) :
    ∃ item, visit (path.foldl enter context) a = .ok item ∧ made.at? path = some (.one item) := by
  induction path generalizing b context made with
  | nil =>
      obtain rfl := Option.some.inj hat
      obtain ⟨item, hitem, rfl⟩ := map_eq_ok.mp h
      exact ⟨item, hitem, rfl⟩
  | cons key rest ih =>
      cases b with
      | one item => cases hat
      | group entries =>
          obtain ⟨others, hothers, rfl⟩ := map_eq_ok.mp h
          rw [at?_group_cons] at hat ⊢
          obtain ⟨inner, hget, hat⟩ := Option.bind_eq_some_iff.mp hat
          obtain ⟨inner', hinner, hget'⟩ := get?_of_traverseEntries hothers hget
          obtain ⟨item, hitem, hat'⟩ := ih hinner hat
          exact ⟨item, hitem, by rw [hget', Option.bind_some, hat']⟩

/-! ### Visits that fail -/

variable (enter visit)

/-- The first failure of a visit: the item at a path, whose visit fails, while the items at all
paths before it are visited without failure. -/
structure FirstFailure (context : γ) (b : Bundle α) (path : List String) (e : ε) : Prop where
  fails : ∃ a, b.at? path = some (.one a) ∧ visit (path.foldl enter context) a = .error e
  earlier : ∀ earlier < path, ∀ a, b.at? earlier = some (.one a) →
    ∃ item, visit (earlier.foldl enter context) a = .ok item

variable {enter visit}

/-- A failure in the first entry of a group comes before all others in the group. -/
lemma FirstFailure.first {context : γ} {key : String} {b : Bundle α}
    {rest : List (String × Bundle α)} (hkeys : ∀ e ∈ rest, key < e.1) {path : List String} {e : ε}
    (h : FirstFailure enter visit (enter context key) b path e) :
    FirstFailure enter visit context (.group ((key, b) :: rest)) (key :: path) e := by
  obtain ⟨a, hat, hfails⟩ := h.fails
  refine ⟨⟨a, by rw [at?_first, hat], hfails⟩, fun earlier hlt a hat => ?_⟩
  cases earlier with
  | nil => cases hat
  | cons k p =>
      rcases List.cons_lt_cons_iff.mp hlt with hk | ⟨rfl, hp⟩
      · -- All other entries have greater keys, so there is nothing before the first one.
        have hne : k ≠ key := fun heq => String.lt_irrefl key (heq ▸ hk)
        have hnone := get?_eq_none_of_lt fun e he => String.lt_trans hk (hkeys e he)
        rw [at?_others hne, at?_group_cons, hnone] at hat
        cases hat
      · rw [at?_first] at hat
        exact h.earlier p hp a hat

/-- A failure in the other entries of a group is the first one if the first entry has none. -/
lemma FirstFailure.others {context : γ} {key : String} {b : Bundle α} {made : Bundle β}
    {rest : List (String × Bundle α)} (hkeys : ∀ e ∈ rest, key < e.1) {path : List String} {e : ε}
    (hmade : b.traverse enter visit (enter context key) = .ok made)
    (h : FirstFailure enter visit context (.group rest) path e) :
    FirstFailure enter visit context (.group ((key, b) :: rest)) path e := by
  obtain ⟨a, hat, hfails⟩ := h.fails
  refine ⟨⟨a, ?_, hfails⟩, fun earlier hlt a hat => ?_⟩
  · cases path with
    | nil => cases hat
    | cons k p =>
        have hne : k ≠ key := by
          rintro rfl
          rw [at?_group_cons, get?_eq_none_of_lt hkeys] at hat
          cases hat
        rw [at?_others hne, hat]
  · cases earlier with
    | nil => cases hat
    | cons k p =>
        -- An earlier path leads into the first entry, which has been made, or to one of the others.
        by_cases hk : k = key
        · subst hk
          rw [at?_first] at hat
          obtain ⟨item, hitem, _⟩ := at?_of_traverse hmade hat
          exact ⟨item, hitem⟩
        · rw [at?_others hk] at hat
          exact h.earlier (k :: p) hlt a hat

mutual

/-- **A visit that fails has the error of its first failure.** -/
theorem firstFailure_of_traverse : ∀ {b : Bundle α} {context : γ} {e : ε}, b.Ordered →
    b.traverse enter visit context = .error e → ∃ path, FirstFailure enter visit context b path e
  | .one a, context, e, _, h => by
      refine ⟨[], ⟨a, rfl, map_eq_error.mp h⟩, fun earlier hlt => ?_⟩
      exact absurd hlt (List.not_lt_nil earlier)
  | .group entries, context, e, ho, h =>
      firstFailure_of_traverseEntries ho.1 ho.2 (map_eq_error.mp h)

theorem firstFailure_of_traverseEntries : ∀ {entries : List (String × Bundle α)} {context : γ}
    {e : ε}, Entries.Ordered entries → OrderedEntries entries →
    traverseEntries enter visit context entries = .error e →
      ∃ path, FirstFailure enter visit context (.group entries) path e
  | [], context, e, _, _, h => by cases h
  | (key, b) :: rest, context, e, hkeys, hb, h => by
      obtain ⟨hfirst, hrest⟩ := List.pairwise_cons.mp hkeys
      rw [traverseEntries] at h
      -- The first entry fails, or all of it is made and the failure is among the others. As keys
      -- are in order, so are the paths.
      cases hmade : b.traverse enter visit (enter context key) with
      | error e' =>
          rw [hmade] at h
          obtain rfl := Except.error.inj h
          obtain ⟨path, hpath⟩ := firstFailure_of_traverse hb.1 hmade
          exact ⟨key :: path, hpath.first hfirst⟩
      | ok made =>
          rw [hmade] at h
          cases hothers : traverseEntries enter visit context rest with
          | error e' =>
              simp only [hothers, bind, Except.bind] at h
              obtain rfl := Except.error.inj h
              obtain ⟨path, hpath⟩ := firstFailure_of_traverseEntries hrest hb.2 hothers
              exact ⟨path, hpath.others hfirst hmade⟩
          | ok others =>
              simp only [hothers, bind, Except.bind] at h
              cases h

end

mutual

/-- A visit has no errors but those of the visits of items, in contexts that keys may lead to. -/
theorem raises_traverse {kind : ε → Prop} {inv : γ → Prop}
    (henter : ∀ context key, inv context → inv (enter context key))
    (h : ∀ context a, inv context → Raises kind (visit context a)) :
    ∀ (b : Bundle α) (context : γ), inv context → Raises kind (b.traverse enter visit context)
  | .one a, context, hcontext => fun e he => h context a hcontext e (map_eq_error.mp he)
  | .group entries, context, hcontext => fun e he =>
      raises_traverseEntries henter h entries context hcontext e (map_eq_error.mp he)

theorem raises_traverseEntries {kind : ε → Prop} {inv : γ → Prop}
    (henter : ∀ context key, inv context → inv (enter context key))
    (h : ∀ context a, inv context → Raises kind (visit context a)) :
    ∀ (entries : List (String × Bundle α)) (context : γ), inv context →
      Raises kind (traverseEntries enter visit context entries)
  | [], _, _ => .ok _
  | (key, b) :: rest, context, hcontext => by
      rw [traverseEntries]
      refine (raises_traverse henter h b _ (henter context key hcontext)).bind fun first => ?_
      exact (raises_traverseEntries henter h rest context hcontext).bind fun others => .ok _

end

end Visit

end MessageCatalog.Bundle
