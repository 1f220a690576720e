/-
Bundles in order, and bundles of related items.

* `Ordered`: the keys of every group are in order, as the entries of a map are;
* `ordered_map`, `ordered_nest`, `ordered_of_traverse`: what keeps the order;
* `at?_nest`, `at?_map`: what is at a path;
* `items_map`, `map_map`, `map_congr`: changes of the items;
* `forall_items_of_traverse`, `yields_traverse`: what visits give, item by item.
-/
import MessageCatalog.Bundle
import MessageCatalog.Proofs.Entries
import MessageCatalog.Proofs.Except

namespace MessageCatalog.Bundle

variable {α β γ ε : Type}

/-! ### Order -/

mutual

/-- The keys of every group are in order. -/
def Ordered : Bundle α → Prop
  | .one _ => True
  | .group entries => Entries.Ordered entries ∧ OrderedEntries entries

/-- The keys of every group among entries are in order. -/
def OrderedEntries : List (String × Bundle α) → Prop
  | [] => True
  | (_, b) :: rest => b.Ordered ∧ OrderedEntries rest

end

lemma keys_mapEntries (f : α → β) (entries : List (String × Bundle α)) :
    (mapEntries f entries).map Prod.fst = entries.map Prod.fst := by
  induction entries with
  | nil => rfl
  | cons first rest ih => simp only [mapEntries, List.map_cons, ih]

/-- Whether entries are in order depends on their keys only. -/
lemma entriesOrdered_of_keys {entries : List (String × Bundle α)}
    {others : List (String × Bundle β)} (h : entries.map Prod.fst = others.map Prod.fst)
    (ho : Entries.Ordered others) : Entries.Ordered entries := by
  have hkeys : (others.map Prod.fst).Pairwise (· < ·) := List.pairwise_map.mpr ho
  rw [← h] at hkeys
  exact List.pairwise_map.mp hkeys

mutual

theorem ordered_map (f : α → β) : ∀ b : Bundle α, b.Ordered → (b.map f).Ordered
  | .one _, _ => trivial
  | .group entries, h =>
      ⟨entriesOrdered_of_keys (keys_mapEntries f entries) h.1, orderedEntries_map f entries h.2⟩

theorem orderedEntries_map (f : α → β) : ∀ entries : List (String × Bundle α),
    OrderedEntries entries → OrderedEntries (mapEntries f entries)
  | [], _ => trivial
  | (_, b) :: rest, h => ⟨ordered_map f b h.1, orderedEntries_map f rest h.2⟩

end

/-! ### Paths -/

/-- Groups of one entry each are in order. -/
theorem ordered_nest {b : Bundle α} (h : b.Ordered) (segments : List String) :
    (b.nest segments).Ordered := by
  induction segments with
  | nil => exact h
  | cons segment rest ih => exact ⟨List.pairwise_singleton _ _, ih, trivial⟩

/-- **What is put under a path is found there.** -/
theorem at?_nest (b : Bundle α) (segments : List String) :
    (b.nest segments).at? segments = some b := by
  induction segments with
  | nil => rfl
  | cons segment rest ih =>
      have hget : Entries.get? [(segment, b.nest rest)] segment = some (b.nest rest) := by
        rw [Entries.get?_cons, if_pos rfl]
      show at? (.group [(segment, b.nest rest)]) (segment :: rest) = some b
      simp only [at?, hget, ih]

/-! ### Items -/

/-- Groups of one entry each add no items. -/
lemma items_nest (b : Bundle α) (segments : List String) : (b.nest segments).items = b.items := by
  induction segments with
  | nil => rfl
  | cons segment rest ih =>
      show (b.nest rest).items ++ [] = b.items
      rw [List.append_nil, ih]

/-- The items of an entry are among the items of the entries. -/
lemma items_subset_of_mem {key : String} {b : Bundle α} {entries : List (String × Bundle α)}
    (h : (key, b) ∈ entries) : b.items ⊆ itemsOfEntries entries := by
  induction entries with
  | nil => cases h
  | cons first rest ih =>
      intro a ha
      rcases List.mem_cons.mp h with rfl | h
      · exact List.mem_append_left _ ha
      · exact List.mem_append_right _ (ih h ha)

lemma mem_of_get? {entries : Entries α} {key : String} {value : α}
    (h : Entries.get? entries key = some value) : (key, value) ∈ entries := by
  induction entries with
  | nil => cases h
  | cons first rest ih =>
      obtain ⟨k, v⟩ := first
      rw [Entries.get?_cons] at h
      split at h
      · rename_i heq
        obtain rfl := Option.some.inj h
        exact heq ▸ List.mem_cons_self
      · exact List.mem_cons_of_mem _ (ih h)

/-- The items of a bundle inside another one are among the items of the other one. -/
lemma items_subset_of_at? {b inner : Bundle α} {path : List String} (h : b.at? path = some inner) :
    inner.items ⊆ b.items := by
  induction path generalizing b with
  | nil =>
      obtain rfl := Option.some.inj h
      exact List.Subset.refl _
  | cons key rest ih =>
      cases b with
      | one item => cases h
      | group entries =>
          rw [at?] at h
          cases hget : Entries.get? entries key with
          | none =>
              rw [hget] at h
              cases h
          | some first =>
              rw [hget] at h
              intro a ha
              exact items_subset_of_mem (mem_of_get? hget) (ih h ha)

/-! ### Changing items -/

mutual

theorem items_map (f : α → β) : ∀ b : Bundle α, (b.map f).items = b.items.map f
  | .one _ => rfl
  | .group entries => itemsOfEntries_map f entries

theorem itemsOfEntries_map (f : α → β) : ∀ entries : List (String × Bundle α),
    itemsOfEntries (mapEntries f entries) = (itemsOfEntries entries).map f
  | [] => rfl
  | (_, b) :: rest => by
      rw [mapEntries, itemsOfEntries, itemsOfEntries, items_map f b, itemsOfEntries_map f rest,
        List.map_append]

end

lemma get?_mapEntries (f : α → β) (entries : List (String × Bundle α)) (key : String) :
    Entries.get? (mapEntries f entries) key = (Entries.get? entries key).map (map f) := by
  induction entries with
  | nil => rfl
  | cons first rest ih =>
      obtain ⟨k, b⟩ := first
      rw [mapEntries, Entries.get?_cons, Entries.get?_cons, ih]
      split <;> rfl

/-- A change of the items changes the bundle at a path. -/
theorem at?_map (f : α → β) (b : Bundle α) (path : List String) :
    (b.map f).at? path = (b.at? path).map (map f) := by
  induction path generalizing b with
  | nil => rfl
  | cons key rest ih =>
      cases b with
      | one item => rfl
      | group entries =>
          rw [map, at?, at?, get?_mapEntries]
          cases Entries.get? entries key with
          | none => rfl
          | some inner => exact ih inner

mutual

theorem map_map (g : β → γ) (f : α → β) : ∀ b : Bundle α, (b.map f).map g = b.map (g ∘ f)
  | .one _ => rfl
  | .group entries => by rw [map, map, map, mapEntries_mapEntries g f entries]

theorem mapEntries_mapEntries (g : β → γ) (f : α → β) : ∀ entries : List (String × Bundle α),
    mapEntries g (mapEntries f entries) = mapEntries (g ∘ f) entries
  | [] => rfl
  | (key, b) :: rest => by
      rw [mapEntries, mapEntries, mapEntries, map_map g f b, mapEntries_mapEntries g f rest]

end

mutual

/-- Changes that agree on the items of a bundle make the same bundle. -/
theorem map_congr {f g : α → β} : ∀ b : Bundle α, (∀ a ∈ b.items, f a = g a) → b.map f = b.map g
  | .one item, h => by rw [map, map, h item List.mem_cons_self]
  | .group entries, h => by rw [map, map, mapEntries_congr entries h]

theorem mapEntries_congr {f g : α → β} : ∀ entries : List (String × Bundle α),
    (∀ a ∈ itemsOfEntries entries, f a = g a) → mapEntries f entries = mapEntries g entries
  | [], _ => rfl
  | (key, b) :: rest, h => by
      have hb := map_congr b fun a ha => h a (List.mem_append_left _ ha)
      have hrest := mapEntries_congr rest fun a ha => h a (List.mem_append_right _ ha)
      rw [mapEntries, mapEntries, hb, hrest]

end

/-! ### Visiting -/

section Traverse

variable {enter : γ → String → γ} {visit : γ → α → Except ε β}

lemma traverseEntries_cons {context : γ} {key : String} {b : Bundle α}
    {rest : List (String × Bundle α)} {made : List (String × Bundle β)}
    (h : traverseEntries enter visit context ((key, b) :: rest) = .ok made) :
    ∃ first others, b.traverse enter visit (enter context key) = .ok first ∧
      traverseEntries enter visit context rest = .ok others ∧ made = (key, first) :: others := by
  rw [traverseEntries] at h
  obtain ⟨first, hfirst, h⟩ := bind_eq_ok.mp h
  obtain ⟨others, hothers, h⟩ := bind_eq_ok.mp h
  exact ⟨first, others, hfirst, hothers, (Except.ok.inj h).symm⟩

/-- A visit keeps the keys of entries. -/
lemma keys_of_traverseEntries {context : γ} {entries : List (String × Bundle α)}
    {made : List (String × Bundle β)}
    (h : traverseEntries enter visit context entries = .ok made) :
    made.map Prod.fst = entries.map Prod.fst := by
  induction entries generalizing made with
  | nil =>
      obtain rfl := Except.ok.inj h
      rfl
  | cons first rest ih =>
      obtain ⟨key, b⟩ := first
      obtain ⟨b', others, _, hothers, rfl⟩ := traverseEntries_cons h
      simp only [List.map_cons, ih hothers]

mutual

/-- A visit keeps the order. -/
theorem ordered_of_traverse : ∀ {b : Bundle α} {context : γ} {made : Bundle β},
    b.Ordered → b.traverse enter visit context = .ok made → made.Ordered
  | .one item, context, made, _, h => by
      obtain ⟨item', _, rfl⟩ := map_eq_ok.mp h
      trivial
  | .group entries, context, made, ho, h => by
      obtain ⟨others, hothers, rfl⟩ := map_eq_ok.mp h
      have hkeys := keys_of_traverseEntries hothers
      exact ⟨entriesOrdered_of_keys hkeys ho.1, orderedEntries_of_traverse ho.2 hothers⟩

theorem orderedEntries_of_traverse : ∀ {entries : List (String × Bundle α)} {context : γ}
    {made : List (String × Bundle β)}, OrderedEntries entries →
    traverseEntries enter visit context entries = .ok made → OrderedEntries made
  | [], context, made, _, h => by
      obtain rfl := Except.ok.inj h
      trivial
  | (key, b) :: rest, context, made, ho, h => by
      obtain ⟨first, others, hfirst, hothers, rfl⟩ := traverseEntries_cons h
      exact ⟨ordered_of_traverse ho.1 hfirst, orderedEntries_of_traverse ho.2 hothers⟩

end

mutual

/-- What every visit gives holds of all items of a bundle that is made. -/
theorem forall_items_of_traverse {p : β → Prop}
    (hvisit : ∀ context a item, visit context a = .ok item → p item) :
    ∀ {b : Bundle α} {context : γ} {made : Bundle β},
      b.traverse enter visit context = .ok made → ∀ item ∈ made.items, p item
  | .one item, context, made, h => by
      obtain ⟨item', hitem, rfl⟩ := map_eq_ok.mp h
      intro a ha
      obtain rfl := List.mem_singleton.mp ha
      exact hvisit context item a hitem
  | .group entries, context, made, h => by
      obtain ⟨others, hothers, rfl⟩ := map_eq_ok.mp h
      exact forall_items_of_traverseEntries hvisit hothers

theorem forall_items_of_traverseEntries {p : β → Prop}
    (hvisit : ∀ context a item, visit context a = .ok item → p item) :
    ∀ {entries : List (String × Bundle α)} {context : γ} {made : List (String × Bundle β)},
      traverseEntries enter visit context entries = .ok made →
      ∀ item ∈ itemsOfEntries made, p item
  | [], context, made, h => by
      obtain rfl := Except.ok.inj h
      exact fun item hitem => nomatch hitem
  | (key, b) :: rest, context, made, h => by
      obtain ⟨first, others, hfirst, hothers, rfl⟩ := traverseEntries_cons h
      intro item hitem
      rcases List.mem_append.mp hitem with hitem | hitem
      · exact forall_items_of_traverse hvisit hfirst item hitem
      · exact forall_items_of_traverseEntries hvisit hothers item hitem

end

end Traverse

section Map

variable {δ : Type} {enter : γ → String → γ} {visit : γ → δ → Except ε β} {g : α → δ} {f : α → β}
  {kind : ε → Prop}

mutual

/-- **A visit of changed items changes them once more**, unless it fails, if each single visit does
so. -/
theorem yields_traverse : ∀ (b : Bundle α) (context : γ),
    (∀ context, ∀ a ∈ b.items, Yields kind (f a) (visit context (g a))) →
      Yields kind (b.map f) ((b.map g).traverse enter visit context)
  | .one item, context, h => by
      rw [map, map, traverse]
      exact (h context item List.mem_cons_self).map one
  | .group entries, context, h => by
      rw [map, map, traverse]
      exact (yields_traverseEntries entries context h).map group

theorem yields_traverseEntries : ∀ (entries : List (String × Bundle α)) (context : γ),
    (∀ context, ∀ a ∈ itemsOfEntries entries, Yields kind (f a) (visit context (g a))) →
      Yields kind (mapEntries f entries)
        (traverseEntries enter visit context (mapEntries g entries))
  | [], _, _ => .ok []
  | (key, b) :: rest, context, h => by
      rw [mapEntries, mapEntries, traverseEntries]
      refine (yields_traverse b _ fun context a ha => h context a ?_).bind ?_
      · exact List.mem_append_left _ ha
      refine (yields_traverseEntries rest context fun context a ha => h context a ?_).bind (.ok _)
      exact List.mem_append_right _ ha

end

end Map

end MessageCatalog.Bundle
