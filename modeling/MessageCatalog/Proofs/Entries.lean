/-
Entries built from pairs.

* `ofList_of_ordered`: entries in order are built from themselves;
* `mem_of_mem_ofList`, `get?_ofList_isSome`: building adds no pair, and leaves no key out;
* `ofList_map_key`: values that belong to keys may be put in before or after building.
-/
import Mathlib
import MessageCatalog.Entries

namespace MessageCatalog.Entries

variable {α : Type} {entries : Entries α} {key : String} {value : α}

/-! ### Entries in order -/

/-- A key above all others is put at the end. -/
lemma insert_of_forall_lt (h : ∀ e ∈ entries, e.1 < key) :
    insert key value entries = entries ++ [(key, value)] := by
  induction entries with
  | nil => rfl
  | cons first rest ih =>
      obtain ⟨k, v⟩ := first
      have hlt : k < key := h _ List.mem_cons_self
      have hne : key ≠ k := by
        rintro rfl
        exact String.lt_irrefl key hlt
      have hrest := ih fun e he => h e (List.mem_cons_of_mem _ he)
      rw [insert, if_neg (String.lt_asymm hlt), if_neg hne, hrest, List.cons_append]

lemma foldl_insert_of_ordered (pairs : List (String × α)) (h : Ordered (entries ++ pairs)) :
    pairs.foldl (fun entries pair => insert pair.1 pair.2 entries) entries = entries ++ pairs := by
  induction pairs generalizing entries with
  | nil => simp
  | cons pair rest ih =>
      have hlt : ∀ e ∈ entries, e.1 < pair.1 := by
        intro e he
        exact (List.pairwise_append.mp h).2.2 e he pair List.mem_cons_self
      have hmove : entries ++ [(pair.1, pair.2)] ++ rest = entries ++ pair :: rest := by simp
      rw [List.foldl_cons, insert_of_forall_lt hlt, ih (by rwa [hmove]), hmove]

/-- **Entries in order are built from themselves.** -/
theorem ofList_of_ordered (h : Ordered entries) : ofList entries = entries :=
  foldl_insert_of_ordered entries h

/-! ### Pairs and keys -/

lemma mem_of_mem_insert {e : String × α} (h : e ∈ insert key value entries) :
    e = (key, value) ∨ e ∈ entries := by
  induction entries with
  | nil => exact .inl (List.mem_singleton.mp h)
  | cons first rest ih =>
      obtain ⟨k, v⟩ := first
      rw [insert] at h
      split at h
      · rcases List.mem_cons.mp h with h | h
        · exact .inl h
        · exact .inr h
      · split at h
        · rcases List.mem_cons.mp h with h | h
          · exact .inl h
          · exact .inr (List.mem_cons_of_mem _ h)
        · rcases List.mem_cons.mp h with h | h
          · exact .inr (h ▸ List.mem_cons_self)
          · rcases ih h with h | h
            · exact .inl h
            · exact .inr (List.mem_cons_of_mem _ h)

lemma mem_of_mem_foldl_insert {e : String × α} {pairs : List (String × α)}
    (h : e ∈ pairs.foldl (fun entries pair => insert pair.1 pair.2 entries) entries) :
    e ∈ entries ∨ e ∈ pairs := by
  induction pairs generalizing entries with
  | nil => exact .inl h
  | cons pair rest ih =>
      rcases ih h with h | h
      · rcases mem_of_mem_insert h with rfl | h
        · exact .inr List.mem_cons_self
        · exact .inl h
      · exact .inr (List.mem_cons_of_mem _ h)

/-- Building adds no pair. -/
theorem mem_of_mem_ofList {e : String × α} {pairs : List (String × α)} (h : e ∈ ofList pairs) :
    e ∈ pairs := by
  rcases mem_of_mem_foldl_insert h with h | h
  · cases h
  · exact h

lemma get?_foldl_insert_isSome {pairs : List (String × α)}
    (h : (get? entries key).isSome ∨ ∃ e ∈ pairs, e.1 = key) :
    (get? (pairs.foldl (fun entries pair => insert pair.1 pair.2 entries) entries) key).isSome := by
  induction pairs generalizing entries with
  | nil =>
      rcases h with h | ⟨e, he, _⟩
      · exact h
      · cases he
  | cons pair rest ih =>
      apply ih
      rw [get?_insert]
      by_cases hkey : key = pair.1
      · left
        rw [if_pos hkey]
        rfl
      · rw [if_neg hkey]
        rcases h with h | ⟨e, he, rfl⟩
        · exact .inl h
        · rcases List.mem_cons.mp he with rfl | he
          · exact absurd rfl hkey
          · exact .inr ⟨e, he, rfl⟩

/-- Building leaves no key out. -/
theorem get?_ofList_isSome {pairs : List (String × α)} {e : String × α} (h : e ∈ pairs) :
    (get? (ofList pairs) e.1).isSome :=
  get?_foldl_insert_isSome (.inr ⟨e, h, rfl⟩)

/-! ### Values that belong to keys -/

section Values

variable {β : Type} (v : String → β)

lemma insert_map_key (key : String) (value : α) (entries : Entries α) :
    insert key (v key) (entries.map fun e => (e.1, v e.1)) =
      (insert key value entries).map fun e => (e.1, v e.1) := by
  induction entries with
  | nil => rfl
  | cons first rest ih =>
      rw [List.map_cons, insert, insert, ih]
      split
      · rfl
      · split <;> rfl

lemma foldl_insert_map_key (pairs : List (String × α)) (entries : Entries α) :
    (pairs.map fun e => (e.1, v e.1)).foldl (fun entries pair => insert pair.1 pair.2 entries)
        (entries.map fun e => (e.1, v e.1)) =
      (pairs.foldl (fun entries pair => insert pair.1 pair.2 entries) entries).map
        fun e => (e.1, v e.1) := by
  induction pairs generalizing entries with
  | nil => rfl
  | cons pair rest ih =>
      rw [List.map_cons, List.foldl_cons, List.foldl_cons, insert_map_key v pair.1 pair.2, ih]

/-- **Values that belong to keys** may be put in before or after building. -/
theorem ofList_map_key (pairs : List (String × α)) :
    ofList (pairs.map fun e => (e.1, v e.1)) = (ofList pairs).map fun e => (e.1, v e.1) :=
  foldl_insert_map_key v pairs []

end Values

end MessageCatalog.Entries
