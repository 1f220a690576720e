/-
Values under string keys.

Entries are kept in increasing order of their keys, with no key twice. Keys are compared by code
points, which is also the order of their UTF-8 bytes. Main definitions:

* `Entries.get?`, `Entries.insert`, `Entries.ofList`: look-up, insertion that replaces, and
  building from pairs of which the last one with a key wins;
* `Entries.Ordered`: the invariant, which `ordered_insert` and `ordered_ofList` keep;
* `Entries.get?_insert`: what insertion does to look-up.
-/

namespace MessageCatalog

/-- Pairs of a key and a value, in increasing order of the keys. -/
abbrev Entries (α : Type) := List (String × α)

namespace Entries

variable {α : Type}

/-- The value under a key. -/
def get? (entries : Entries α) (key : String) : Option α :=
  List.lookup key entries

/-- Puts a value under a key, in place of the one that was there. -/
def insert (key : String) (value : α) : Entries α → Entries α
  | [] => [(key, value)]
  | (k, v) :: rest =>
    if key < k then (key, value) :: (k, v) :: rest
    else if key = k then (key, value) :: rest
    else (k, v) :: insert key value rest

/-- Builds entries from pairs in any order; of two pairs with one key the later one stays. -/
def ofList (pairs : List (String × α)) : Entries α :=
  pairs.foldl (fun entries pair => insert pair.1 pair.2 entries) []

/-- The keys in order. -/
def keys (entries : Entries α) : List String :=
  entries.map (·.1)

/-- Whether there is a value under a key. -/
def contains (entries : Entries α) (key : String) : Bool :=
  (get? entries key).isSome

/-- Keys strictly increase. -/
def Ordered (entries : Entries α) : Prop :=
  entries.Pairwise fun a b => a.1 < b.1

/-! ### Insertion -/

/-- Every key after an insertion is the inserted one or was there before. -/
theorem key_of_mem_insert {key : String} {value : α} {entries : Entries α} {entry : String × α}
    (h : entry ∈ insert key value entries) : entry.1 = key ∨ ∃ e ∈ entries, e.1 = entry.1 := by
  induction entries with
  | nil => exact .inl (by rw [List.mem_singleton.mp h])
  | cons first rest ih =>
    rw [insert] at h
    split at h
    · rcases List.mem_cons.mp h with rfl | h
      · exact .inl rfl
      · exact .inr ⟨entry, h, rfl⟩
    · split at h
      · rcases List.mem_cons.mp h with rfl | h
        · exact .inl rfl
        · exact .inr ⟨entry, List.mem_cons_of_mem _ h, rfl⟩
      · rcases List.mem_cons.mp h with rfl | h
        · exact .inr ⟨_, List.mem_cons_self, rfl⟩
        · rcases ih h with h | ⟨e, he, hk⟩
          · exact .inl h
          · exact .inr ⟨e, List.mem_cons_of_mem _ he, hk⟩

/-- Insertion keeps the order. -/
theorem ordered_insert {key : String} {value : α} {entries : Entries α} (h : Ordered entries) :
    Ordered (insert key value entries) := by
  induction entries with
  | nil => exact List.pairwise_singleton _ _
  | cons first rest ih =>
    obtain ⟨hfirst, hrest⟩ := List.pairwise_cons.mp h
    rw [insert]
    split
    · rename_i hlt
      refine List.pairwise_cons.mpr ⟨fun e he => ?_, h⟩
      rcases List.mem_cons.mp he with rfl | he
      · exact hlt
      · exact String.lt_trans hlt (hfirst e he)
    · split
      · rename_i heq
        exact List.pairwise_cons.mpr ⟨fun e he => heq ▸ hfirst e he, hrest⟩
      · rename_i hlt hne
        refine List.pairwise_cons.mpr ⟨fun e he => ?_, ih hrest⟩
        rcases key_of_mem_insert he with hk | ⟨e', he', hk⟩
        · exact hk ▸ Std.lt_of_le_of_ne (String.not_lt.mp hlt) (Ne.symm hne)
        · exact hk ▸ hfirst e' he'

/-- Building keeps the order of what is there already. -/
theorem ordered_foldl_insert {pairs : List (String × α)} {entries : Entries α}
    (h : Ordered entries) :
    Ordered (pairs.foldl (fun entries pair => insert pair.1 pair.2 entries) entries) := by
  induction pairs generalizing entries with
  | nil => exact h
  | cons pair rest ih => exact ih (ordered_insert h)

/-- Entries that are built from pairs are in order. -/
theorem ordered_ofList (pairs : List (String × α)) : Ordered (ofList pairs) :=
  ordered_foldl_insert List.Pairwise.nil

/-- Look-up goes through the entries from the front. -/
theorem get?_cons (k : String) (v : α) (rest : Entries α) (key : String) :
    get? ((k, v) :: rest) key = if key = k then some v else get? rest key := by
  by_cases h : key = k
  · simp [get?, h]
  · have hne : (key == k) = false := beq_eq_false_iff_ne.mpr h
    simp [get?, List.lookup_cons, h, hne]

/-- The value under a key after an insertion. -/
theorem get?_insert (key other : String) (value : α) (entries : Entries α) :
    get? (insert key value entries) other =
      if other = key then some value else get? entries other := by
  induction entries with
  | nil => exact get?_cons key value [] other
  | cons first rest ih =>
    obtain ⟨k, v⟩ := first
    rw [insert]
    split
    · exact get?_cons key value _ other
    · split
      · rename_i heq
        subst heq
        simp only [get?_cons]
        split <;> rfl
      · rename_i hne
        simp only [get?_cons, ih]
        by_cases hk : other = k
        · simp [hk, Ne.symm hne]
        · simp [hk]

end Entries

end MessageCatalog
