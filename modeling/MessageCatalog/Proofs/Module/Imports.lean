/-
A module imports exactly what its bundle uses.

* `Reference.mem_sorted_iff`, `Reference.eq_append_of_pairwise`: references in increasing order;
* `mem_keys_importsOf`, `mem_referencesOf`: what a bundle imports is what the plurals and the calls
  that occur in it hold;
* `LoadError.IsIncomplete`, `raises_linkNode`: with all of that, linking fails for other reasons
  only;
* `importRules_eq_error`, `importFormatters_eq_error`: what is missing has been imported;
* `load_eq_error`: why a module of a bundle is not loaded;
* `ImportsExactly`, `imports_exact`: the imports of a module, and what loading it may find missing.
-/
import MessageCatalog.Proofs.Message.Occurrence
import MessageCatalog.Proofs.Module.Mapping
import MessageCatalog.Proofs.Module.Readable
import MessageCatalog.Proofs.Traversal

namespace MessageCatalog

open Formatting (Formatter Reference)
open Plural (Key Rule)

/-! ### References in increasing order -/

namespace Formatting.Reference

variable {r s t : Reference} {rs : List Reference}

lemma mem_insert_iff : s ∈ insert r rs ↔ s = r ∨ s ∈ rs := by
  refine ⟨Module.mem_of_mem_insert, fun h => ?_⟩
  induction rs with
  | nil => exact List.mem_singleton.mpr (h.resolve_right List.not_mem_nil)
  | cons first rest ih =>
      rw [insert]
      split
      · rename_i heq
        rcases h with rfl | h
        · exact heq ▸ List.mem_cons_self
        · exact h
      · split
        · exact List.mem_cons.mpr h
        · rw [List.mem_cons] at h ⊢
          tauto

/-- Sorting references keeps them all. -/
theorem mem_sorted_iff : r ∈ sorted rs ↔ r ∈ rs := by
  induction rs with
  | nil => rfl
  | cons first rest ih =>
      rw [sorted, List.foldr_cons, mem_insert_iff, List.mem_cons]
      exact or_congr_right ih

lemma before_of_not_before (hne : r ≠ s) (h : r.before s ≠ true) : s.before r = true := by
  have hnames : ∀ {a b : String}, a ≠ b → decide (a < b) ≠ true → decide (b < a) = true :=
    fun hne h => decide_eq_true <| lt_of_le_of_ne
      (String.not_lt.mp fun hlt => h (decide_eq_true hlt)) (Ne.symm hne)
  cases r with
  | builtin a =>
      cases s with
      | builtin b => exact hnames (fun heq => hne (congrArg builtin heq)) h
      | custom b => exact absurd rfl h
  | custom a =>
      cases s with
      | builtin b => rfl
      | custom b => exact hnames (fun heq => hne (congrArg custom heq)) h

lemma before_trans (hrs : r.before s = true) (hst : s.before t = true) : r.before t = true := by
  have hnames : ∀ {a b c : String}, decide (a < b) = true → decide (b < c) = true →
      decide (a < c) = true :=
    fun hab hbc => decide_eq_true (String.lt_trans (of_decide_eq_true hab) (of_decide_eq_true hbc))
  cases r <;> cases s <;> cases t <;> first
    | rfl
    | exact hnames hrs hst
    | exact absurd hrs Bool.false_ne_true
    | exact absurd hst Bool.false_ne_true

lemma pairwise_insert (h : rs.Pairwise fun a b => a.before b = true) :
    (insert r rs).Pairwise fun a b => a.before b = true := by
  induction rs with
  | nil => exact List.pairwise_singleton _ _
  | cons first rest ih =>
      obtain ⟨hfirst, hrest⟩ := List.pairwise_cons.mp h
      rw [insert]
      split
      · exact h
      · rename_i hne
        split
        · rename_i hbefore
          refine List.pairwise_cons.mpr ⟨fun s hs => ?_, h⟩
          rcases List.mem_cons.mp hs with rfl | hs
          · exact hbefore
          · exact before_trans hbefore (hfirst s hs)
        · rename_i hbefore
          refine List.pairwise_cons.mpr ⟨fun s hs => ?_, ih hrest⟩
          rcases mem_insert_iff.mp hs with rfl | hs
          · exact before_of_not_before hne hbefore
          · exact hfirst s hs

lemma pairwise_sorted (rs : List Reference) :
    (sorted rs).Pairwise fun a b => a.before b = true := by
  induction rs with
  | nil => exact .nil
  | cons first rest ih => exact pairwise_insert ih

/-- References in increasing order are those to built-in formatters and those to custom ones, each
in the order of their names. -/
lemma eq_append_of_pairwise (h : rs.Pairwise fun a b => a.before b = true) :
    ∃ builtins customs : List String, rs = builtins.map .builtin ++ customs.map .custom ∧
      builtins.Pairwise (· < ·) ∧ customs.Pairwise (· < ·) := by
  induction rs with
  | nil => exact ⟨[], [], rfl, .nil, .nil⟩
  | cons first rest ih =>
      obtain ⟨hfirst, hrest⟩ := List.pairwise_cons.mp h
      obtain ⟨builtins, customs, rfl, hbuiltins, hcustoms⟩ := ih hrest
      have hbuiltin : ∀ name ∈ builtins, first.before (.builtin name) = true := fun name hname =>
        hfirst _ (List.mem_append_left _ (List.mem_map_of_mem hname))
      have hcustom : ∀ name ∈ customs, first.before (.custom name) = true := fun name hname =>
        hfirst _ (List.mem_append_right _ (List.mem_map_of_mem hname))
      cases first with
      | builtin own =>
          refine ⟨own :: builtins, customs, rfl, List.pairwise_cons.mpr ⟨fun name hname => ?_,
            hbuiltins⟩, hcustoms⟩
          exact of_decide_eq_true (hbuiltin name hname)
      | custom own =>
          cases builtins with
          | cons name _ => exact absurd (hbuiltin name List.mem_cons_self) Bool.false_ne_true
          | nil =>
              refine ⟨[], own :: customs, rfl, .nil, List.pairwise_cons.mpr ⟨fun name hname => ?_,
                hcustoms⟩⟩
              exact of_decide_eq_true (hcustom name hname)

end Formatting.Reference

/-! ### What a bundle imports -/

namespace Module

variable {b : Bundle LiveMessage}

/-- The rules of a bundle are those of the plurals that occur in it. -/
lemma mem_rulesOf_iff {rule : Rule} : rule ∈ rulesOf b ↔ b.UsesRule rule := by
  simp only [rulesOf, List.mem_flatMap, Node.rulesOfAll_eq, Node.mem_rules_iff]
  constructor
  · rintro ⟨m, hm, tree, htree, arg, kind, offset, cases, h⟩
    exact ⟨arg, kind, offset, cases, Bundle.contains_iff.mpr ⟨m, hm, tree, htree, h⟩⟩
  · rintro ⟨arg, kind, offset, cases, h⟩
    obtain ⟨m, hm, tree, htree, h⟩ := Bundle.contains_iff.mp h
    exact ⟨m, hm, tree, htree, arg, kind, offset, cases, h⟩

/-- The formatters of a bundle are those of the calls that occur in it. -/
lemma mem_formattersOf_iff {formatter : Formatter} :
    formatter ∈ formattersOf b ↔ b.UsesFormatter formatter := by
  simp only [formattersOf, List.mem_flatMap, Node.formattersOfAll_eq, Node.mem_formatters_iff]
  constructor
  · rintro ⟨m, hm, tree, htree, arg, locale, style, h⟩
    exact ⟨arg, locale, style, Bundle.contains_iff.mpr ⟨m, hm, tree, htree, h⟩⟩
  · rintro ⟨arg, locale, style, h⟩
    obtain ⟨m, hm, tree, htree, h⟩ := Bundle.contains_iff.mp h
    exact ⟨m, hm, tree, htree, arg, locale, style, h⟩

/-- **A bundle imports the rules that it uses, by their names.** -/
theorem mem_keys_importsOf {name : String} :
    name ∈ Entries.keys (importsOf b) ↔ ∃ rule, b.UsesRule rule ∧ rule.locale = name := by
  constructor
  · intro h
    obtain ⟨e, he, rfl⟩ := List.mem_map.mp h
    obtain ⟨rule, hrule, rfl⟩ := List.mem_map.mp (Entries.mem_of_mem_ofList he)
    exact ⟨rule, mem_rulesOf_iff.mp (List.mem_reverse.mp hrule), rfl⟩
  · rintro ⟨rule, hrule, rfl⟩
    have hmem : (rule.locale, importOf rule) ∈
        (rulesOf b).reverse.map fun rule => (rule.locale, importOf rule) :=
      List.mem_map_of_mem (List.mem_reverse.mpr (mem_rulesOf_iff.mpr hrule))
    obtain ⟨found, hfound⟩ := Option.isSome_iff_exists.mp (Entries.get?_ofList_isSome hmem)
    exact List.mem_map_of_mem (f := Prod.fst) (Bundle.mem_of_get? hfound)

/-- **A bundle imports the formatters that it uses.** -/
theorem mem_referencesOf {reference : Reference} : reference ∈ referencesOf b ↔
    ∃ formatter, b.UsesFormatter formatter ∧ formatter.reference = reference := by
  rw [referencesOf, Reference.mem_sorted_iff, List.mem_map]
  simp only [mem_formattersOf_iff]

/-! ### Linking with all that is used -/

/-- An error that has nothing to do with what a host has. -/
def LoadError.IsIncomplete (e : LoadError) : Prop :=
  (∃ arg, e = .invalid (.noOther arg)) ∨ ∃ key, e = .invalid (.badKey key)

/-- What a stored node holds is found. -/
def Linking.Finds (linking : Linking) : StoredNode → Prop
  | .call _ reference _ _ => ∃ formatter, linking.formatter reference = .ok formatter
  | .plural _ _ _ name _ => ∃ rule, linking.rule name = .ok rule
  | _ => True

section Linking

variable {linking : Linking}

lemma raises_checkOther {ν : Type} (arg : String) (cases : List (Branch String ν)) :
    Raises LoadError.IsIncomplete (checkOther arg cases) := by
  rw [checkOther]
  split
  · exact .ok ()
  · exact .error (.inl ⟨arg, rfl⟩)

lemma raises_linkKey (text : String) : Raises LoadError.IsIncomplete (linkKey text) := by
  rw [linkKey]
  split
  · exact .ok _
  · exact .error (.inr ⟨text, rfl⟩)

mutual

/-- **A node is linked unless its choices are incomplete or their keys cannot be read**, if all that
the nodes in it hold is found. -/
theorem raises_linkNode : ∀ node : StoredNode, node.All linking.Finds →
    Raises LoadError.IsIncomplete (linkNode linking node)
  | .text value, _ | .argument name, _ | .numberSign arg offset strict, _ => by
      rw [linkNode]
      exact .ok _
  | .call arg reference locale style, h => by
      simp only [Node.All] at h
      obtain ⟨formatter, hformatter⟩ := h
      rw [linkNode, hformatter]
      exact .ok _
  | .plural arg kind offset name cases, h => by
      rw [Node.All] at h
      obtain ⟨⟨rule, hrule⟩, hcases⟩ := h
      rw [linkNode, hrule]
      refine (raises_checkOther arg cases).bind fun _ => ?_
      exact (raises_linkPlural cases hcases).bind fun _ => .ok _
  | .select arg cases, h => by
      rw [Node.All] at h
      rw [linkNode]
      refine (raises_checkOther arg cases).bind fun _ => ?_
      exact (raises_linkSelect cases h.2).bind fun _ => .ok _
  | .isolate inner, h => by
      rw [Node.All] at h
      rw [linkNode]
      exact (raises_linkNode inner h.2).bind fun _ => .ok _

theorem raises_linkNodes : ∀ nodes : List StoredNode, Node.AllOf linking.Finds nodes →
    Raises LoadError.IsIncomplete (linkNodes linking nodes)
  | [], _ => by
      rw [linkNodes]
      exact .ok _
  | node :: rest, h => by
      rw [Node.AllOf] at h
      rw [linkNodes]
      refine (raises_linkNode node h.1).bind fun _ => ?_
      exact (raises_linkNodes rest h.2).bind fun _ => .ok _

theorem raises_linkPlural : ∀ cases : List (Branch String StoredNode),
    Node.AllPlural linking.Finds cases → Raises LoadError.IsIncomplete (linkPlural linking cases)
  | [], _ => by
      rw [linkPlural]
      exact .ok _
  | ⟨text, body⟩ :: rest, h => by
      rw [Node.AllPlural] at h
      rw [linkPlural]
      refine (raises_linkKey text).bind fun _ => (raises_linkNodes body h.1).bind fun _ => ?_
      exact (raises_linkPlural rest h.2).bind fun _ => .ok _

theorem raises_linkSelect : ∀ cases : List (Branch String StoredNode),
    Node.AllSelect linking.Finds cases → Raises LoadError.IsIncomplete (linkSelect linking cases)
  | [], _ => by
      rw [linkSelect]
      exact .ok _
  | ⟨key, body⟩ :: rest, h => by
      rw [Node.AllSelect] at h
      rw [linkSelect]
      refine (raises_linkNodes body h.1).bind fun _ => ?_
      exact (raises_linkSelect rest h.2).bind fun _ => .ok _

end

/-- A bundle is linked unless its choices are incomplete or their keys cannot be read, if all that
its nodes hold is found. -/
lemma raises_linkBundle {entry : Entry} (ho : entry.Ordered)
    (h : ∀ m ∈ entry.items, Node.AllOf linking.Finds m.nodes) :
    Raises LoadError.IsIncomplete (linkBundle linking entry) := by
  intro e he
  obtain ⟨path, hfirst⟩ := Bundle.firstFailure_of_traverse ho he
  obtain ⟨m, hat, hfails⟩ := hfirst.fails
  have hm : m ∈ entry.items := Bundle.items_subset_of_at? hat List.mem_cons_self
  exact ((raises_linkNodes m.nodes (h m hm)).bind fun _ => .ok _) e hfails

/-- What the nodes of a stored bundle hold is found, if what the bundle uses is. -/
lemma finds_store (hrules : ∀ rule, b.UsesRule rule → ∃ given, linking.rule rule.locale = .ok given)
    (hformatters : ∀ formatter, b.UsesFormatter formatter →
      ∃ given, linking.formatter formatter.reference = .ok given) :
    ∀ m ∈ (store b).items, Node.AllOf linking.Finds m.nodes := by
  intro stored hstored
  rw [store, Bundle.items_map] at hstored
  obtain ⟨m, hm, rfl⟩ := List.mem_map.mp hstored
  have hlive : Node.AllOf
      (fun node => linking.Finds (node.map Formatter.reference Rule.locale Key.text)) m.nodes := by
    refine Node.allOf_iff.mpr fun tree htree => Node.all_iff_occurs.mpr fun node hnode => ?_
    have hcontains : Bundle.Contains node b := Bundle.contains_iff.mpr ⟨m, hm, tree, htree, hnode⟩
    cases node with
    | call arg formatter locale style => exact hformatters _ ⟨arg, locale, style, hcontains⟩
    | plural arg kind offset rule cases => exact hrules _ ⟨arg, kind, offset, cases, hcontains⟩
    | _ => trivial
  exact hlive.map fun _ h => h

end Linking

/-! ### What is missing -/

section Missing

variable {host : Host} {e : LoadError}

lemma checkLabels_eq_error {locale : String} {rule : Rule} {kind : Plural.Kind}
    {labels : List String} (h : checkLabels locale rule kind labels = .error e) :
    ∃ label, e = .invalid (.lacksCategory locale kind label) := by
  rw [checkLabels] at h
  split at h
  · cases h
  · split at h
    · rename_i label _
      exact ⟨label, (Except.error.inj h).symm⟩
    · cases h

/-- Rules cannot be imported if one of them is missing or does not declare enough. -/
lemma importRules_eq_error {entries : Entries Import} (h : importRules host entries = .error e) :
    (∃ name ∈ Entries.keys entries, e = .locale name ∧ host.rules name = none) ∨
      ∃ locale kind label, e = .invalid (.lacksCategory locale kind label) := by
  induction entries with
  | nil => cases h
  | cons first rest ih =>
      obtain ⟨name, categories⟩ := first
      rw [importRules] at h
      rcases bind_eq_error.mp h with h | ⟨rule, -, h⟩
      -- The first import fails: the host has no such rule, or it has one that lacks a category.
      · rw [importRule] at h
        rcases bind_eq_error.mp h with h | ⟨rule, -, h⟩
        · refine .inl ⟨name, List.mem_cons_self, ?_⟩
          rw [Host.rule] at h
          split at h
          · cases h
          · rename_i hnone
            exact ⟨(Except.error.inj h).symm, hnone⟩
        · refine .inr ⟨name, ?_⟩
          rcases bind_eq_error.mp h with h | ⟨_, -, h⟩
          · exact ⟨.cardinal, checkLabels_eq_error h⟩
          · rcases bind_eq_error.mp h with h | ⟨_, -, h⟩
            · exact ⟨.ordinal, checkLabels_eq_error h⟩
            · cases h
      · rcases bind_eq_error.mp h with h | ⟨_, -, h⟩
        · rcases ih h with ⟨missing, hmissing, hrest⟩ | h
          · exact .inl ⟨missing, List.mem_cons_of_mem _ hmissing, hrest⟩
          · exact .inr h
        · cases h

/-- Formatters cannot be imported if one of them is missing. -/
lemma importFormatters_eq_error {references : List Reference}
    (h : importFormatters host references = .error e) :
    ∃ reference ∈ references, e = .formatter reference.name ∧ host.formatter? reference = none := by
  induction references with
  | nil => cases h
  | cons first rest ih =>
      rw [importFormatters] at h
      rcases bind_eq_error.mp h with h | ⟨_, -, h⟩
      · refine ⟨first, List.mem_cons_self, ?_⟩
        rw [Host.formatter] at h
        split at h
        · cases h
        · rename_i hnone
          exact ⟨(Except.error.inj h).symm, hnone⟩
      · obtain ⟨reference, hmem, hrest⟩ := ih h
        exact ⟨reference, List.mem_cons_of_mem _ hmem, hrest⟩

/-- Each imported name has a rule. -/
lemma exists_of_importRules {entries : Entries Import} {rules : Entries Rule}
    (h : importRules host entries = .ok rules) :
    ∀ name ∈ Entries.keys entries, ∃ rule, Entries.get? rules name = some rule := by
  induction entries generalizing rules with
  | nil => exact fun _ hname => nomatch hname
  | cons first rest ih =>
      obtain ⟨own, categories⟩ := first
      rw [importRules] at h
      obtain ⟨rule, -, h⟩ := bind_eq_ok.mp h
      obtain ⟨others, hothers, h⟩ := bind_eq_ok.mp h
      obtain rfl := Except.ok.inj h
      intro name hname
      rw [Entries.get?_cons]
      split
      · exact ⟨rule, rfl⟩
      · rename_i hne
        exact ih hothers name ((List.mem_cons.mp hname).resolve_left hne)

/-- Each imported reference has a formatter. -/
lemma exists_of_importFormatters {references : List Reference}
    (h : importFormatters host references = .ok ()) :
    ∀ reference ∈ references, ∃ formatter, host.formatter reference = .ok formatter := by
  induction references with
  | nil => exact fun _ hreference => nomatch hreference
  | cons first rest ih =>
      rw [importFormatters] at h
      obtain ⟨formatter, hformatter, h⟩ := bind_eq_ok.mp h
      exact List.forall_mem_cons.mpr ⟨⟨formatter, hformatter⟩, ih h⟩

end Missing

/-! ### Modules -/

section Modules

variable {target : Target} {m : Module} {host : Host}

/-- **With all imports, a module of a bundle is linked unless choices are incomplete or keys cannot
be read.** -/
theorem raises_linkBundle_imported (ho : b.Ordered) {rules : Entries Rule}
    (hrules : importRules host (importsOf b) = .ok rules)
    (hformatters : importFormatters host (referencesOf b) = .ok ()) :
    Raises LoadError.IsIncomplete (linkBundle (.imported host rules) (store b)) := by
  refine raises_linkBundle (Bundle.ordered_map _ b ho) (finds_store ?_ ?_)
  · intro rule hrule
    obtain ⟨given, hgiven⟩ :=
      exists_of_importRules hrules rule.locale (mem_keys_importsOf.mpr ⟨rule, hrule, rfl⟩)
    exact ⟨given, by simp only [Linking.imported, hgiven]⟩
  · intro formatter hformatter
    exact exists_of_importFormatters hformatters _
      (mem_referencesOf.mpr ⟨formatter, hformatter, rfl⟩)

/-- **Why the module of a bundle is not loaded**: its text cannot be read, or the host lacks
something that the bundle uses, or a choice is incomplete, or a key cannot be read. -/
theorem load_eq_error (ho : b.Ordered) (hmodule : ofBundle b target = .ok m) {e : LoadError}
    (h : load m.text host = .error e) :
    e = .json ∨
    (∃ rule, b.UsesRule rule ∧ e = .locale rule.locale ∧ host.rules rule.locale = none) ∨
    (∃ locale kind label, e = .invalid (.lacksCategory locale kind label)) ∨
    (∃ formatter, b.UsesFormatter formatter ∧ e = .formatter formatter.reference.name ∧
      host.formatter? formatter.reference = none) ∨
    e.IsIncomplete := by
  rw [load] at h
  rcases parse?_text_cases (ordered_ofBundle ho hmodule) with ⟨-, hread⟩ | ⟨-, hread⟩
  · rw [hread] at h
    replace h : m.link host = .error e := h
    -- Rules are looked up first, then formatters, and only then the entry is linked.
    rw [link_eq_linkBundle hmodule] at h
    rcases bind_eq_error.mp h with h | ⟨rules, hrules, h⟩
    · rcases importRules_eq_error h with ⟨name, hname, rfl, hnone⟩ | h
      · obtain ⟨rule, hrule, rfl⟩ := mem_keys_importsOf.mp hname
        exact .inr (.inl ⟨rule, hrule, rfl, hnone⟩)
      · exact .inr (.inr (.inl h))
    · rcases bind_eq_error.mp h with h | ⟨_, hformatters, h⟩
      · obtain ⟨reference, hmem, rfl, hnone⟩ := importFormatters_eq_error h
        obtain ⟨formatter, hformatter, rfl⟩ := mem_referencesOf.mp hmem
        exact .inr (.inr (.inr (.inl ⟨formatter, hformatter, rfl, hnone⟩)))
      · exact .inr (.inr (.inr (.inr (raises_linkBundle_imported ho hrules hformatters e h))))
  · rw [hread] at h
    exact .inl (Except.error.inj h).symm

/-- What a module imports for a bundle: the rule of each plural and the formatter of each call that
occur in the bundle, and nothing else. Names of rules are in increasing order, and so are names of
formatters, the built-in ones before the custom ones. -/
structure ImportsExactly (m : Module) (b : Bundle LiveMessage) : Prop where
  locales : ∀ name,
    name ∈ Entries.keys m.locales ↔ ∃ rule, b.UsesRule rule ∧ rule.locale = name
  localesOrdered : m.locales.Ordered
  formatters : ∀ reference,
    reference ∈ m.formatters ↔ ∃ formatter, b.UsesFormatter formatter ∧
      formatter.reference = reference
  formattersOrdered : ∃ builtins customs : List String,
    m.formatters = builtins.map .builtin ++ customs.map .custom ∧
      builtins.Pairwise (· < ·) ∧ customs.Pairwise (· < ·)

lemma importsExactly_ofBundle (hmodule : ofBundle b target = .ok m) : m.ImportsExactly b := by
  obtain ⟨body, -, rfl⟩ := ofBundle_eq_ok hmodule
  exact ⟨fun _ => mem_keys_importsOf, Entries.ordered_ofList _, fun _ => mem_referencesOf,
    Reference.eq_append_of_pairwise (Reference.pairwise_sorted _)⟩

/-- **A module imports exactly what its bundle uses**, and the same for all targets. So when a
module is loaded, only what its bundle uses can be missing; and once all imports are there, the
nodes of the module are linked, unless a choice is incomplete or a key cannot be read. -/
theorem imports_exact (ho : b.Ordered) (hmodule : ofBundle b target = .ok m) :
    m.ImportsExactly b ∧
    (∀ target' m', ofBundle b target' = .ok m' →
      m'.locales = m.locales ∧ m'.formatters = m.formatters) ∧
    (∀ host name, load m.text host = .error (.locale name) →
      host.rules name = none ∧ ∃ rule, b.UsesRule rule ∧ rule.locale = name) ∧
    (∀ host name, load m.text host = .error (.formatter name) →
      ∃ formatter, b.UsesFormatter formatter ∧ formatter.reference.name = name ∧
        host.formatter? formatter.reference = none) ∧
    ∀ host rules entry, importRules host m.locales = .ok rules →
      importFormatters host m.formatters = .ok () → m.body.entry target = .ok entry →
      Raises LoadError.IsIncomplete (linkBundle (.imported host rules) entry) := by
  refine ⟨importsExactly_ofBundle hmodule, ?_, ?_, ?_, ?_⟩
  · intro target' m' hmodule'
    obtain ⟨_, -, rfl⟩ := ofBundle_eq_ok hmodule
    obtain ⟨_, -, rfl⟩ := ofBundle_eq_ok hmodule'
    exact ⟨rfl, rfl⟩
  · intro host name h
    rcases load_eq_error ho hmodule h with h | ⟨rule, hrule, heq, hnone⟩ | ⟨_, _, _, h⟩ |
      ⟨_, -, h, -⟩ | ⟨_, h⟩ | ⟨_, h⟩
    -- Of all errors of loading one is about a rule that the host does not have.
    case inr.inl =>
      obtain rfl := LoadError.locale.inj heq
      exact ⟨hnone, rule, hrule, rfl⟩
    all_goals cases h
  · intro host name h
    rcases load_eq_error ho hmodule h with h | ⟨_, -, h, -⟩ | ⟨_, _, _, h⟩ |
      ⟨formatter, hformatter, heq, hnone⟩ | ⟨_, h⟩ | ⟨_, h⟩
    -- Of all errors of loading one is about a formatter that the host does not have.
    case inr.inr.inr.inl =>
      exact ⟨formatter, hformatter, (LoadError.formatter.inj heq).symm, hnone⟩
    all_goals cases h
  · intro host rules entry hrules hformatters hentry
    obtain ⟨body, hbody, rfl⟩ := ofBundle_eq_ok hmodule
    obtain rfl := Except.ok.inj ((entry_of_bodyOf hbody).symm.trans hentry)
    exact raises_linkBundle_imported ho hrules hformatters

/-- What stands in a case that no value picks, inside another node, is imported too. With a host
that has it, the module is linked. -/
theorem imports_exact_nested :
    let shout : Formatting.Format := fun request => request.value.render ++ "!"
    let rule : Rule := ⟨"ru", fun _ _ => .other, [.other], []⟩
    let select : LiveNode := .isolate (.select "kind"
      [⟨"never", [.call "name" (.custom "shout" shout) "en" none]⟩, ⟨"other", []⟩])
    let b : Bundle LiveMessage := .group [("app", .group [("greeting",
      .one ⟨"en", [.plural "n" .cardinal 0 rule [⟨.label "other", [select]⟩]]⟩)])]
    let host : Host := ⟨fun name => if name = "ru" then some rule else none, none,
      [("shout", shout)]⟩
    ∃ m, b.Ordered ∧ ofBundle b .default = .ok m ∧
      "ru" ∈ Entries.keys m.locales ∧ .custom "shout" ∈ m.formatters ∧
      importRules host m.locales = .ok [("ru", rule)] ∧
      importFormatters host m.formatters = .ok () ∧
      Raises LoadError.IsIncomplete (linkBundle (.imported host [("ru", rule)]) (store b)) := by
  intro shout rule select b host
  have ho : b.Ordered := ⟨List.pairwise_singleton _ _,
    ⟨List.pairwise_singleton _ _, trivial, trivial⟩, trivial⟩
  have hb {node : LiveNode} (h : node.Occurs
      (.plural "n" .cardinal 0 rule [⟨.label "other", [select]⟩])) : Bundle.Contains node b :=
    .group List.mem_cons_self (.group List.mem_cons_self (.one List.mem_cons_self h))
  have hcall : (Node.call "name" (.custom "shout" shout) "en" none).Occurs select :=
    .isolate (.select List.mem_cons_self List.mem_cons_self .here)
  refine ⟨_, ho, rfl, ?_⟩
  obtain ⟨himports, -, -, -, hlink⟩ := @imports_exact b .default _ ho rfl
  have hrules : importRules host (importsOf b) = .ok [("ru", rule)] := rfl
  have hformatters : importFormatters host (referencesOf b) = .ok () := rfl
  refine ⟨?_, ?_, hrules, hformatters, hlink host _ _ hrules hformatters rfl⟩
  · exact (himports.locales _).mpr ⟨rule, ⟨_, _, _, _, hb .here⟩, rfl⟩
  · exact (himports.formatters _).mpr ⟨.custom "shout" shout, ⟨_, _, _,
      hb (.plural List.mem_cons_self List.mem_cons_self hcall)⟩, rfl⟩

end Modules

end Module

end MessageCatalog
