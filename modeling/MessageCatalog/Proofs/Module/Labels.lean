/-
The labels of loaded plurals.

The loader does not look at the labels of stored plurals, but only at the labels that a module
imports with a rule.

* `Compiler.DeclaresAlike`: a compiler whose rules all declare categories, and the same ones under
  one name;
* `Compiler.Stores`: a stored plural of such a compiler;
* `Module.Imports.covers`: what a host has to declare for the rule of a stored plural;
* `Module.load_labelsKnown`: so the rule of a host knows all labels of a plural that is loaded.
-/
import MessageCatalog.Proofs.Message.Labels
import MessageCatalog.Proofs.Module.Admission

namespace MessageCatalog

open Formatting (Reference)
open Plural (Key Kind Rule)

/-! ### Rules of a compiler -/

namespace Compiler

/-- All rules that a compiler finds declare categories of both kinds, and rules of one name declare
the same ones. Without the check of keys a compiler finds no rules that declare anything. -/
structure DeclaresAlike (compiler : Compiler) : Prop where
  declared : ∀ {locale rule}, compiler.rule locale = .ok rule → ∀ kind, rule.declared kind ≠ []
  alike : ∀ {first second rule other}, compiler.rule first = .ok rule →
    compiler.rule second = .ok other → rule.locale = other.locale →
      ∀ kind category, category ∈ rule.declared kind ↔ category ∈ other.declared kind

variable {compiler : Compiler}

/-- With the check of keys, a compiler has the rules of its provider. -/
lemma provider_of_rule (hchecks : compiler.checkKeys = true) {locale : String} {rule : Rule}
    (h : compiler.rule locale = .ok rule) :
    ∃ name, compiler.resolver.provider name = some rule := by
  rw [Compiler.rule, mapError_eq_ok, Locale.Resolver.resolve, hchecks] at h
  split at h
  · cases h
  · split at h
    · rename_i given hgiven
      obtain ⟨name, _, hname⟩ := List.exists_of_findSome?_eq_some hgiven
      obtain rfl := Except.ok.inj h
      exact ⟨name, hname⟩
    · cases h

/-- The rules of languages declare categories, each language its own ones. -/
theorem declaresAlike_languages (hchecks : compiler.checkKeys = true)
    (hlanguages : compiler.resolver.provider = Plural.languages) : compiler.DeclaresAlike where
  declared h kind := by
    obtain ⟨name, hname⟩ := provider_of_rule hchecks h
    rw [hlanguages] at hname
    obtain ⟨family, _, rfl⟩ := Option.map_eq_some_iff.mp hname
    cases kind <;> cases family <;> exact List.cons_ne_nil _ _
  alike h hother heq kind category := by
    obtain ⟨name, hname⟩ := provider_of_rule hchecks h
    obtain ⟨name', hname'⟩ := provider_of_rule hchecks hother
    rw [hlanguages] at hname hname'
    obtain ⟨family, hfamily, rfl⟩ := Option.map_eq_some_iff.mp hname
    obtain ⟨family', hfamily', rfl⟩ := Option.map_eq_some_iff.mp hname'
    obtain rfl : name = name' := heq
    obtain rfl := Option.some.inj (hfamily.symm.trans hfamily')
    rfl

lemma DeclaresAlike.labels_subset (h : compiler.DeclaresAlike) {first second : String}
    {rule other : Rule} (hrule : compiler.rule first = .ok rule)
    (hother : compiler.rule second = .ok other) (hname : rule.locale = other.locale) (kind : Kind) :
    rule.labels kind ⊆ other.labels kind := by
  intro label hlabel
  obtain ⟨category, hcategory, rfl⟩ := List.mem_map.mp hlabel
  exact List.mem_map_of_mem ((h.alike hrule hother hname kind category).mp hcategory)

/-- A stored plural has the name of a rule of the compiler, which knows its labels. -/
def Stores (compiler : Compiler) : StoredNode → Prop
  | .plural _ kind _ name cases => ∃ locale rule, compiler.rule locale = .ok rule ∧
      rule.locale = name ∧ ∀ c ∈ cases, ∀ label, Key.ofText? c.key = some (.label label) →
        rule.Knows kind label
  | _ => True

/-- A label is read from its own text only. -/
lemma key_of_ofText?_text {key : Key} {label : String}
    (h : Key.ofText? key.text = some (.label label)) : key = .label label := by
  cases key with
  | exact number =>
      rw [Key.text, Key.ofText?, String.toList_ofList] at h
      obtain ⟨_, _, heq⟩ := Option.map_eq_some_iff.mp h
      cases heq
  | label text =>
      rw [Key.text, Key.ofText?] at h
      split at h
      · cases h
      · obtain ⟨_, _, heq⟩ := Option.map_eq_some_iff.mp h
        cases heq
      · exact congrArg Key.label (Key.label.inj (Option.some.inj h))

/-- **What is compiled with a check of keys is stored with labels that its rules know.** -/
lemma stores_of_checked (hdeclares : compiler.DeclaresAlike) {locale : String} {given : Rule}
    (hrule : compiler.rule locale = .ok given) (node : LiveNode) (h : node.Checked given) :
    compiler.Stores (node.map Formatting.Formatter.reference Rule.locale Key.text) := by
  cases node with
  | plural arg kind offset rule cases =>
      obtain ⟨rfl, hlabelled⟩ := h
      rw [Node.map, Node.mapPlural_eq_map]
      refine ⟨locale, rule, hrule, rfl, fun c hc label hlabel => ?_⟩
      obtain ⟨live, hlive, rfl⟩ := List.mem_map.mp hc
      exact hlabelled (hdeclares.declared hrule kind) live hlive label
        (key_of_ofText?_text hlabel)
  | _ => simp only [Node.map, Stores]

/-- The stored form of a compiled source has labels that its rules know. -/
theorem stores_bundle (hdeclares : compiler.DeclaresAlike) {locale : Option String}
    {source : Source} {b : Bundle LiveMessage} (h : compiler.bundle locale source = .ok b) :
    ∀ stored ∈ (Module.store b).items, Node.AllOf compiler.Stores stored.nodes := by
  obtain ⟨selected, htraverse⟩ := bundle_eq_ok h
  have hitems : ∀ m ∈ b.items, Node.AllOf compiler.Stores
      (m.mapNodes Formatting.Formatter.reference Rule.locale Key.text).nodes := by
    refine Bundle.forall_items_of_traverse (fun locale text m hm => ?_) htraverse
    obtain ⟨rule, elements, hrule, _, hmessage⟩ := pattern_eq_ok hm
    exact (all_checked_message hmessage).map (stores_of_checked hdeclares hrule)
  rw [Module.store, Bundle.items_map]
  exact List.forall_mem_map.mpr hitems

/-- The labels that a bundle imports with a rule of a name are those of each rule of that name. -/
lemma covers_importsOf (hdeclares : compiler.DeclaresAlike) {locale : Option String}
    {source : Source} {b : Bundle LiveMessage} (h : compiler.bundle locale source = .ok b)
    {first : String} {rule : Rule} (hrule : compiler.rule first = .ok rule) :
    ∀ e ∈ Module.importsOf b, e.1 = rule.locale →
      ∀ kind, rule.labels kind ⊆ e.2.labels kind := by
  intro e he hname kind
  obtain ⟨other, hother, rfl⟩ := List.mem_map.mp (Entries.mem_of_mem_ofList he)
  obtain ⟨second, hsecond⟩ := (holds_bundle h).rule other (List.mem_reverse.mp hother)
  have hsubset := hdeclares.labels_subset hrule hsecond hname.symm kind
  cases kind <;> exact hsubset

end Compiler

namespace Module

/-! ### Linked plurals -/

/-- The keys of a linked plural are read from those of the stored one. -/
lemma key_of_linked {host : Host} {imported : List String}
    {cases : List (Branch String StoredNode)} {branches : List (Branch Key LiveNode)}
    (h : Node.PluralLinkedTo host imported cases branches) {c : Branch Key LiveNode}
    (hc : c ∈ branches) : ∃ stored ∈ cases, Key.ofText? stored.key = some c.key := by
  induction cases generalizing branches with
  | nil =>
      cases h
      cases hc
  | cons first rest ih =>
      cases h with
      | cons read _ tail =>
          rcases List.mem_cons.mp hc with rfl | hc
          · exact ⟨_, List.mem_cons_self, read⟩
          · obtain ⟨stored, hstored, hkey⟩ := ih tail hc
            exact ⟨stored, List.mem_cons_of_mem _ hstored, hkey⟩

/-- **The check of imported labels is a check of all labels**: with them, the rule of a host knows
the labels of the plurals that a compiler stores. -/
lemma handedOn_labelsKnown {compiler : Compiler} {host : Host} {entries : Entries Import}
    (himports : Imports host entries)
    (hcovers : ∀ {first rule}, compiler.rule first = .ok rule → ∀ e ∈ entries,
      e.1 = rule.locale → ∀ kind, rule.labels kind ⊆ e.2.labels kind) :
    Node.HandedOn host (Entries.keys entries) compiler.Stores Node.LabelsKnown := by
  intro stored live hlinked hstores
  cases hlinked with
  | @plural arg name kind offset rule cases branches listed given _ inner =>
      obtain ⟨first, made, hmade, hname, hknows⟩ := hstores
      obtain ⟨e, he, hkey⟩ := List.mem_map.mp listed
      obtain ⟨found, hfound, hlabels⟩ := himports e he
      obtain rfl := Option.some.inj (hfound.symm.trans (hkey ▸ given))
      intro hdeclared c hc label hlabel
      obtain ⟨case, hcase, hread⟩ := key_of_linked inner hc
      rcases hknows case hcase label (hlabel ▸ hread) with hother | hmem
      · exact .inl hother
      · have hcovered := hcovers hmade e he (hkey.trans hname.symm) kind hmem
        exact .inr (hlabels kind hdeclared hcovered)
  | _ => trivial

/-! ### Loading -/

/-- **The checks of labels compose.** All rules of a compiler declare categories, and those of one
name declare the same ones. Whenever a module that it makes of a source is loaded, by a host with
any rules whatsoever, then for each plural that is loaded, at any depth, the rule that the host gave
it knows all labels of its cases, unless that rule declares nothing for the kind of the plural. -/
theorem load_labelsKnown {compiler : Compiler} (hdeclares : compiler.DeclaresAlike)
    {locale : Option String} {source : Source} (hsource : source.Ordered) {b : Bundle LiveMessage}
    (hcompile : compiler.bundle locale source = .ok b) {target : Target} {text : String}
    (hassemble : assemble b (some target) = .ok (.text text)) (host : Host)
    {loaded : Bundle LiveMessage} (hload : load text host = .ok loaded) :
    ∀ m ∈ loaded.items, Node.AllOf Node.LabelsKnown m.nodes := by
  rw [assemble] at hassemble
  obtain ⟨m, hmodule, htext⟩ := bind_eq_ok.mp hassemble
  obtain rfl := Assembled.text.inj (Except.ok.inj htext)
  rw [load] at hload
  split at hload
  · rename_i m' hread
    have hfinite : ∀ m ∈ b.items, Node.AllOf Node.Finite m.nodes := fun m hm =>
      Node.AllOf.imp (fun _ hnode => hnode.1) m.nodes (Compiler.made_bundle hcompile m hm)
    have hordered := Compiler.ordered_bundle hsource hcompile
    -- What is read back is the module itself, and its entry is the compiled bundle.
    obtain rfl := eq_of_parse?_text (ordered_ofBundle hordered hmodule)
      (finite_ofBundle hfinite hmodule) hread
    have hadmitted := admitted_of_link hload
    obtain ⟨body, hbody, rfl⟩ := ofBundle_eq_ok hmodule
    obtain ⟨entry, hentry, _, hlinked⟩ := hadmitted.keys
    obtain rfl := Except.ok.inj ((entry_of_bodyOf hbody).symm.trans hentry)
    have hhanded := handedOn_labelsKnown hadmitted.imports
      (Compiler.covers_importsOf hdeclares hcompile)
    intro live hlive
    obtain ⟨stored, hstored, _, hnodes⟩ := exists_of_forall₂ hlinked hlive
    exact hnodes.all hhanded (Compiler.stores_bundle hdeclares hcompile stored hstored)
  · cases hload

/-- A host may have rules of its own. This one declares all categories for counting and none for
ranking. -/
theorem load_labelsKnown_english :
    let compiler : Compiler := ⟨⟨Plural.languages, ["en"], "en"⟩, {}, true, true, true⟩
    let source : Source :=
      .one "{n, plural, one{{n, selectordinal, few{#} other{x}}} other{#}}"
    let rule : Rule := ⟨"any", fun _ _ => .other, Plural.Category.all, []⟩
    let host : Host := { rules := fun _ => some rule }
    ∃ b text loaded, compiler.DeclaresAlike ∧ source.Ordered ∧ compiler.bundle none source = .ok b ∧
      assemble b (some .default) = .ok (.text text) ∧ load text host = .ok loaded ∧
      ∀ m ∈ loaded.items, Node.AllOf Node.LabelsKnown m.nodes := by
  intro compiler source rule host
  have hdeclares : compiler.DeclaresAlike := Compiler.declaresAlike_languages rfl rfl
  have hsource : source.Ordered := trivial
  -- The module is linked without its text, as the text is read back as the module.
  let linked (b : Bundle LiveMessage) : Except LoadError (Bundle LiveMessage) := do
    let rules ← importRules host (importsOf b)
    importFormatters host (referencesOf b)
    linkBundle (.imported host rules) (store b)
  have hok : passes (fun b => passes (fun m => passes (fun _ =>
      decide ((json m).depth ≤ Json.nestingLimit)) (linked b)) (ofBundle b .default))
        (compiler.bundle none source) = true := by
    decide +kernel
  obtain ⟨b, hcompile, hok⟩ := passes_eq_true hok
  obtain ⟨m, hmodule, hok⟩ := passes_eq_true hok
  obtain ⟨loaded, hlinked, hdepth⟩ := passes_eq_true hok
  have hload : load m.text host = .ok loaded := by
    rw [load_eq_link hsource hcompile hmodule (of_decide_eq_true hdepth),
      link_eq_linkBundle hmodule]
    exact hlinked
  have hassemble : assemble b (some .default) = .ok (.text m.text) := by
    rw [assemble, hmodule]
    rfl
  exact ⟨b, m.text, loaded, hdeclares, hsource, hcompile, hassemble, hload,
    load_labelsKnown hdeclares hsource hcompile hassemble host hload⟩

end Module

end MessageCatalog
