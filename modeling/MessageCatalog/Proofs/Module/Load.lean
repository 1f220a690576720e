/-
Modules are loaded as what they were made of.

* `Host.Supplies`: a host that gives what the messages of a bundle need;
* `importRules_eq_ok`, `importFormatters_eq_ok`: such a host has all that the module of the bundle
  imports;
* `load_text`: the text of the module is loaded as a bundle that looks the same and says the same.
-/
import MessageCatalog.Plural.Language
import MessageCatalog.Proofs.Catalog.Compiler
import MessageCatalog.Proofs.Digest.Hash
import MessageCatalog.Proofs.Locale.Fallback
import MessageCatalog.Proofs.Module.Export
import MessageCatalog.Proofs.Module.Link

namespace MessageCatalog

open Formatting (Formatter Reference)
open Plural (Category Kind Rule)

/-! ### Hosts -/

/-- A rule that may be imported in place of another one: what it declares of a kind, if anything,
contains what the other one declares. -/
def Plural.Rule.Covers (a b : Rule) : Prop :=
  ∀ kind, a.declared kind ≠ [] → b.declared kind ⊆ a.declared kind

/-- A host that gives what the messages of a bundle need: for each plural a rule of the same name
that picks the same categories and declares enough of them, and for each call a formatter of the
same kind and name that gives the same texts. -/
structure Host.Supplies (host : Host) (b : Bundle LiveMessage) : Prop where
  rule : ∀ rule ∈ Module.rulesOf b, ∃ given, host.rules rule.locale = some given ∧
    given.PicksLike rule ∧ given.Covers rule
  formatter : ∀ formatter ∈ Module.formattersOf b, ∃ given,
    host.formatter? formatter.reference = some given ∧
      ∀ request, given.run request = formatter.run request

/-- What a host gives under a reference has this reference. -/
lemma Host.reference_of_formatter? {host : Host} {reference : Reference} {given : Formatter}
    (h : host.formatter? reference = some given) : given.reference = reference := by
  cases reference with
  | builtin name =>
      rw [formatter?] at h
      split at h
      · rename_i id backend hname _
        obtain rfl := Option.some.inj h
        have hid : id.name = name := by
          have := List.find?_some hname
          exact eq_of_beq this
        rw [Formatter.reference, hid]
      · cases h
  | custom name =>
      obtain ⟨run, _, rfl⟩ := Option.map_eq_some_iff.mp h
      rfl

/-- The rules of a resolver are those of its provider, possibly without their categories. -/
lemma Locale.Resolver.resolve_eq_ok {resolver : Locale.Resolver} {locale : String}
    {categories : Bool} {rule : Rule} (h : resolver.resolve locale categories = .ok rule) :
    ∃ name given, resolver.provider name = some given ∧
      (rule = given ∨ rule = given.undeclared) := by
  obtain ⟨_, name, given, hnearest, rfl⟩ := resolve_eq_ok_iff.mp h
  refine ⟨name, given, hnearest.found, ?_⟩
  split
  · exact .inl rfl
  · exact .inr rfl

/-- **A host supplies what a compiler makes**, if it has the formatters of the compiler, and if each
rule that the compiler may find has a rule of its name at the host that works like it and declares
enough. -/
theorem Host.supplies_of_rules {compiler : Compiler} {host : Host} {locale : Option String}
    {source : Source} {b : Bundle LiveMessage}
    (hrules : ∀ key rule, compiler.resolver.provider key = some rule → ∃ given,
      host.rules rule.locale = some given ∧ given.PicksLike rule ∧ given.Covers rule)
    (hformatters : host.formatters = compiler.registry.custom)
    (hbackend : ∀ backend ∈ compiler.registry.builtins, host.backend = some backend)
    (h : compiler.bundle locale source = .ok b) : host.Supplies b := by
  have hholds := Compiler.holds_bundle h
  constructor
  · intro rule hrule
    obtain ⟨name, hname⟩ := hholds.rule rule hrule
    obtain ⟨key, found, hfound, heq⟩ :=
      Locale.Resolver.resolve_eq_ok (mapError_eq_ok.mp hname)
    obtain ⟨given, hgiven, hpicks, hcovers⟩ := hrules key found hfound
    -- The rule is as it was found or has no categories left, in which case nothing can be missing.
    rcases heq with rfl | rfl
    · exact ⟨given, hgiven, hpicks, hcovers⟩
    · refine ⟨given, hgiven, hpicks, fun kind _ => ?_⟩
      cases kind <;> exact List.nil_subset _
  · intro formatter hformatter
    obtain ⟨name, hname⟩ := hholds.formatter formatter hformatter
    refine ⟨formatter, ?_, fun _ => rfl⟩
    -- Custom formatters come before built-in ones, which are referred to in another way.
    rw [Formatting.Registry.resolve?] at hname
    split at hname
    · rename_i run hrun
      obtain rfl := Option.some.inj hname
      simp only [Formatter.reference, Host.formatter?, hformatters, hrun, Option.map_some]
    · split at hname
      · rename_i backend id hsome _
        obtain rfl := Option.some.inj hname
        simp only [Formatter.reference, Host.formatter?, Formatting.Builtin.ofName?_name,
          hbackend backend hsome]
      · cases hname

/-- The rules and formatters of a compiler serve all modules of what it compiles, if each rule has
the name under which it is found. -/
theorem Host.supplies_bundle {compiler : Compiler} {locale : Option String} {source : Source}
    {b : Bundle LiveMessage}
    (hnames : ∀ name rule, compiler.resolver.provider name = some rule → rule.locale = name)
    (h : compiler.bundle locale source = .ok b) :
    Host.Supplies ⟨compiler.resolver.provider, compiler.registry.builtins,
      compiler.registry.custom⟩ b := by
  refine Host.supplies_of_rules (fun key rule hrule => ?_) rfl (fun backend h => h) h
  have hname := hnames key rule hrule
  exact ⟨rule, hname ▸ hrule, fun _ _ => rfl, fun _ _ => List.Subset.refl _⟩

namespace Module

/-! ### Imports -/

/-- Categories among the declared ones pass the check. -/
lemma checkLabels_eq_ok {rule given : Rule} (h : given.Covers rule) (locale : String)
    (kind : Kind) : checkLabels locale given kind (rule.labels kind) = .ok () := by
  rw [checkLabels]
  by_cases hempty : given.declared kind = []
  · rw [hempty]
    rfl
  · have hknown : (rule.labels kind).find? (fun label =>
        !isKnownLabel (given.declared kind) label) = none := by
      rw [List.find?_eq_none]
      intro label hlabel
      obtain ⟨category, hcategory, rfl⟩ := List.mem_map.mp hlabel
      have hmem := h kind hempty hcategory
      simp [isKnownLabel, Category.ofLabel?_label, hmem]
    simp only [hknown]
    split <;> rfl

lemma importRule_eq_ok {host : Host} {rule given : Rule} (h : host.rules rule.locale = some given)
    (hcovers : given.Covers rule) : importRule host rule.locale (importOf rule) = .ok given := by
  have hrule : host.rule rule.locale = .ok given := by rw [Host.rule, h]
  have hcardinal := checkLabels_eq_ok hcovers rule.locale .cardinal
  have hordinal := checkLabels_eq_ok hcovers rule.locale .ordinal
  rw [importRule, hrule]
  simp only [bind, Except.bind, importOf, hcardinal, hordinal]
  rfl

/-- Rules are imported one by one, and found again under their names. -/
lemma importRules_eq_ok {host : Host} {entries : Entries Import}
    (h : ∀ e ∈ entries, ∃ rule, host.rules e.1 = some rule ∧ importRule host e.1 e.2 = .ok rule) :
    ∃ rules, importRules host entries = .ok rules ∧
      ∀ name, (Entries.get? entries name).isSome → Entries.get? rules name = host.rules name := by
  induction entries with
  | nil => exact ⟨[], rfl, fun _ h => nomatch h⟩
  | cons first rest ih =>
      obtain ⟨locale, categories⟩ := first
      obtain ⟨rule, hrule, himport⟩ := h _ List.mem_cons_self
      obtain ⟨others, hothers, hget⟩ := ih fun e he => h e (List.mem_cons_of_mem _ he)
      refine ⟨(locale, rule) :: others, ?_, fun name hname => ?_⟩
      · simp only at himport
        rw [importRules, himport, hothers]
        rfl
      · rw [Entries.get?_cons] at hname ⊢
        by_cases heq : name = locale
        · rw [if_pos heq, heq]
          exact hrule.symm
        · rw [if_neg heq] at hname ⊢
          exact hget name hname

lemma mem_of_mem_insert {r s : Reference} {rs : List Reference} (h : s ∈ Reference.insert r rs) :
    s = r ∨ s ∈ rs := by
  induction rs with
  | nil => exact .inl (List.mem_singleton.mp h)
  | cons t rest ih =>
      rw [Reference.insert] at h
      split at h
      · exact .inr h
      · split at h
        · exact List.mem_cons.mp h
        · rcases List.mem_cons.mp h with rfl | h
          · exact .inr List.mem_cons_self
          · exact (ih h).imp_right (List.mem_cons_of_mem _)

/-- Sorting references adds none. -/
lemma mem_of_mem_sorted {r : Reference} {rs : List Reference} (h : r ∈ Reference.sorted rs) :
    r ∈ rs := by
  induction rs with
  | nil => cases h
  | cons t rest ih =>
      rcases mem_of_mem_insert h with rfl | h
      · exact List.mem_cons_self
      · exact List.mem_cons_of_mem _ (ih h)

lemma importFormatters_eq_ok {host : Host} {references : List Reference}
    (h : ∀ r ∈ references, ∃ given, host.formatter? r = some given) :
    importFormatters host references = .ok () := by
  induction references with
  | nil => rfl
  | cons r rest ih =>
      obtain ⟨given, hgiven⟩ := h r List.mem_cons_self
      have hformatter : host.formatter r = .ok given := by rw [Host.formatter, hgiven]
      have hrest := ih fun s hs => h s (List.mem_cons_of_mem _ hs)
      rw [importFormatters, hformatter]
      exact hrest

section Load

variable {b : Bundle LiveMessage} {host : Host}

/-- A host that supplies a bundle has the rules that its module imports. -/
lemma importRules_importsOf (h : host.Supplies b) : ∃ rules,
    importRules host (importsOf b) = .ok rules ∧
      ∀ rule ∈ rulesOf b, Entries.get? rules rule.locale = host.rules rule.locale := by
  have himport : ∀ e ∈ importsOf b, ∃ rule, host.rules e.1 = some rule ∧
      importRule host e.1 e.2 = .ok rule := by
    intro e he
    obtain ⟨rule, hrule, rfl⟩ := List.mem_map.mp (Entries.mem_of_mem_ofList he)
    obtain ⟨given, hgiven, _, hcovers⟩ := h.rule rule (List.mem_reverse.mp hrule)
    exact ⟨given, hgiven, importRule_eq_ok hgiven hcovers⟩
  obtain ⟨rules, hrules, hget⟩ := importRules_eq_ok himport
  refine ⟨rules, hrules, fun rule hrule => hget rule.locale ?_⟩
  have hmem : (rule.locale, importOf rule) ∈
      (rulesOf b).reverse.map fun rule => (rule.locale, importOf rule) :=
    List.mem_map_of_mem (List.mem_reverse.mpr hrule)
  exact Entries.get?_ofList_isSome hmem

/-- A host that supplies a bundle has the formatters that its module imports. -/
lemma importFormatters_referencesOf (h : host.Supplies b) :
    importFormatters host (referencesOf b) = .ok () := by
  refine importFormatters_eq_ok fun r hr => ?_
  obtain ⟨formatter, hformatter, rfl⟩ := List.mem_map.mp (mem_of_mem_sorted hr)
  obtain ⟨given, hgiven, _⟩ := h.formatter formatter hformatter
  exact ⟨given, hgiven⟩

/-- What has been imported works like what the bundle had. -/
lemma serves_imported (h : host.Supplies b) {rules : Entries Rule}
    (hrules : ∀ rule ∈ rulesOf b, Entries.get? rules rule.locale = host.rules rule.locale) :
    (Linking.imported host rules).Serves (rulesOf b) (formattersOf b) := by
  constructor
  · intro rule hrule
    obtain ⟨given, hgiven, hpicks, _⟩ := h.rule rule hrule
    refine ⟨given, ?_, hpicks⟩
    simp only [Linking.imported, hrules rule hrule, hgiven]
  · intro formatter hformatter
    obtain ⟨given, hgiven, hrun⟩ := h.formatter formatter hformatter
    refine ⟨given, ?_, Host.reference_of_formatter? hgiven, hrun⟩
    simp only [Linking.imported, Host.formatter, hgiven]

/-! ### Loading -/

variable {target : Target} {m : Module}

/-- The module of a bundle is written for the current runtime, and has the hash of its body. -/
lemma verify_ofBundle (h : ofBundle b target = .ok m) : m.verify = .ok () := by
  obtain ⟨body, _, rfl⟩ := ofBundle_eq_ok h
  have hruntime : Runtime.current.isSupported = true := by decide
  simp only [verify, hruntime, Digest.Hash.ofText?_text]
  rfl

/-- **The module of a bundle is linked to a bundle that looks the same and says the same.** -/
theorem link_ofBundle (hmade : ∀ m ∈ b.items, Node.AllOf Node.Made m.nodes)
    (h : ofBundle b target = .ok m) (hhost : host.Supplies b) :
    ∃ f : LiveMessage → LiveMessage, m.link host = .ok (b.map f) ∧
      ∀ m ∈ b.items, (f m).Alike m := by
  have hverify := verify_ofBundle h
  obtain ⟨body, hbody, rfl⟩ := ofBundle_eq_ok h
  obtain ⟨rules, hrules, hget⟩ := importRules_importsOf hhost
  have hformatters := importFormatters_referencesOf hhost
  have hentry := entry_of_bodyOf hbody
  obtain ⟨f, hf, halike⟩ := linkBundle_store hmade (serves_imported hhost hget)
  refine ⟨f, ?_, halike⟩
  simp only [link, hverify, hrules, hformatters, hentry, bind, Except.bind]
  exact hf

/-- **Modules are loaded as what they were made of.** Whatever is compiled and made into a module
for a target is loaded from the text of the module, as long as the text is not nested too deeply,
by every host that supplies it. What is loaded has the same keys, the same locales and the same
nodes, and it has the same text or the same error at every path, for all arguments. -/
theorem load_text {compiler : Compiler} {locale : Option String} {source : Source}
    (hsource : source.Ordered) (hcompile : compiler.bundle locale source = .ok b)
    (hmodule : ofBundle b target = .ok m) (hdepth : (json m).depth ≤ Json.nestingLimit)
    (hhost : host.Supplies b) :
    ∃ loaded, load m.text host = .ok loaded ∧ loaded.shape = b.shape ∧
      (∀ args, loaded.format args = b.format args) ∧
        ∀ path args, loaded.formatAt path args = b.formatAt path args := by
  have hmade := Compiler.made_bundle hcompile
  have hfinite : ∀ m ∈ b.items, Node.AllOf Node.Finite m.nodes := fun m hm =>
    Node.AllOf.imp (fun _ hnode => hnode.1) m.nodes (hmade m hm)
  have hordered := Compiler.ordered_bundle hsource hcompile
  have hread : parse? m.text = some m :=
    parse?_text (ordered_ofBundle hordered hmodule) (finite_ofBundle hfinite hmodule) hdepth
  obtain ⟨f, hlink, halike⟩ := link_ofBundle hmade hmodule hhost
  refine ⟨b.map f, ?_, Bundle.shape_map halike, Bundle.format_map halike,
    Bundle.formatAt_map halike⟩
  rw [load, hread]
  exact hlink

/-- A module with all forms is loaded by the program that made it. Its messages stand in two groups
and have plurals, selects and calls of built-in and of custom formatters inside each other. -/
theorem load_text_english :
    let shout : Formatting.Format := fun request => request.value.render ++ "!"
    let compiler : Compiler := ⟨⟨Plural.languages, ["en"], "en"⟩,
      ⟨[("shout", shout)], some Formatting.basicBackend⟩, true, true, true⟩
    let source : Source := .group
      [("en", .group [("files", .one
          "{n, plural, offset:1 =0{none} one{#} other{{g, select, x{#} other{{n, number}}}}}")]),
        ("greeting", .one "Hello, {name, shout, very loud}")]
    let host : Host := ⟨Plural.languages, some Formatting.basicBackend, [("shout", shout)]⟩
    ∃ b m, source.Ordered ∧ compiler.bundle none source = .ok b ∧
      ofBundle b (.universal (some "app.texts")) = .ok m ∧
      (json m).depth ≤ Json.nestingLimit ∧ host.Supplies b ∧
      ∃ loaded, load m.text host = .ok loaded ∧ loaded.shape = b.shape ∧
        (∀ args, loaded.format args = b.format args) ∧
          ∀ path args, loaded.formatAt path args = b.formatAt path args := by
  intro shout compiler source host
  have hok : (match compiler.bundle none source with
      | .ok b =>
        match ofBundle b (.universal (some "app.texts")) with
        | .ok m => decide ((json m).depth ≤ Json.nestingLimit)
        | .error _ => false
      | .error _ => false) = true := by
    decide +kernel
  have hsource : source.Ordered := by
    refine ⟨?_, ⟨?_, trivial, trivial⟩, trivial, trivial⟩
    · have hkeys : "en" < "greeting" := by decide
      exact List.Pairwise.cons (fun e he => List.mem_singleton.mp he ▸ hkeys)
        (List.pairwise_singleton _ _)
    · exact List.pairwise_singleton _ _
  have hnames : ∀ name rule, compiler.resolver.provider name = some rule → rule.locale = name := by
    intro name rule hrule
    obtain ⟨family, _, rfl⟩ := Option.map_eq_some_iff.mp hrule
    rfl
  cases hcompile : compiler.bundle none source with
  | error e => rw [hcompile] at hok; cases hok
  | ok b =>
      rw [hcompile] at hok
      cases hmodule : ofBundle b (.universal (some "app.texts")) with
      | error e => simp only [hmodule] at hok; cases hok
      | ok m =>
          simp only [hmodule] at hok
          have hdepth : (json m).depth ≤ Json.nestingLimit := of_decide_eq_true hok
          have hhost : host.Supplies b := Host.supplies_bundle hnames hcompile
          exact ⟨b, m, hsource, rfl, hmodule, hdepth, hhost,
            load_text hsource hcompile hmodule hdepth hhost⟩

end Load

end Module

end MessageCatalog
