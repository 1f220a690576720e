/-
Modules that are compiled with a mapping of plural rules.

A pattern is compiled with the rule under a key of the mapping, while its module calls the rule by
the name that the rule itself has. The two need not agree, and nothing compares them when a
compiler is set up.

* `Provider.FindsByName`: rules that are found again under their own names;
* `Setup.build_eq_ok`: what a compiler with a mapping consists of;
* `load_text_of_mapping`: with such a mapping, modules are loaded as what they were made of;
* `load_text_swapped`: with two rules that have each other's keys for names, they are not.
-/
import MessageCatalog.Proofs.Catalog.Declared
import MessageCatalog.Proofs.Module.Load

namespace MessageCatalog

open MessageCatalog.Locale (Resolver)
open Plural (Category Provider Rule)

/-- Every rule is found again under its own name, at least by a rule that works like it and
declares enough. -/
def Plural.Provider.FindsByName (provider : Provider) : Prop :=
  ∀ key rule, provider key = some rule → ∃ given, provider rule.locale = some given ∧
    given.PicksLike rule ∧ given.Covers rule

/-! ### Compilers with a mapping -/

/-- A compiler that is set up with a mapping has no rules but those of the mapping, and it has the
formatters of the program. -/
lemma Setup.build_eq_ok {setup : Setup} {rules : Entries Rule} {compiler : Compiler}
    (hrules : setup.declaration = .custom rules) (h : setup.build = .ok compiler) :
    compiler.resolver.provider = .ofEntries rules ∧ compiler.registry = setup.registry := by
  obtain ⟨resolver, hresolver, rfl⟩ := resolver_of_build h
  refine ⟨?_, rfl⟩
  obtain ⟨hdeclaration, _⟩ := Resolver.make_eq_ok hresolver
  rw [hrules, Resolver.ofDeclaration] at hdeclaration
  split at hdeclaration
  · cases hdeclaration
  · split at hdeclaration
    · cases hdeclaration
    · exact (congrArg Prod.fst (Except.ok.inj hdeclaration)).symm

namespace Module

section Mapping

variable {compiler : Compiler} {locale : Option String} {source : Source} {b : Bundle LiveMessage}
  {target : Target} {m : Module} {host : Host}

/-- The text of the module of a compiled source is loaded by linking the module. -/
lemma load_eq_link (hsource : source.Ordered) (hcompile : compiler.bundle locale source = .ok b)
    (hmodule : ofBundle b target = .ok m) (hdepth : (json m).depth ≤ Json.nestingLimit) :
    load m.text host = m.link host := by
  have hfinite : ∀ m ∈ b.items, Node.AllOf Node.Finite m.nodes := fun m hm =>
    Node.AllOf.imp (fun _ hnode => hnode.1) m.nodes (Compiler.made_bundle hcompile m hm)
  have hordered := Compiler.ordered_bundle hsource hcompile
  have hread : parse? m.text = some m :=
    parse?_text (ordered_ofBundle hordered hmodule) (finite_ofBundle hfinite hmodule) hdepth
  rw [load, hread]

/-- Linking the module of a bundle looks up what the bundle needs, and links its stored form. -/
lemma link_eq_linkBundle (h : ofBundle b target = .ok m) :
    m.link host = (do
      let rules ← importRules host (importsOf b)
      importFormatters host (referencesOf b)
      linkBundle (.imported host rules) (store b)) := by
  have hverify := verify_ofBundle h
  obtain ⟨body, hbody, rfl⟩ := ofBundle_eq_ok h
  simp only [link, hverify, entry_of_bodyOf hbody]
  rfl

/-- **A module that is compiled with a mapping of rules is loaded with the same mapping as what it
was made of**, provided that the mapping finds its rules under their own names. -/
theorem load_text_of_mapping {setup : Setup} {rules : Entries Rule}
    (hrules : setup.declaration = .custom rules) (hbuild : setup.build = .ok compiler)
    (hnames : Provider.FindsByName (.ofEntries rules))
    (hhost : host.rules = .ofEntries rules) (hformatters : host.formatters = setup.formatters)
    (hbackend : ∀ backend ∈ setup.registry.builtins, host.backend = some backend)
    (hsource : source.Ordered) (hcompile : compiler.bundle locale source = .ok b)
    (hmodule : ofBundle b target = .ok m) (hdepth : (json m).depth ≤ Json.nestingLimit) :
    ∃ loaded, load m.text host = .ok loaded ∧ loaded.shape = b.shape ∧
      (∀ args, loaded.format args = b.format args) ∧
        ∀ path args, loaded.formatAt path args = b.formatAt path args := by
  obtain ⟨hprovider, hregistry⟩ := Setup.build_eq_ok hrules hbuild
  have hsupplies : host.Supplies b := by
    refine Host.supplies_of_rules ?_ ?_ ?_ hcompile
    · rw [hprovider, hhost]
      exact hnames
    · rw [hregistry]
      exact hformatters
    · rw [hregistry]
      exact hbackend
  obtain ⟨f, hlink, halike⟩ := link_ofBundle (Compiler.made_bundle hcompile) hmodule hsupplies
  refine ⟨b.map f, ?_, Bundle.shape_map halike, Bundle.format_map halike,
    Bundle.formatAt_map halike⟩
  rw [load_eq_link hsource hcompile hmodule hdepth]
  exact hlink

end Mapping

/-! ### Names and keys -/

/-- A rule for a language of two categories that puts all numbers in the same one. -/
def constantRule (name : String) (category : Category) : Rule where
  locale := name
  category _ _ := category
  cardinal := [.one, .other]
  ordinal := [.one, .other]

/-- Two locales may share a rule, if it is also there under its own name. -/
theorem load_text_of_mapping_shared :
    let one := constantRule "tiny" .one
    let rules : Entries Rule := [("tiny", one), ("tiny-x", one)]
    let setup : Setup := { provider := fun _ => none, rules := rules }
    let source : Source := .group [("tiny-x", .one "{n, plural, one{few} other{#}}")]
    let host : Host := { rules := .ofEntries rules }
    ∃ compiler b m, setup.declaration = .custom rules ∧ setup.build = .ok compiler ∧
      Provider.FindsByName (.ofEntries rules) ∧ source.Ordered ∧
      compiler.bundle none source = .ok b ∧ ofBundle b .default = .ok m ∧
      (json m).depth ≤ Json.nestingLimit ∧
      ∃ loaded, load m.text host = .ok loaded ∧ loaded.shape = b.shape ∧
        (∀ args, loaded.format args = b.format args) ∧
          ∀ path args, loaded.formatAt path args = b.formatAt path args := by
  intro one rules setup source host
  have hok : passes (fun compiler => passes (fun b => passes (fun m =>
      decide ((json m).depth ≤ Json.nestingLimit)) (ofBundle b .default))
        (compiler.bundle none source)) setup.build = true := by
    decide +kernel
  have hnames : Provider.FindsByName (.ofEntries rules) := by
    intro key rule hrule
    refine ⟨rule, ?_, fun _ _ => rfl, fun _ _ => List.Subset.refl _⟩
    have hone : rule = one := by
      simp only [Provider.ofEntries, rules, Entries.get?_cons] at hrule
      split at hrule
      · exact (Option.some.inj hrule).symm
      · split at hrule
        · exact (Option.some.inj hrule).symm
        · cases hrule
    rw [hone]
    rfl
  have hsource : source.Ordered := ⟨List.pairwise_singleton _ _, trivial, trivial⟩
  obtain ⟨compiler, hbuild, hok⟩ := passes_eq_true hok
  obtain ⟨b, hcompile, hok⟩ := passes_eq_true hok
  obtain ⟨m, hmodule, hok⟩ := passes_eq_true hok
  have hdepth : (json m).depth ≤ Json.nestingLimit := of_decide_eq_true hok
  refine ⟨compiler, b, m, rfl, hbuild, hnames, hsource, hcompile, hmodule, hdepth, ?_⟩
  exact load_text_of_mapping rfl hbuild hnames rfl rfl (fun _ h => nomatch h) hsource hcompile
    hmodule hdepth

/-- **With two rules that have each other's keys for names, a module is loaded as something else.**
The compiler takes the mapping, the module is loaded with this very mapping and without an error,
and yet a message in it has another text. -/
theorem load_text_swapped :
    let rules : Entries Rule :=
      [("aa", constantRule "bb" .one), ("bb", constantRule "aa" .other)]
    let setup : Setup := { provider := fun _ => none, rules := rules }
    let source : Source := .group [("aa", .one "{n, plural, one{single} other{many}}")]
    let host : Host := { rules := .ofEntries rules }
    let args : Arguments := .ofPairs [("n", .num 1)]
    ∃ compiler b m loaded, setup.declaration = .custom rules ∧ setup.build = .ok compiler ∧
      compiler.bundle none source = .ok b ∧ ofBundle b .default = .ok m ∧
      (json m).depth ≤ Json.nestingLimit ∧ load m.text host = .ok loaded ∧
      b.formatAt ["aa"] args = .ok "single" ∧ loaded.formatAt ["aa"] args = .ok "many" := by
  intro rules setup source host args
  -- The module is linked without its text, as the text is read back as the module.
  let linked (b : Bundle LiveMessage) : Except LoadError (Bundle LiveMessage) := do
    let rules ← importRules host (importsOf b)
    importFormatters host (referencesOf b)
    linkBundle (.imported host rules) (store b)
  have hok : passes (fun compiler => passes (fun b => passes (fun m => passes (fun loaded =>
      decide ((json m).depth ≤ Json.nestingLimit) &&
        passes (· == "single") (b.formatAt ["aa"] args) &&
          passes (· == "many") (loaded.formatAt ["aa"] args)) (linked b)) (ofBundle b .default))
        (compiler.bundle none source)) setup.build = true := by
    decide +kernel
  have hsource : source.Ordered := ⟨List.pairwise_singleton _ _, trivial, trivial⟩
  obtain ⟨compiler, hbuild, hok⟩ := passes_eq_true hok
  obtain ⟨b, hcompile, hok⟩ := passes_eq_true hok
  obtain ⟨m, hmodule, hok⟩ := passes_eq_true hok
  obtain ⟨loaded, hlinked, hok⟩ := passes_eq_true hok
  obtain ⟨hok, hmany⟩ := Bool.and_eq_true_iff.mp hok
  obtain ⟨hdepth, hsingle⟩ := Bool.and_eq_true_iff.mp hok
  have hdepth : (json m).depth ≤ Json.nestingLimit := of_decide_eq_true hdepth
  obtain ⟨_, hsingle, heq⟩ := passes_eq_true hsingle
  obtain rfl := eq_of_beq heq
  obtain ⟨_, hmany, heq⟩ := passes_eq_true hmany
  obtain rfl := eq_of_beq heq
  refine ⟨compiler, b, m, loaded, rfl, hbuild, hcompile, hmodule, hdepth, ?_, hsingle, hmany⟩
  rw [load_eq_link hsource hcompile hmodule hdepth, link_eq_linkBundle hmodule]
  exact hlinked

end Module

end MessageCatalog
