/-
What is loaded is exported as it was.

A module names the rules and formatters of a bundle, and a host gives what it has under these names.
So a bundle that is loaded is the one that was exported, with other rules and formatters in their
places; and it is exported to the same text if these have the same names and declare the same.

* `Host.ruleFor`, `Host.formatterFor`, `Host.rebind`: what a host puts in the places of rules,
  formatters and all that a bundle holds;
* `Host.Restores`: a host that has the imported names and declarations;
* `ofBundle_rebind`: it puts nothing there that is exported in another way;
* `load_reexport`: what it loads from a text is exported to this text.
-/
import MessageCatalog.Proofs.Module.Imports

namespace MessageCatalog

open Formatting (Formatter Reference)
open Plural (Key Rule)

/-! ### What a host puts in place -/

namespace Host

/-- The rule that a host has under the name of a rule. -/
def ruleFor (host : Host) (rule : Rule) : Rule :=
  (host.rules rule.locale).getD rule

/-- The formatter that a host has under the reference of a formatter. -/
def formatterFor (host : Host) (formatter : Formatter) : Formatter :=
  (host.formatter? formatter.reference).getD formatter

/-- A bundle with the rules and the formatters of a host in the places of its own. -/
def rebind (host : Host) (b : Bundle LiveMessage) : Bundle LiveMessage :=
  b.map (Message.mapNodes host.formatterFor host.ruleFor id)

/-- A host for which a module is as its own: the rules that it has under the imported names carry
these names and declare what is imported, and it has all imported formatters. -/
structure Restores (host : Host) (m : Module) : Prop where
  rule : ∀ e ∈ m.locales, ∃ rule, host.rules e.1 = some rule ∧ rule.locale = e.1 ∧
    Module.importOf rule = e.2
  formatter : ∀ reference ∈ m.formatters, ∃ formatter, host.formatter? reference = some formatter

end Host

namespace Module

section Bundles

variable {b : Bundle LiveMessage} {host : Host}

lemma rulesOf_rebind : rulesOf (host.rebind b) = (rulesOf b).map host.ruleFor := by
  rw [rulesOf, Host.rebind, Bundle.items_map, List.flatMap_map, rulesOf, List.map_flatMap]
  refine List.flatMap_congr fun m _ => ?_
  rw [Message.mapNodes, Node.mapAll_eq_map, Node.rulesOfAll_eq, Node.rulesOfAll_eq,
    List.flatMap_map, List.map_flatMap]
  exact List.flatMap_congr fun node _ => Node.rules_map node

lemma formattersOf_rebind :
    formattersOf (host.rebind b) = (formattersOf b).map host.formatterFor := by
  rw [formattersOf, Host.rebind, Bundle.items_map, List.flatMap_map, formattersOf, List.map_flatMap]
  refine List.flatMap_congr fun m _ => ?_
  rw [Message.mapNodes, Node.mapAll_eq_map, Node.formattersOfAll_eq, Node.formattersOfAll_eq,
    List.flatMap_map, List.map_flatMap]
  exact List.flatMap_congr fun node _ => Node.formatters_map node

end Bundles

/-! ### Exporting again -/

section Rebind

variable {b : Bundle LiveMessage} {host : Host}

/-- What a host puts in place is stored in the same way if it goes by the same names. -/
lemma store_rebind (hrules : ∀ r ∈ rulesOf b, (host.ruleFor r).locale = r.locale)
    (hformatters : ∀ x ∈ formattersOf b, (host.formatterFor x).reference = x.reference) :
    store (host.rebind b) = store b := by
  rw [store, Host.rebind, Bundle.map_map, store]
  refine Bundle.map_congr b fun m hm => ?_
  simp only [Function.comp_apply, Message.mapNodes, Node.mapAll_eq_map, List.map_map]
  refine congrArg _ (List.map_congr_left fun node hnode => ?_)
  exact Node.map_map (fun _ => rfl) node
    (fun x hx => hformatters x (mem_formattersOf hm hnode hx))
    fun r hr => hrules r (mem_rulesOf hm hnode hr)

variable {target : Target} {m : Module} (hmodule : ofBundle b target = .ok m)
  (hhost : host.Restores m)

include hmodule hhost

/-- A host that restores a module has a rule for each rule of its bundle, under the same name. -/
lemma ruleFor_of_restores {rule : Rule} (hrule : rule ∈ rulesOf b) :
    host.rules rule.locale = some (host.ruleFor rule) ∧
      (host.ruleFor rule).locale = rule.locale := by
  obtain ⟨body, -, rfl⟩ := ofBundle_eq_ok hmodule
  have hname : rule.locale ∈ Entries.keys (importsOf b) :=
    mem_keys_importsOf.mpr ⟨rule, mem_rulesOf_iff.mp hrule, rfl⟩
  obtain ⟨e, he, hkey⟩ := List.mem_map.mp hname
  obtain ⟨given, hgiven, hlocale, -⟩ := hhost.rule e he
  rw [hkey] at hgiven hlocale
  rw [Host.ruleFor, hgiven]
  exact ⟨rfl, hlocale⟩

/-- It has a formatter for each formatter of the bundle, under the same reference. -/
lemma formatterFor_of_restores {formatter : Formatter} (hformatter : formatter ∈ formattersOf b) :
    host.formatter? formatter.reference = some (host.formatterFor formatter) ∧
      (host.formatterFor formatter).reference = formatter.reference := by
  obtain ⟨body, -, rfl⟩ := ofBundle_eq_ok hmodule
  obtain ⟨given, hgiven⟩ := hhost.formatter formatter.reference
    (mem_referencesOf.mpr ⟨formatter, mem_formattersOf_iff.mp hformatter, rfl⟩)
  rw [Host.formatterFor, hgiven]
  exact ⟨rfl, Host.reference_of_formatter? hgiven⟩

/-- What it puts in place is imported in the same way. Of several rules with one name it is the one
rule of the host that now stands in all places, and it declares what the first of them declared. -/
lemma importsOf_rebind : importsOf (host.rebind b) = importsOf b := by
  let declared (name : String) : Import := ((host.rules name).map importOf).getD ⟨[], []⟩
  have hpairs : (rulesOf (host.rebind b)).reverse.map (fun rule => (rule.locale, importOf rule)) =
      ((rulesOf b).reverse.map fun rule => (rule.locale, importOf rule)).map
        fun e => (e.1, declared e.1) := by
    rw [rulesOf_rebind, ← List.map_reverse, List.map_map, List.map_map]
    refine List.map_congr_left fun rule hrule => ?_
    obtain ⟨hgiven, hlocale⟩ := ruleFor_of_restores hmodule hhost (List.mem_reverse.mp hrule)
    simp only [Function.comp_apply, declared, hgiven, hlocale, Option.map_some, Option.getD_some]
  have hdeclared : ∀ e ∈ importsOf b, (e.1, declared e.1) = e := by
    intro e he
    obtain ⟨body, -, rfl⟩ := ofBundle_eq_ok hmodule
    obtain ⟨given, hgiven, -, himport⟩ := hhost.rule e he
    simp only [declared, hgiven, Option.map_some, Option.getD_some, himport]
  rw [importsOf, hpairs, Entries.ofList_map_key]
  exact (List.map_congr_left hdeclared).trans (List.map_id _)

/-- **A bundle that a host is put into is exported as before**, if the host restores its module. -/
theorem ofBundle_rebind : ofBundle (host.rebind b) target = .ok m := by
  have hstore : store (host.rebind b) = store b :=
    store_rebind (fun _ hr => (ruleFor_of_restores hmodule hhost hr).2)
      fun _ hx => (formatterFor_of_restores hmodule hhost hx).2
  have hreferences : referencesOf (host.rebind b) = referencesOf b := by
    rw [referencesOf, formattersOf_rebind, List.map_map, referencesOf]
    exact congrArg _ (List.map_congr_left fun _ hx =>
      (formatterFor_of_restores hmodule hhost hx).2)
  rw [← hmodule, ofBundle, hstore, importsOf_rebind hmodule hhost, hreferences, ofBundle]

/-- A host that restores a module has all that the module imports. -/
lemma imports_of_restores : ∃ rules, importRules host (importsOf b) = .ok rules ∧
    (∀ rule ∈ rulesOf b, Entries.get? rules rule.locale = host.rules rule.locale) ∧
      importFormatters host (referencesOf b) = .ok () := by
  obtain ⟨body, -, rfl⟩ := ofBundle_eq_ok hmodule
  have himport : ∀ e ∈ importsOf b, ∃ rule, host.rules e.1 = some rule ∧
      importRule host e.1 e.2 = .ok rule := by
    intro e he
    obtain ⟨given, hgiven, hlocale, himport⟩ := hhost.rule e he
    rw [← hlocale] at hgiven
    rw [← himport, ← hlocale]
    exact ⟨given, hgiven, importRule_eq_ok hgiven fun _ _ => List.Subset.refl _⟩
  obtain ⟨rules, hrules, hget⟩ := importRules_eq_ok himport
  refine ⟨rules, hrules, fun rule hrule => hget rule.locale ?_,
    importFormatters_eq_ok hhost.formatter⟩
  have hmem : (rule.locale, importOf rule) ∈
      (rulesOf b).reverse.map fun rule => (rule.locale, importOf rule) :=
    List.mem_map_of_mem (List.mem_reverse.mpr hrule)
  exact Entries.get?_ofList_isSome hmem

/-- **A module is linked to its bundle with what the host has in place.** -/
theorem link_rebind (hmade : ∀ m ∈ b.items, Node.AllOf Node.Made m.nodes) :
    m.link host = .ok (host.rebind b) := by
  obtain ⟨rules, hrules, hget, himported⟩ := imports_of_restores hmodule hhost
  have hlinked : linkBundle (.imported host rules) (store b) = .ok (host.rebind b) := by
    refine linkBundle_map hmade (fun x hx => ?_) fun r hr => ?_
    · simp only [Linking.imported, Host.formatter,
        (formatterFor_of_restores hmodule hhost hx).1]
    · simp only [Linking.imported, hget r hr, (ruleFor_of_restores hmodule hhost hr).1]
  rw [link_eq_linkBundle hmodule, hrules]
  simp only [bind, Except.bind, himported, hlinked]

end Rebind

/-- **What is loaded is exported as it was.** Whatever is compiled and made into a module for a
target is loaded from the text of the module, as long as the text is not nested too deeply, by every
host that has the imported names and declarations, whatever its rules and formatters do. What is
loaded is made into the same module for this target, with the same imports, and assembled to the
same text. -/
theorem load_reexport {compiler : Compiler} {locale : Option String} {source : Source}
    {b : Bundle LiveMessage} {target : Target} {m : Module} {host : Host}
    (hsource : source.Ordered) (hcompile : compiler.bundle locale source = .ok b)
    (hmodule : ofBundle b target = .ok m) (hdepth : (json m).depth ≤ Json.nestingLimit)
    (hhost : host.Restores m) :
    assemble b (some target) = .ok (.text m.text) ∧
      ∃ loaded, load m.text host = .ok loaded ∧ ofBundle loaded target = .ok m ∧
        assemble loaded (some target) = .ok (.text m.text) := by
  have hassemble : ∀ {b' : Bundle LiveMessage}, ofBundle b' target = .ok m →
      assemble b' (some target) = .ok (.text m.text) := by
    intro b' hb'
    rw [assemble, hb']
    rfl
  have hload : load m.text host = .ok (host.rebind b) := by
    rw [load_eq_link hsource hcompile hmodule hdepth]
    exact link_rebind hmodule hhost (Compiler.made_bundle hcompile)
  have hagain := ofBundle_rebind hmodule hhost
  exact ⟨hassemble hmodule, host.rebind b, hload, hagain, hassemble hagain⟩

/-- The host may count and write in another way: here each plural takes its last case, and all
formatters write the same. -/
theorem load_reexport_english :
    let shout : Formatting.Format := fun request => request.value.render ++ "!"
    let hush : Formatting.Format := fun _ => "..."
    let compiler : Compiler := ⟨⟨Plural.languages, ["en"], "en"⟩,
      ⟨[("shout", shout)], some Formatting.basicBackend⟩, true, true, true⟩
    let source : Source := .group
      [("en", .group [("files", .one
          "{n, plural, offset:1 =007{none} one{#} other{{g, select, x{#} other{{n, number}}}}}")]),
        ("greeting", .one "Hello, {name, shout, very loud}")]
    let host : Host := ⟨fun name => (Plural.languages name).map fun rule =>
      { rule with category := fun _ _ => .other }, some ⟨hush, hush, hush⟩, [("shout", hush)]⟩
    ∃ b m, source.Ordered ∧ compiler.bundle none source = .ok b ∧
      ofBundle b (.universal (some "app.texts")) = .ok m ∧
      (json m).depth ≤ Json.nestingLimit ∧ host.Restores m ∧
      assemble b (some (.universal (some "app.texts"))) = .ok (.text m.text) ∧
      ∃ loaded, load m.text host = .ok loaded ∧
        ofBundle loaded (.universal (some "app.texts")) = .ok m ∧
        assemble loaded (some (.universal (some "app.texts"))) = .ok (.text m.text) := by
  intro shout hush compiler source host
  let restored (m : Module) : Bool :=
    m.locales.all (fun e => (host.rules e.1).any fun rule =>
      decide (rule.locale = e.1 ∧ importOf rule = e.2)) &&
        m.formatters.all fun reference => (host.formatter? reference).isSome
  have hok : passes (fun b => passes (fun m =>
      decide ((json m).depth ≤ Json.nestingLimit) && restored m)
        (ofBundle b (.universal (some "app.texts")))) (compiler.bundle none source) = true := by
    decide +kernel
  obtain ⟨b, hcompile, hok⟩ := passes_eq_true hok
  obtain ⟨m, hmodule, hok⟩ := passes_eq_true hok
  obtain ⟨hdepth, hrestored⟩ := Bool.and_eq_true_iff.mp hok
  obtain ⟨hrules, hformatters⟩ := Bool.and_eq_true_iff.mp hrestored
  have hsource : source.Ordered := by
    refine ⟨?_, ⟨?_, trivial, trivial⟩, trivial, trivial⟩
    · have hkeys : "en" < "greeting" := by decide
      exact List.Pairwise.cons (fun e he => List.mem_singleton.mp he ▸ hkeys)
        (List.pairwise_singleton _ _)
    · exact List.pairwise_singleton _ _
  have hhost : host.Restores m := by
    constructor
    · intro e he
      have hrule := List.all_eq_true.mp hrules e he
      cases hgiven : host.rules e.1 with
      | none => rw [hgiven] at hrule; cases hrule
      | some rule =>
          rw [hgiven] at hrule
          exact ⟨rule, rfl, of_decide_eq_true hrule⟩
    · intro reference hreference
      exact Option.isSome_iff_exists.mp (List.all_eq_true.mp hformatters reference hreference)
  exact ⟨b, m, hsource, hcompile, hmodule, of_decide_eq_true hdepth, hhost,
    load_reexport hsource hcompile hmodule (of_decide_eq_true hdepth) hhost⟩

end Module

end MessageCatalog
