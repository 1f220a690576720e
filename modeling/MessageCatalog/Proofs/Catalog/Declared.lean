/-
Declared locales.

All declared locales resolve when a compiler is set up, whichever way they are declared, and from
then on nothing but a request can name another locale: the default locale is declared, and so is
every key that changes the locale of a group.

* `Declaration.names`: the locales that a declaration names;
* `Resolver.make_eq_ok`: what a resolver consists of, and that its declared locales resolve;
* `Setup.resolver_of_build`: what a compiler that is set up consists of;
* `Compiler.Declares`: a compiler with declared locales, all of which have rules;
* `raises_traverse_of_declares`: it lacks no rule, at whatever depth of a source;
* `build_declared`: there is no locale error but that of a request for another locale.
-/
import MessageCatalog.Catalog.Setup
import MessageCatalog.Plural.Language
import MessageCatalog.Proofs.Catalog.Leaves
import MessageCatalog.Proofs.Locale.Fallback

namespace MessageCatalog

open MessageCatalog.Locale (Declaration Resolver)
open Plural (Provider Rule)

/-! ### Resolvers -/

namespace Locale

/-- The locales that a declaration names, in its order. Rules of one's own name their keys. -/
def Declaration.names : Declaration → List String
  | .undeclared => []
  | .single locale => [locale]
  | .several locales => locales
  | .custom rules => Entries.keys rules

namespace Resolver

/-- The declared locales are the ones that the declaration names. -/
lemma declared_of_ofDeclaration {provider given : Provider} {declaration : Declaration}
    {declared : List String} (h : ofDeclaration provider declaration = .ok (given, declared)) :
    declared = declaration.names := by
  cases declaration with
  | undeclared | single | several => exact (congrArg Prod.snd (Except.ok.inj h)).symm
  | custom rules =>
      rw [ofDeclaration] at h
      split at h
      · cases h
      · split at h
        · cases h
        · exact (congrArg Prod.snd (Except.ok.inj h)).symm

/-- **What a resolver consists of**: the rules and the locales of its declaration, all of which
resolve, and a default locale. -/
lemma make_eq_ok {provider : Provider} {declaration : Declaration} {wanted : String}
    {resolver : Resolver} (h : make provider declaration wanted = .ok resolver) :
    ofDeclaration provider declaration = .ok (resolver.provider, resolver.declared) ∧
      resolver.default = defaultOf resolver.declared wanted ∧
      ∀ locale ∈ resolver.declared, ∃ rule, resolver.resolve locale false = .ok rule := by
  rw [make] at h
  obtain ⟨⟨given, declared⟩, hdeclaration, h⟩ := bind_eq_ok.mp h
  obtain ⟨_, hloop, h⟩ := bind_eq_ok.mp h
  obtain rfl := Except.ok.inj h
  exact ⟨hdeclaration, rfl, forIn_eq_ok hloop⟩

lemma defaultOf_mem {declared : List String} (h : declared ≠ []) (wanted : String) :
    defaultOf declared wanted ∈ declared := by
  cases declared with
  | nil => exact absurd rfl h
  | cons first rest =>
      rw [defaultOf]
      split
      · rename_i hwanted
        exact List.elem_iff.mp hwanted
      · exact List.mem_cons_self

end Resolver

end Locale

/-! ### Compilers -/

/-- An error of the choice or the look-up of a locale. -/
def CompileError.IsLocale : CompileError → Prop
  | .locale _ => True
  | _ => False

/-- Setting a compiler up settles its resolver, and takes everything else as it is. -/
lemma Setup.resolver_of_build {setup : Setup} {compiler : Compiler}
    (h : setup.build = .ok compiler) : ∃ resolver : Resolver,
      Resolver.make setup.provider setup.declaration setup.settings.defaultLocale = .ok resolver ∧
        compiler = ⟨resolver, setup.registry, setup.settings.checkKeys, setup.settings.strict,
          setup.settings.isolate⟩ := by
  rw [build] at h
  obtain ⟨resolver, hresolver, h⟩ := bind_eq_ok.mp h
  exact ⟨resolver, hresolver, (Except.ok.inj h).symm⟩

namespace Compiler

variable {compiler : Compiler}

/-- A compiler with declared locales, all of which have rules. -/
structure Declares (compiler : Compiler) : Prop where
  default : compiler.resolver.default ∈ compiler.resolver.declared
  rule : ∀ locale ∈ compiler.resolver.declared, ∃ rule, compiler.rule locale = .ok rule

/-- A compiler that is set up with declared locales has rules for all of them. -/
lemma declares_of_build {setup : Setup} (hbuild : setup.build = .ok compiler)
    (hdeclared : compiler.resolver.declared ≠ []) : compiler.Declares := by
  obtain ⟨resolver, hresolver, rfl⟩ := Setup.resolver_of_build hbuild
  obtain ⟨_, hdefault, hresolves⟩ := Resolver.make_eq_ok hresolver
  refine ⟨hdefault ▸ Resolver.defaultOf_mem hdeclared _, fun locale hlocale => ?_⟩
  -- The resolver has been checked without categories, and the compiler may want them.
  obtain ⟨_, hrule⟩ := hresolves locale hlocale
  rw [Resolver.resolve_undeclared] at hrule
  obtain ⟨rule, hrule, _⟩ := map_eq_ok.mp hrule
  cases hcheck : setup.settings.checkKeys with
  | true => exact ⟨rule, mapError_eq_ok.mpr hrule⟩
  | false =>
      refine ⟨rule.undeclared, mapError_eq_ok.mpr ?_⟩
      rw [Resolver.resolve_undeclared, hrule]
      rfl

/-- A declared locale lacks no rule. -/
lemma raises_pattern_of_declares (h : compiler.Declares) {locale : String}
    (hlocale : locale ∈ compiler.resolver.declared) (text : String) :
    Raises (fun e => ¬e.IsLocale) (compiler.pattern locale text) := by
  obtain ⟨rule, hrule⟩ := h.rule locale hlocale
  intro e he
  rw [pattern, hrule] at he
  rcases bind_eq_error.mp he with hfound | ⟨_, _, he⟩
  · cases hfound
  rcases bind_eq_error.mp he with hparse | ⟨elements, _, he⟩
  · obtain ⟨_, _, rfl⟩ := mapError_eq_error.mp hparse
    exact not_false
  · obtain ⟨_, _, rfl⟩ := mapError_eq_error.mp he
    exact not_false

/-- **Below a declared locale, all locales are declared**, and none of them lacks a rule. -/
lemma raises_traverse_of_declares (h : compiler.Declares) {locale : String}
    (hlocale : locale ∈ compiler.resolver.declared) (source : Source) :
    Raises (fun e => ¬e.IsLocale)
      (source.traverse compiler.localeBelow compiler.pattern locale) := by
  refine Bundle.raises_traverse (fun context key hcontext => ?_)
    (fun context text hcontext => raises_pattern_of_declares h hcontext text) source locale hlocale
  rw [localeBelow]
  split
  · rename_i hkey
    exact List.elem_iff.mp hkey
  · exact hcontext

/-- Where locales are declared, a request is served under one of them, or it names another one. -/
lemma select_cases (h : compiler.Declares) (locale : Option String) :
    (∃ selected ∈ compiler.resolver.declared, compiler.select locale = .ok selected ∧
        ∀ name ∈ locale, name ∈ compiler.resolver.declared) ∨
      ∃ name, locale = some name ∧ name ∉ compiler.resolver.declared ∧
        compiler.select locale = .error (.locale (.notFound name)) := by
  cases locale with
  | none => exact .inl ⟨_, h.default, rfl, fun _ hname => by cases hname⟩
  | some name =>
      by_cases hname : name ∈ compiler.resolver.declared
      · have hall : ∀ other ∈ some name, other ∈ compiler.resolver.declared :=
          fun other hother => Option.some.inj hother ▸ hname
        have hadmits : compiler.resolver.Admits (some name) :=
          fun other hother => .inr (hall other hother)
        exact .inl ⟨name, hname, mapError_eq_ok.mpr (Resolver.select_of_admits hadmits), hall⟩
      · refine .inr ⟨name, rfl, hname, mapError_eq_error.mpr ⟨_, ?_, rfl⟩⟩
        have hempty : compiler.resolver.declared.isEmpty = false :=
          List.isEmpty_eq_false_iff_exists_mem.mpr ⟨_, h.default⟩
        have hdeclared : compiler.resolver.isDeclared name = false := by
          simpa [Resolver.isDeclared] using hname
        rw [Resolver.select, hempty, hdeclared]
        rfl

/-- What is done under the locale of a request has no locale error but that of the request. -/
lemma eq_error_locale_iff {α : Type} (h : compiler.Declares) {locale : Option String}
    {serve : String → Except CompileError α}
    (hserve : ∀ selected ∈ compiler.resolver.declared,
      Raises (fun e => ¬e.IsLocale) (serve selected)) (e : Locale.Error) :
    (compiler.select locale >>= serve) = .error (.locale e) ↔
      ∃ name, locale = some name ∧ name ∉ compiler.resolver.declared ∧ e = .notFound name := by
  rcases select_cases h locale with ⟨selected, hmem, hselect, hall⟩ | ⟨name, rfl, hname, hselect⟩
  · rw [hselect]
    refine ⟨fun herror => absurd trivial (hserve selected hmem _ herror), ?_⟩
    rintro ⟨name, rfl, hname, _⟩
    exact absurd (hall name rfl) hname
  · rw [hselect]
    constructor
    · intro herror
      cases herror
      exact ⟨name, rfl, hname, rfl⟩
    · rintro ⟨_, hsome, _, rfl⟩
      obtain rfl := Option.some.inj hsome
      rfl

/-- **Declared locales are never lost.** A compiler that is set up has the locales that the setup
declares, whichever way it does. If there are any, the default locale is one of them, and patterns
and sources of any depth have a locale error if and only if a locale is requested that is not one of
them. The error names that locale. -/
theorem build_declared {setup : Setup} (hbuild : setup.build = .ok compiler)
    (hdeclared : compiler.resolver.declared ≠ []) :
    compiler.resolver.declared = setup.declaration.names ∧
      compiler.resolver.default ∈ compiler.resolver.declared ∧
      ∀ (locale : Option String) (e : Locale.Error),
        (∀ text, compiler.message locale text = .error (.locale e) ↔
          ∃ name, locale = some name ∧ name ∉ compiler.resolver.declared ∧ e = .notFound name) ∧
        ∀ source, compiler.bundle locale source = .error (.locale e) ↔
          ∃ name, locale = some name ∧ name ∉ compiler.resolver.declared ∧ e = .notFound name := by
  have h := declares_of_build hbuild hdeclared
  have hnames : compiler.resolver.declared = setup.declaration.names := by
    obtain ⟨resolver, hresolver, rfl⟩ := Setup.resolver_of_build hbuild
    exact Resolver.declared_of_ofDeclaration (Resolver.make_eq_ok hresolver).1
  refine ⟨hnames, h.default, fun locale e => ⟨fun text => ?_, fun source => ?_⟩⟩
  · rw [message]
    exact eq_error_locale_iff h (fun _ hmem => raises_pattern_of_declares h hmem text) e
  · rw [bundle]
    refine eq_error_locale_iff h (fun selected hmem => ?_) e
    split
    · exact .error not_false
    · exact raises_traverse_of_declares h hmem source

/-- A declared locale with a rule of its parent, and a group that is put under another one. -/
theorem build_declared_austrian :
    let setup : Setup :=
      { provider := Plural.languages, locales := some (.several ["de-AT", "fr"]) }
    let source : Source := .group [("fr", .one "{n, plural, one{un} other{#}}"), ("x", .one "y")]
    ∃ compiler, setup.build = .ok compiler ∧ compiler.resolver.declared ≠ [] ∧
      compiler.resolver.declared = setup.declaration.names ∧
      compiler.resolver.default ∈ compiler.resolver.declared ∧
      (∀ e, compiler.bundle none source ≠ .error (.locale e)) ∧
      compiler.bundle (some "de") source = .error (.locale (.notFound "de")) := by
  intro setup source
  have hok : passes (fun compiler : Compiler => compiler.resolver.declared == ["de-AT", "fr"])
      setup.build = true := by
    decide +kernel
  obtain ⟨compiler, hbuild, hdeclared⟩ := passes_eq_true hok
  have hdeclared := eq_of_beq hdeclared
  have hne : compiler.resolver.declared ≠ [] := by simp [hdeclared]
  obtain ⟨hnames, hdefault, hall⟩ := build_declared hbuild hne
  refine ⟨compiler, hbuild, hne, hnames, hdefault, fun e herror => ?_, ?_⟩
  · obtain ⟨name, hname, _⟩ := ((hall none e).2 source).mp herror
    cases hname
  · exact ((hall (some "de") _).2 source).mpr ⟨"de", rfl, by simp [hdeclared], rfl⟩

end Compiler

end MessageCatalog
