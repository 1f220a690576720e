/-
Sources are compiled pattern by pattern, and as a whole or not at all.

* `Resolver.Admits`: the locales that may be asked for;
* `Compiler.localeAt`: the locale of the pattern at a path, read off the path;
* `Compiler.CompilesAt`, `Compiler.FirstError`: a pattern that can be compiled in its place, and the
  first one that cannot;
* `bundle_leafwise`: a source gives the messages of its patterns under the same keys, or the error
  of the first pattern that has none.
-/
import MessageCatalog.Plural.Language
import MessageCatalog.Proofs.Catalog.Compiler
import MessageCatalog.Proofs.Traversal

namespace MessageCatalog

open MessageCatalog.Bundle (FirstFailure firstFailure_of_traverse)

/-! ### Locales -/

/-- The locales that may be asked for: the declared ones, or all if none is declared. -/
def Locale.Resolver.Admits (resolver : Locale.Resolver) (locale : Option String) : Prop :=
  ∀ name ∈ locale, resolver.declared = [] ∨ name ∈ resolver.declared

lemma Locale.Resolver.select_of_admits {resolver : Locale.Resolver} {locale : Option String}
    (h : resolver.Admits locale) : resolver.select locale = .ok (locale.getD resolver.default) := by
  cases locale with
  | none => rfl
  | some name =>
      rw [select]
      rcases h name rfl with hnone | hmem
      · rw [hnone]
        rfl
      · have hdeclared : resolver.isDeclared name = true := List.elem_iff.mpr hmem
        rw [hdeclared, Bool.or_true, if_pos rfl]
        rfl

namespace Compiler

variable {compiler : Compiler}

/-- The locale of the pattern at a path: the last key of the path that is a declared locale, or the
locale around the whole source if there is none. -/
def localeAt (compiler : Compiler) (around : String) (path : List String) : String :=
  (path.filter (· ∈ compiler.resolver.declared)).getLastD around

/-- Each key on a path that is a declared locale takes the place of the locale before it. -/
lemma foldl_localeBelow (around : String) (path : List String) :
    path.foldl compiler.localeBelow around = compiler.localeAt around path := by
  induction path generalizing around with
  | nil => rfl
  | cons key rest ih =>
      rw [List.foldl_cons, ih, localeAt, localeAt, localeBelow, Locale.Resolver.isDeclared]
      by_cases hkey : key ∈ compiler.resolver.declared
      · have hcontains : compiler.resolver.declared.contains key = true := List.elem_iff.mpr hkey
        rw [List.filter_cons_of_pos (by simpa using hkey), List.getLastD_cons, if_pos hcontains]
      · have hcontains : ¬compiler.resolver.declared.contains key = true := by
          simpa using hkey
        rw [List.filter_cons_of_neg (by simpa using hkey), if_neg hcontains]

/-! ### Patterns in their places -/

/-- A pattern that can be compiled under the locale of its path. -/
def CompilesAt (compiler : Compiler) (around : String) (path : List String)
    (text : String) : Prop :=
  ∃ m, compiler.pattern (compiler.localeAt around path) text = .ok m

/-- The first pattern of a source that cannot be compiled, with its error. Paths are compared key
by key, and keys by their code points, which puts them in the order of their UTF-8 bytes. -/
structure FirstError (compiler : Compiler) (around : String) (source : Source)
    (path : List String) (e : CompileError) : Prop where
  fails : ∃ text, source.at? path = some (.one text) ∧
    compiler.pattern (compiler.localeAt around path) text = .error e
  earlier : ∀ earlier < path, ∀ text, source.at? earlier = some (.one text) →
    compiler.CompilesAt around earlier text

lemma firstError_of_firstFailure {around : String} {source : Source} {path : List String}
    {e : CompileError}
    (h : FirstFailure compiler.localeBelow compiler.pattern around source path e) :
    compiler.FirstError around source path e := by
  obtain ⟨text, hat, hfails⟩ := h.fails
  rw [foldl_localeBelow] at hfails
  refine ⟨⟨text, hat, hfails⟩, fun earlier hlt text hat => ?_⟩
  obtain ⟨m, hm⟩ := h.earlier earlier hlt text hat
  rw [foldl_localeBelow] at hm
  exact ⟨m, hm⟩

/-- The message of a pattern has the locale that the pattern is compiled under. -/
lemma locale_of_pattern {locale text : String} {m : LiveMessage}
    (h : compiler.pattern locale text = .ok m) : m.locale = locale := by
  obtain ⟨rule, elements, _, _, hmessage⟩ := pattern_eq_ok h
  rw [Compile.message] at hmessage
  obtain ⟨nodes, _, hm⟩ := bind_eq_ok.mp hmessage
  obtain rfl := Except.ok.inj hm
  rfl

/-- No pattern alone has a reserved key. -/
lemma pattern_ne_reservedKey {locale text key : String} :
    compiler.pattern locale text ≠ .error (.reservedKey key) := by
  intro h
  rw [pattern, rule] at h
  rcases bind_eq_error.mp h with h | ⟨rule, _, h⟩
  · obtain ⟨_, _, he⟩ := mapError_eq_error.mp h
    cases he
  rcases bind_eq_error.mp h with h | ⟨elements, _, h⟩
  · obtain ⟨_, _, he⟩ := mapError_eq_error.mp h
    cases he
  · obtain ⟨_, _, he⟩ := mapError_eq_error.mp h
    cases he

/-! ### Whole sources -/

section Sources

variable {locale : Option String} {source : Source}

/-- The reserved key counts where it stands for an entry of the outermost group. -/
lemma hasReservedKey_eq (source : Source) :
    hasReservedKey source = (source.at? [reservedKey]).isSome := by
  cases source with
  | one text => rfl
  | group entries =>
      rw [hasReservedKey, Entries.contains, Bundle.at?_group_cons]
      cases Entries.get? entries reservedKey <;> rfl

/-- Under a locale that may be asked for, a source without the reserved key is visited. -/
lemma bundle_eq_traverse (hlocale : compiler.resolver.Admits locale)
    (hkey : source.at? [reservedKey] = none) :
    compiler.bundle locale source = source.traverse compiler.localeBelow compiler.pattern
      (locale.getD compiler.resolver.default) := by
  have hreserved : hasReservedKey source = false := by rw [hasReservedKey_eq, hkey]; rfl
  rw [bundle, select, Locale.Resolver.select_of_admits hlocale]
  simp only [Except.mapError, bind, Except.bind, hreserved, Bool.false_eq_true, if_false]

lemma bundle_of_reservedKey (hlocale : compiler.resolver.Admits locale)
    (hkey : source.at? [reservedKey] ≠ none) :
    compiler.bundle locale source = .error (.reservedKey reservedKey) := by
  have hreserved : hasReservedKey source = true := by
    rw [hasReservedKey_eq]
    exact Option.isSome_iff_ne_none.mpr hkey
  rw [bundle, select, Locale.Resolver.select_of_admits hlocale]
  simp only [Except.mapError, bind, Except.bind, hreserved, if_true]

/-- **Sources are compiled pattern by pattern, and as a whole or not at all.** Under a locale that
may be asked for, a source with the reserved key at its top is refused. Any other source, whatever
keys it has further down, is never refused for a reserved key: if all its patterns can be compiled
in their places, it gives their messages under the same keys, each with the locale of its path, and
otherwise it gives the error of the first pattern that cannot, and nothing else. -/
theorem bundle_leafwise (ho : source.Ordered) (hlocale : compiler.resolver.Admits locale) :
    (source.at? [reservedKey] ≠ none →
      compiler.bundle locale source = .error (.reservedKey reservedKey)) ∧
    (source.at? [reservedKey] = none →
      (∀ key, compiler.bundle locale source ≠ .error (.reservedKey key)) ∧
      ((∀ path text, source.at? path = some (.one text) →
          compiler.CompilesAt (locale.getD compiler.resolver.default) path text) →
        ∃ b, compiler.bundle locale source = .ok b ∧ b.keyTree = source.keyTree ∧
          ∀ path text, source.at? path = some (.one text) → ∃ m,
            b.at? path = some (.one m) ∧
            compiler.pattern (compiler.localeAt (locale.getD compiler.resolver.default) path) text =
              .ok m ∧
            m.locale = compiler.localeAt (locale.getD compiler.resolver.default) path) ∧
      ((¬∀ path text, source.at? path = some (.one text) →
          compiler.CompilesAt (locale.getD compiler.resolver.default) path text) →
        ∃ path e, compiler.FirstError (locale.getD compiler.resolver.default) source path e ∧
          compiler.bundle locale source = .error e)) := by
  refine ⟨bundle_of_reservedKey hlocale, fun hkey => ?_⟩
  rw [bundle_eq_traverse hlocale hkey]
  generalize locale.getD compiler.resolver.default = around
  -- The walk over the source either fails at its first bad leaf or makes a message of every leaf.
  -- Each of the statements is about one of the two.
  cases hvisit : source.traverse compiler.localeBelow compiler.pattern around with
  | error e =>
      obtain ⟨path, hfailure⟩ := firstFailure_of_traverse ho hvisit
      have hfirst := firstError_of_firstFailure hfailure
      obtain ⟨text, hat, hfails⟩ := hfirst.fails
      refine ⟨fun key heq => ?_, fun hall => ?_, fun _ => ⟨path, e, hfirst, rfl⟩⟩
      · obtain rfl := Except.error.inj heq
        exact pattern_ne_reservedKey hfails
      · obtain ⟨m, hm⟩ := hall path text hat
        rw [hfails] at hm
        cases hm
  | ok b =>
      have hleaf : ∀ path text, source.at? path = some (.one text) → ∃ m,
          compiler.pattern (compiler.localeAt around path) text = .ok m ∧
            b.at? path = some (.one m) := by
        intro path text hat
        obtain ⟨m, hm, hat'⟩ := Bundle.at?_of_traverse hvisit hat
        rw [foldl_localeBelow] at hm
        exact ⟨m, hm, hat'⟩
      refine ⟨fun key heq => (nomatch heq), fun _ => ⟨b, rfl, ?_, ?_⟩, fun hnot => ?_⟩
      · exact Bundle.keyTree_of_traverse hvisit
      · intro path text hat
        obtain ⟨m, hm, hat'⟩ := hleaf path text hat
        exact ⟨m, hat', hm, locale_of_pattern hm⟩
      · refine absurd (fun path text hat => ?_) hnot
        obtain ⟨m, hm, _⟩ := hleaf path text hat
        exact ⟨m, hm⟩

/-- A declared locale inside another one counts for what is below it, and not for what comes after
it; the reserved key may stand anywhere but at the top. -/
theorem bundle_leafwise_french :
    let compiler : Compiler := ⟨⟨Plural.languages, ["en", "fr"], "en"⟩, {}, true, false, false⟩
    let source : Source := .group
      [("en", .group
        [("fr", .group [("toString", .one "{n, plural, one{un} other{#}}")]), ("title", .one "A")])]
    source.Ordered ∧ compiler.resolver.Admits none ∧
      ∃ b french english, compiler.bundle none source = .ok b ∧
        b.at? ["en", "fr", "toString"] = some (.one french) ∧ french.locale = "fr" ∧
        b.at? ["en", "title"] = some (.one english) ∧ english.locale = "en" := by
  intro compiler source
  have ho : source.Ordered := by
    have hkeys : "fr" < "title" := by decide
    refine ⟨List.pairwise_singleton _ _, ⟨?_, ⟨?_, trivial, trivial⟩, trivial, trivial⟩, trivial⟩
    · exact List.Pairwise.cons (fun e he => List.mem_singleton.mp he ▸ hkeys)
        (List.pairwise_singleton _ _)
    · exact List.pairwise_singleton _ _
  have hlocale : compiler.resolver.Admits none := fun _ h => nomatch h
  have hok : (match compiler.bundle none source with
      | .ok _ => true
      | .error _ => false) = true := by
    decide +kernel
  obtain ⟨_, hvisit⟩ := bundle_leafwise ho hlocale
  obtain ⟨_, hmade, hfailed⟩ := hvisit (by decide)
  by_cases hall : ∀ path text, source.at? path = some (.one text) →
      compiler.CompilesAt ((none : Option String).getD compiler.resolver.default) path text
  · obtain ⟨b, hb, _, hleaf⟩ := hmade hall
    obtain ⟨french, hfrench, _, hfr⟩ := hleaf ["en", "fr", "toString"] _ rfl
    obtain ⟨english, henglish, _, hen⟩ := hleaf ["en", "title"] _ rfl
    exact ⟨ho, hlocale, b, french, english, hb, hfrench, hfr, henglish, hen⟩
  · obtain ⟨_, e, _, he⟩ := hfailed hall
    rw [he] at hok
    cases hok

end Sources

end Compiler

end MessageCatalog
