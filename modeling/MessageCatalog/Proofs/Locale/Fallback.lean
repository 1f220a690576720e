/-
Which rule a locale resolves to.

A provider knows rules by exact names. A locale gets the rule of the longest name that the provider
knows among the locale and its ancestors.

* `Nearest`: the longest name that a provider knows for a text, with its rule;
* `findSome?_lineageOf`: looking the names up one after the other finds it;
* `resolve_fallback`: what a locale resolves to, and what does not matter for that.
-/
import MessageCatalog.Locale.Resolver
import MessageCatalog.Plural.Language
import MessageCatalog.Proofs.Except
import MessageCatalog.Proofs.Locale.Lineage

namespace MessageCatalog.Locale

open Plural (Provider Rule)
open Text (trim)

/-! ### Nearest names -/

/-- The longest name that a provider knows among a text and its ancestors, with its rule. -/
structure Nearest (provider : Provider) (text name : String) (rule : Rule) : Prop where
  fallsBack : FallsBackTo text name
  found : provider name = some rule
  longest : ∀ other, FallsBackTo text other → provider other ≠ none → other.length ≤ name.length

variable {provider : Provider} {text : String}

lemma FallsBackTo.isPrefix {name : String} (h : FallsBackTo text name) :
    name.toList <+: text.toList := by
  rcases h with rfl | ⟨c, rest, _, htext⟩
  · exact List.prefix_rfl
  · exact htext ▸ List.prefix_append name.toList (c :: rest)

/-- There is one longest name only. -/
lemma Nearest.eq {name name' : String} {rule rule' : Rule} (h : Nearest provider text name rule)
    (h' : Nearest provider text name' rule') : rule = rule' := by
  have hle := h'.longest name h.fallsBack (by simp [h.found])
  have hge := h.longest name' h'.fallsBack (by simp [h'.found])
  have hlength : name.toList.length = name'.toList.length := by
    rw [String.length_toList, String.length_toList]
    exact le_antisymm hle hge
  have hname : name = name' := String.toList_injective <|
    (List.prefix_of_prefix_length_le h.fallsBack.isPrefix h'.fallsBack.isPrefix
      hlength.le).eq_of_length hlength
  rw [hname] at h
  exact Option.some.inj (h.found.symm.trans h'.found)

/-- **Looking the names up one after the other finds the nearest.** -/
theorem findSome?_lineageOf {rule : Rule} :
    (lineageOf text).findSome? provider = some rule ↔
      ∃ name, Nearest provider text name rule := by
  have hfound (rule : Rule) (h : (lineageOf text).findSome? provider = some rule) :
      ∃ name, Nearest provider text name rule := by
    obtain ⟨longer, name, shorter, hnames, hname, hlonger⟩ := List.findSome?_eq_some_iff.mp h
    have hmem : name ∈ lineageOf text := by simp [hnames]
    refine ⟨name, mem_lineageOf.mp hmem, hname, fun other hother hknown => ?_⟩
    have horder := pairwise_lineageOf text
    have hother := mem_lineageOf.mpr hother
    rw [hnames] at horder hother
    -- Names in front of this one are unknown, and names behind it are shorter.
    rcases List.mem_append.mp hother with hother | hother
    · exact absurd (hlonger other hother) hknown
    · rcases List.mem_cons.mp hother with rfl | hother
      · exact le_refl _
      · exact ((List.pairwise_cons.mp (List.pairwise_append.mp horder).2.1).1 other hother).le
  refine ⟨hfound rule, fun ⟨name, hnearest⟩ => ?_⟩
  cases h : (lineageOf text).findSome? provider with
  | none =>
      have hnone := List.findSome?_eq_none_iff.mp h name (mem_lineageOf.mpr hnearest.fallsBack)
      rw [hnearest.found] at hnone
      cases hnone
  | some given =>
      obtain ⟨name', hnearest'⟩ := hfound given h
      rw [hnearest'.eq hnearest]

lemma findSome?_lineageOf_eq_none : (lineageOf text).findSome? provider = none ↔
    ∀ name, FallsBackTo text name → provider name = none := by
  rw [List.findSome?_eq_none_iff]
  exact forall_congr' fun name => by rw [mem_lineageOf]

/-- Below a name that the provider does not know, a text stands for what its parent stands for. -/
lemma findSome?_lineageOf_parent {parent : String} (hparent : IsParent parent text)
    (hunknown : provider text = none) :
    (lineageOf text).findSome? provider = (lineageOf parent).findSome? provider := by
  have hnearest (name : String) (rule : Rule) :
      Nearest provider text name rule ↔ Nearest provider parent name rule := by
    constructor
    · rintro ⟨hfalls, hfound, hlongest⟩
      rcases hparent.fallsBackTo_iff.mp hfalls with rfl | hfalls
      · rw [hunknown] at hfound
        cases hfound
      · exact ⟨hfalls, hfound, fun other h => hlongest other (hparent.fallsBackTo_iff.mpr (.inr h))⟩
    · rintro ⟨hfalls, hfound, hlongest⟩
      refine ⟨hparent.fallsBackTo_iff.mpr (.inr hfalls), hfound, fun other hother hknown => ?_⟩
      rcases hparent.fallsBackTo_iff.mp hother with rfl | hother
      · exact absurd hunknown hknown
      · exact hlongest other hother hknown
  ext rule
  simp only [findSome?_lineageOf, hnearest]

/-! ### Resolving -/

namespace Resolver

variable {resolver : Resolver} {locale : String}

/-- What is no identifier does not resolve. -/
lemma resolve_of_not_isIdentifier (h : ¬IsIdentifier (trim locale)) (categories : Bool) :
    resolver.resolve locale categories = .error (.notFound locale) := by
  rw [resolve]
  cases hparse : Id.parse locale with
  | error fault => rfl
  | ok id => exact absurd (Id.parse_eq_ok.mp hparse).1 h

/-- An identifier resolves to the first rule that is found for its names. -/
lemma resolve_of_isIdentifier (h : IsIdentifier (trim locale)) (categories : Bool) :
    resolver.resolve locale categories =
      match (lineageOf (trim locale)).findSome? resolver.provider with
      | some rule => .ok (if categories then rule else rule.undeclared)
      | none => .error (.notFound locale) := by
  have hparse : Id.parse locale = .ok (Id.ofText (trim locale)) := Id.parse_eq_ok.mpr ⟨h, rfl⟩
  cases hfound : (lineageOf (trim locale)).findSome? resolver.provider with
  | none =>
      rw [lineageOf] at hfound
      simp only [resolve, hparse, hfound]
  | some rule =>
      rw [lineageOf] at hfound
      simp only [resolve, hparse, hfound]

/-- **A locale resolves to the rule of the nearest name.** -/
theorem resolve_eq_ok_iff {categories : Bool} {rule : Rule} :
    resolver.resolve locale categories = .ok rule ↔
      IsIdentifier (trim locale) ∧ ∃ name given,
        Nearest resolver.provider (trim locale) name given ∧
          rule = if categories then given else given.undeclared := by
  by_cases h : IsIdentifier (trim locale)
  · rw [resolve_of_isIdentifier h]
    cases hfound : (lineageOf (trim locale)).findSome? resolver.provider with
    | none =>
        refine ⟨fun hok => (nomatch hok), ?_⟩
        rintro ⟨_, name, given, hnearest, _⟩
        cases hfound.symm.trans (findSome?_lineageOf.mpr ⟨name, hnearest⟩)
    | some given =>
        obtain ⟨name, hnearest⟩ := findSome?_lineageOf.mp hfound
        constructor
        · intro hok
          exact ⟨h, name, given, hnearest, (Except.ok.inj hok).symm⟩
        · rintro ⟨_, name', given', hnearest', rfl⟩
          rw [hnearest.eq hnearest']
  · rw [resolve_of_not_isIdentifier h]
    exact ⟨fun hok => (nomatch hok), fun hok => absurd hok.1 h⟩

/-- **A locale that does not resolve** is no identifier, or none of its names is known. -/
theorem resolve_eq_error_iff {categories : Bool} {e : Error} :
    resolver.resolve locale categories = .error e ↔ e = .notFound locale ∧
      (IsIdentifier (trim locale) →
        ∀ name, FallsBackTo (trim locale) name → resolver.provider name = none) := by
  by_cases h : IsIdentifier (trim locale)
  · rw [resolve_of_isIdentifier h, ← findSome?_lineageOf_eq_none]
    cases hfound : (lineageOf (trim locale)).findSome? resolver.provider with
    | none =>
        exact ⟨fun herror => ⟨(Except.error.inj herror).symm, fun _ => rfl⟩, fun he => he.1 ▸ rfl⟩
    | some given => exact ⟨fun herror => (nomatch herror), fun he => (nomatch he.2 h)⟩
  · rw [resolve_of_not_isIdentifier h]
    exact ⟨fun herror => ⟨(Except.error.inj herror).symm, fun hid => absurd hid h⟩,
      fun he => he.1 ▸ rfl⟩

/-- **A locale resolves like its parent** if the provider does not know the locale itself. -/
theorem resolve_parent {parent : String} (hparent : IsParent parent (trim locale))
    (hunknown : resolver.provider (trim locale) = none) (categories : Bool) :
    (resolver.resolve locale categories = .error (.notFound locale) ∧
        resolver.resolve parent categories = .error (.notFound parent)) ∨
      ∃ rule, resolver.resolve locale categories = .ok rule ∧
        resolver.resolve parent categories = .ok rule := by
  have hid' := hparent.isIdentifier
  have htrim := hid'.trim_eq
  rw [resolve_of_isIdentifier hparent.1, resolve_of_isIdentifier (htrim.symm ▸ hid'), htrim,
    findSome?_lineageOf_parent hparent hunknown]
  cases (lineageOf parent).findSome? resolver.provider with
  | none => exact .inl ⟨rfl, rfl⟩
  | some rule => exact .inr ⟨_, rfl, rfl⟩

/-- **Rules for other names do not matter.** -/
theorem resolve_update {name : String} (h : ¬FallsBackTo (trim locale) name) (rule : Rule)
    (categories : Bool) :
    Resolver.resolve
        { resolver with provider := Function.update resolver.provider name (some rule) }
        locale categories =
      resolver.resolve locale categories := by
  by_cases hid : IsIdentifier (trim locale)
  · rw [resolve_of_isIdentifier hid, resolve_of_isIdentifier hid]
    have hsame : (lineageOf (trim locale)).findSome?
          (Function.update resolver.provider name (some rule)) =
        (lineageOf (trim locale)).findSome? resolver.provider := by
      rw [← List.head?_filterMap, ← List.head?_filterMap]
      refine congrArg List.head? (List.filterMap_congr fun other hother => ?_)
      refine Function.update_of_ne ?_ _ _
      rintro rfl
      exact h (mem_lineageOf.mp hother)
    rw [hsame]
  · rw [resolve_of_not_isIdentifier hid, resolve_of_not_isIdentifier hid]

/-- **Leaving categories out leaves nothing else out.** -/
theorem resolve_undeclared (resolver : Resolver) (locale : String) :
    resolver.resolve locale false = (resolver.resolve locale true).map
      fun rule => { rule with cardinal := [], ordinal := [] } := by
  by_cases hid : IsIdentifier (trim locale)
  · rw [resolve_of_isIdentifier hid, resolve_of_isIdentifier hid]
    cases (lineageOf (trim locale)).findSome? resolver.provider <;> rfl
  · rw [resolve_of_not_isIdentifier hid, resolve_of_not_isIdentifier hid]
    rfl

/-- **Fallback is look-up of the longest ancestor.** A locale resolves to the rule that the
provider has for the longest name that it knows among the locale, without white space at its ends,
and its ancestors. There is no rule if the locale is no identifier, or if the provider knows none of
these names. So a locale that the provider does not know resolves like its parent, rules for other
names do not matter, and without categories the rule is the same but for the categories that it
declares. -/
theorem resolve_fallback (resolver : Resolver) (locale : String) (categories : Bool) :
    (∀ rule, resolver.resolve locale categories = .ok rule ↔ IsIdentifier (trim locale) ∧
      ∃ name given, Nearest resolver.provider (trim locale) name given ∧
        rule = if categories then given else given.undeclared) ∧
    (∀ e, resolver.resolve locale categories = .error e ↔ e = .notFound locale ∧
      (IsIdentifier (trim locale) →
        ∀ name, FallsBackTo (trim locale) name → resolver.provider name = none)) ∧
    (∀ parent, IsParent parent (trim locale) → resolver.provider (trim locale) = none →
      (resolver.resolve locale categories = .error (.notFound locale) ∧
          resolver.resolve parent categories = .error (.notFound parent)) ∨
        ∃ rule, resolver.resolve locale categories = .ok rule ∧
          resolver.resolve parent categories = .ok rule) ∧
    (∀ name rule, ¬FallsBackTo (trim locale) name →
      Resolver.resolve
          { resolver with provider := Function.update resolver.provider name (some rule) }
          locale categories =
        resolver.resolve locale categories) ∧
    resolver.resolve locale false =
      (resolver.resolve locale true).map fun rule => { rule with cardinal := [], ordinal := [] } :=
  ⟨fun _ => resolve_eq_ok_iff, fun _ => resolve_eq_error_iff,
    fun _ hparent hunknown => resolve_parent hparent hunknown categories,
    fun _ rule h => resolve_update h rule categories, resolve_undeclared resolver locale⟩

/-- Two subtags are dropped, behind two separators, before the provider knows a name. -/
theorem resolve_fallback_chinese :
    let resolver : Resolver := ⟨Plural.languages, [], "en"⟩
    let locale := " zh_Hant-TW "
    IsParent "zh_Hant" (trim locale) ∧ resolver.provider (trim locale) = none ∧
      ∃ name given, Nearest resolver.provider (trim locale) name given ∧
        resolver.resolve locale true = .ok given ∧ resolver.resolve "zh_Hant" true = .ok given ∧
        given.locale = "zh" := by
  intro resolver locale
  have hid : IsIdentifier (trim locale) := Id.isIdentifier_iff.mpr (by decide +kernel)
  have htext : (trim locale).toList = "zh_Hant".toList ++ '-' :: ['T', 'W'] := by decide +kernel
  have hparent : IsParent "zh_Hant" (trim locale) :=
    ⟨hid, '-', ['T', 'W'], rfl, by simp [isSeparator], htext⟩
  have hunknown : resolver.provider (trim locale) = none :=
    Option.isNone_iff_eq_none.mp (by decide +kernel)
  have hok : passes (fun rule => rule.locale == "zh") (resolver.resolve locale true) = true := by
    decide +kernel
  obtain ⟨rule, hrule, hlocale⟩ := passes_eq_true hok
  obtain ⟨hresolves, _, hparents, _⟩ := resolve_fallback resolver locale true
  obtain ⟨_, name, given, hnearest, hgiven⟩ := (hresolves rule).mp hrule
  obtain rfl : rule = given := hgiven
  rcases hparents "zh_Hant" hparent hunknown with ⟨herror, _⟩ | ⟨rule', hrule', hboth⟩
  · cases hrule.symm.trans herror
  · obtain rfl := Except.ok.inj (hrule'.symm.trans hrule)
    exact ⟨hparent, hunknown, name, _, hnearest, hrule, hboth, eq_of_beq hlocale⟩

end Resolver

end MessageCatalog.Locale
