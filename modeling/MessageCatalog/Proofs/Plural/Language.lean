/-
The rules of the languages, as statements about numbers.

A rule sets some whole numbers apart, by their last digits or one by one, and gives all others one
category; these statements are kept apart from the computation of a category. Whole numbers are
counted up to `2 ^ 64`, and larger ones are not.

* `Family.Marks`, `Family.rest`, `Family.Takes`: which whole numbers have a category;
* `Family.ofWhole_eq_iff`: the rule on whole numbers gives each its category;
* `languages_declared`: the declared categories are those that some number has;
* `Quantity.ofFloat_of_equals`, `Quantity.ofFloat_eq_whole_iff`: what is counted;
* `languages_whole`: the categories of whole floats.
-/
import MessageCatalog.Plural.Language
import MessageCatalog.Proofs.Number.Whole

namespace MessageCatalog.Plural

open Number (Equals Exact isFinite unit unit_pos view)

/-! ### Whole numbers -/

namespace Family

/-- The category of a whole number, as a number of things or as a rank. -/
def ofWhole (family : Family) (n : Nat) : Kind → Category
  | .cardinal => family.cardinalOfWhole n
  | .ordinal => family.ordinalOfWhole n

/-- The whole numbers that a family sets apart, with their categories. -/
def Marks : Family → Kind → Category → Nat → Prop
  | .english, .cardinal, .one, n | .germanic, .cardinal, .one, n => n = 1
  | .french, .cardinal, .one, n => n = 0 ∨ n = 1
  | .spanish, .cardinal, .one, n | .italian, .cardinal, .one, n => n = 1
  | .french, .cardinal, .many, n | .spanish, .cardinal, .many, n | .italian, .cardinal, .many, n =>
    n ≠ 0 ∧ 1000000 ∣ n
  | .hebrew, .cardinal, .one, n => n = 1
  | .hebrew, .cardinal, .two, n => n = 2
  | .russian, .cardinal, .one, n | .serboCroatian, .cardinal, .one, n =>
    n % 10 = 1 ∧ n % 100 ≠ 11
  | .polish, .cardinal, .one, n => n = 1
  | .russian, .cardinal, .few, n | .serboCroatian, .cardinal, .few, n
  | .polish, .cardinal, .few, n => n % 10 ∈ [2, 3, 4] ∧ n % 100 ∉ [12, 13, 14]
  | .arabic, .cardinal, .zero, n | .welsh, .cardinal, .zero, n => n = 0
  | .arabic, .cardinal, .one, n | .welsh, .cardinal, .one, n => n = 1
  | .arabic, .cardinal, .two, n | .welsh, .cardinal, .two, n => n = 2
  | .arabic, .cardinal, .few, n => 3 ≤ n % 100 ∧ n % 100 ≤ 10
  | .arabic, .cardinal, .many, n => 11 ≤ n % 100 ∧ n % 100 ≤ 99
  | .welsh, .cardinal, .few, n => n = 3
  | .welsh, .cardinal, .many, n => n = 6
  | .english, .ordinal, .one, n => n % 10 = 1 ∧ n % 100 ≠ 11
  | .english, .ordinal, .two, n => n % 10 = 2 ∧ n % 100 ≠ 12
  | .english, .ordinal, .few, n => n % 10 = 3 ∧ n % 100 ≠ 13
  | .french, .ordinal, .one, n => n = 1
  | .italian, .ordinal, .many, n => n ∈ [8, 11, 80, 800]
  | .welsh, .ordinal, .zero, n => n ∈ [0, 7, 8, 9]
  | .welsh, .ordinal, .one, n => n = 1
  | .welsh, .ordinal, .two, n => n = 2
  | .welsh, .ordinal, .few, n => n ∈ [3, 4]
  | .welsh, .ordinal, .many, n => n ∈ [5, 6]
  | _, _, _, _ => False

/-- The category of the whole numbers that are not set apart. -/
def rest : Family → Kind → Category
  | .russian, .cardinal | .polish, .cardinal => .many
  | _, _ => .other

/-- A whole number has a category: it is set apart with it, or it is one of the others. -/
def Takes (family : Family) (kind : Kind) (category : Category) (n : Nat) : Prop :=
  family.Marks kind category n ∨
    (category = family.rest kind ∧ ∀ marked, ¬family.Marks kind marked n)

section Whole

variable {family : Family} {kind : Kind} {category : Category} {n : Nat}

lemma ofWhole_of_marks (h : family.Marks kind category n) : family.ofWhole n kind = category := by
  cases kind <;> cases category <;> cases family <;> first
    | exact h.elim
    | simp only [Marks, List.mem_cons, List.not_mem_nil, or_false] at h
      simp only [ofWhole, cardinalOfWhole, ordinalOfWhole, slavic, romance, Plural.polish,
        Plural.arabic, englishOrdinal, welshOrdinal]
      split_ifs <;> first | rfl | omega

lemma ofWhole_of_forall_not_marks (h : ∀ marked, ¬family.Marks kind marked n) :
    family.ofWhole n kind = family.rest kind := by
  have hzero := h .zero
  have hone := h .one
  have htwo := h .two
  have hfew := h .few
  have hmany := h .many
  clear h
  cases kind <;> cases family <;>
    simp only [Marks, List.mem_cons, List.not_mem_nil, or_false] at hzero hone htwo hfew hmany <;>
    simp only [ofWhole, cardinalOfWhole, ordinalOfWhole, slavic, romance, Plural.polish,
      Plural.arabic, englishOrdinal, welshOrdinal] <;>
    (try split_ifs) <;> first | rfl | (exfalso; omega)

/-- **The rule on whole numbers gives each its category**, and no other. -/
theorem ofWhole_eq_iff : family.ofWhole n kind = category ↔ family.Takes kind category n := by
  constructor
  · rintro rfl
    by_cases h : ∃ marked, family.Marks kind marked n
    · obtain ⟨marked, hmarked⟩ := h
      rw [ofWhole_of_marks hmarked]
      exact .inl hmarked
    · have hnone := not_exists.mp h
      exact .inr ⟨ofWhole_of_forall_not_marks hnone, hnone⟩
  · rintro (h | ⟨rfl, h⟩)
    · exact ofWhole_of_marks h
    · exact ofWhole_of_forall_not_marks h

end Whole

/-! ### Declared categories -/

/-- The categories of a kind. -/
def declared (family : Family) : Kind → List Category
  | .cardinal => family.cardinals
  | .ordinal => family.ordinals

lemma category_rule (family : Family) (locale : String) :
    (family.rule locale).category = family.category := rfl

lemma declared_rule (family : Family) (locale : String) (kind : Kind) :
    (family.rule locale).declared kind = family.declared kind := by
  cases kind <;> rfl

section Declared

variable {family : Family} {kind : Kind} {category : Category}

lemma other_mem_declared : Category.other ∈ family.declared kind := by
  cases kind <;> cases family <;> decide

lemma mem_declared_of_takes {n : Nat} (h : family.Takes kind category n) :
    category ∈ family.declared kind := by
  rcases h with h | ⟨rfl, -⟩
  · cases kind <;> cases family <;> cases category <;> first
      | exact h.elim
      | decide
  · cases kind <;> cases family <;> decide

lemma ofWhole_mem_declared (n : Nat) : family.ofWhole n kind ∈ family.declared kind :=
  mem_declared_of_takes (ofWhole_eq_iff.mp rfl)

/-- Every number has a declared category. -/
lemma category_mem_declared (x : Float) : family.category x kind ∈ family.declared kind := by
  cases kind with
  | ordinal =>
      show family.ordinal (.ofFloat x) ∈ _
      cases Quantity.ofFloat x with
      | whole n => exact ofWhole_mem_declared n
      | _ => exact other_mem_declared
  | cardinal =>
      show family.cardinal (.ofFloat x) ∈ _
      cases Quantity.ofFloat x with
      | whole n => exact ofWhole_mem_declared n
      | boundless => exact other_mem_declared
      | fraction floor =>
          -- Only two families look at fractions.
          cases family with
          | french | hebrew =>
              simp only [cardinal]
              split <;> decide
          | _ => exact other_mem_declared

/-- Numbers that have all the categories between them. -/
def samples : List Float := [0, 1, 2, 3, 5, 6, 11, 100, 1000000, 1.5]

lemma isFinite_of_mem_samples : ∀ x ∈ samples, isFinite x = true := by decide

/-- Every declared category is that of a number. -/
lemma exists_category_eq (family : Family) (kind : Kind) :
    ∀ category ∈ family.declared kind, ∃ x ∈ samples, family.category x kind = category := by
  cases family <;> cases kind <;> decide +kernel

end Declared

end Family

lemma eq_rule_of_languages {code : String} {rule : Rule} (h : languages code = some rule) :
    ∃ family, Family.ofLanguage? code = some family ∧ rule = family.rule code := by
  obtain ⟨family, hfamily, rfl⟩ := Option.map_eq_some_iff.mp h
  exact ⟨family, hfamily, rfl⟩

/-- **The declared categories are those that some number has**: every number, finite or not, has a
declared category, and every declared category is that of a finite number. -/
theorem languages_declared {code : String} {rule : Rule} (h : languages code = some rule)
    (kind : Kind) :
    (∀ x, rule.category x kind ∈ rule.declared kind) ∧
      ∀ category ∈ rule.declared kind, ∃ x, isFinite x = true ∧ rule.category x kind = category := by
  obtain ⟨family, -, rfl⟩ := eq_rule_of_languages h
  rw [Family.declared_rule]
  refine ⟨Family.category_mem_declared, fun category hcategory => ?_⟩
  obtain ⟨x, hx, hcategory⟩ := family.exists_category_eq kind category hcategory
  exact ⟨x, Family.isFinite_of_mem_samples x hx, hcategory⟩

/-- A language with all six categories. -/
theorem languages_declared_arabic :
    languages "ar" = some (Family.arabic.rule "ar") ∧
      (∀ x, Family.arabic.category x .cardinal ∈ Family.arabic.cardinals) ∧
      ∀ category ∈ Family.arabic.cardinals, ∃ x, isFinite x = true ∧
        Family.arabic.category x .cardinal = category :=
  have hrule : languages "ar" = some (Family.arabic.rule "ar") := by
    have hfamily : Family.ofLanguage? "ar" = some .arabic := by decide +kernel
    rw [languages, hfamily, Option.map_some]
  ⟨hrule, languages_declared hrule .cardinal⟩

/-! ### Whole floats -/

namespace Quantity

variable {x : Float} {z : Int}

/-- The quantity of a whole float. -/
lemma ofFloat_of_equals (h : Equals x z) : ofFloat x =
    if z.natAbs ≤ largest then .whole z.natAbs
    else if z.natAbs = largest + 1 then .whole largest
    else .boundless := by
  obtain ⟨e, hview, hsigned⟩ := h
  have hunits := Exact.units_of_signed hsigned
  simp only [ofFloat, hview, hunits, Nat.mul_mod_left, Nat.mul_div_cancel _ unit_pos, ne_eq,
    not_true_eq_false, if_false]

/-- A natural number, as an integer, has the same float. -/
lemma ofInt_natCast (n : Nat) : Number.ofInt n = Number.ofNat n := by
  rw [Number.ofInt, Int.natAbs_natCast, decide_eq_false (Int.not_lt.mpr (Int.natCast_nonneg n)),
    Number.ofNat]

/-- The largest count has no float of its own. -/
lemma ofNat_largest : Number.ofNat largest = Number.ofNat (largest + 1) := by
  have hbits : Number.nearestBits largest 1 = Number.nearestBits (largest + 1) 1 := by
    decide +kernel
  rw [Number.ofNat, Number.ofNat, Number.nearest, Number.nearest, hbits]

/-- The float nearest to the largest count. -/
lemma equals_ofNat_largest : Equals (Number.ofNat largest) ((largest + 1 : Nat) : Int) := by
  decide +kernel

lemma Exact.signed_abs (e : Exact) : Exact.signed { e with negative := false } = e.units := rfl

/-- **A float is counted if it is what is left of it when it is cut off**, at the largest count at
the latest. -/
theorem ofFloat_eq_whole_iff {e : Exact} (hview : view x = .finite e) {n : Nat} :
    ofFloat x = .whole n ↔
      n = min largest (e.units / unit) ∧ (Number.ofNat n == x.abs) = true := by
  have habs := Number.view_abs hview
  simp only [ofFloat, hview]
  by_cases hdvd : unit ∣ e.units
  · rw [if_neg (not_not_intro (Nat.mod_eq_zero_of_dvd hdvd))]
    have hunits : e.units / unit * unit = e.units := Nat.div_mul_cancel hdvd
    generalize e.units / unit = floor at hunits ⊢
    have hequals : Equals x.abs (floor : Int) :=
      ⟨_, habs, (Exact.signed_abs e).trans (by exact_mod_cast hunits.symm)⟩
    have hbeq : (Number.ofNat floor == x.abs) = true := by
      rw [← ofInt_natCast]
      exact Number.ofInt_beq_of_equals hequals
    -- The whole part fits the counter, it is the one number behind those that do and is taken for
    -- the largest of them, which has the same float, or it is larger than both.
    rcases Nat.lt_trichotomy floor (largest + 1) with hlt | heq | hgt
    · rw [if_pos (by omega), Nat.min_eq_right (by omega), whole.injEq]
      exact ⟨fun h => ⟨h.symm, h ▸ hbeq⟩, fun h => h.1.symm⟩
    · rw [if_neg (by omega), if_pos heq, Nat.min_eq_left (by omega), whole.injEq]
      rw [heq, ← ofNat_largest] at hbeq
      exact ⟨fun h => ⟨h.symm, h ▸ hbeq⟩, fun h => h.1.symm⟩
    · rw [if_neg (by omega), if_neg (by omega), Nat.min_eq_left (by omega)]
      refine iff_of_false (by simp) ?_
      rintro ⟨rfl, hlargest⟩
      obtain ⟨a, ha, hsigned⟩ := equals_ofNat_largest
      have hsame := (Number.beq_iff ha habs).mp hlargest
      rw [hsigned, Exact.signed_abs, ← hunits] at hsame
      have := Nat.eq_of_mul_eq_mul_right unit_pos (by exact_mod_cast hsame)
      omega
  -- A number with a fraction is not equal to its whole part.
  · rw [if_pos fun h => hdvd (Nat.dvd_of_mod_eq_zero h)]
    refine iff_of_false (by simp) ?_
    rintro ⟨rfl, hcut⟩
    have hfloor := Exact.div_unit_lt (Number.ofExact_of_view hview).1 hdvd
    rw [Nat.min_eq_right (hfloor.le.trans (by decide)), ← ofInt_natCast] at hcut
    obtain ⟨a, ha, hsigned⟩ := Number.equals_ofInt
      (n := (e.units / unit : Nat)) (by rw [Int.natAbs_natCast]; omega)
    have hsame := (Number.beq_iff ha habs).mp hcut
    rw [hsigned, Exact.signed_abs] at hsame
    exact hdvd ⟨e.units / unit, by rw [Nat.mul_comm]; exact_mod_cast hsame.symm⟩

end Quantity

/-- The category of a whole float: beyond the end of counting it is `other`. -/
lemma Family.category_of_equals (family : Family) {x : Float} {z : Int} (h : Equals x z)
    (kind : Kind) : family.category x kind =
      if z.natAbs ≤ 2 ^ 64 then family.ofWhole z.natAbs kind else .other := by
  have hlast : family.ofWhole Quantity.largest kind = family.ofWhole (2 ^ 64) kind := by
    cases kind <;> cases family <;> decide
  have hquantity := Quantity.ofFloat_of_equals h
  have hsame : Quantity.largest + 1 = 2 ^ 64 := rfl
  rcases Nat.lt_trichotomy z.natAbs (2 ^ 64) with hlt | heq | hgt
  · rw [if_pos (by omega)] at hquantity
    rw [if_pos hlt.le]
    cases kind <;> simp only [category, hquantity] <;> rfl
  · rw [if_neg (by omega), if_pos (by omega)] at hquantity
    rw [if_pos heq.le, heq, ← hlast]
    cases kind <;> simp only [category, hquantity] <;> rfl
  · rw [if_neg (by omega), if_neg (by omega)] at hquantity
    rw [if_neg (by omega)]
    cases kind <;> simp only [category, hquantity] <;> rfl

/-- **Whole floats have the categories of their integers up to `2 ^ 64`**, by the rule of the
language on whole numbers; every larger one is `other`, whatever the rule says. -/
theorem languages_whole {code : String} {rule : Rule} (h : languages code = some rule) :
    ∃ family, Family.ofLanguage? code = some family ∧
      ∀ {x : Float} {z : Int} (kind : Kind) (category : Category), Equals x z →
        (rule.category x kind = category ↔
          if z.natAbs ≤ 2 ^ 64 then family.Takes kind category z.natAbs else category = .other) := by
  obtain ⟨family, hfamily, rfl⟩ := eq_rule_of_languages h
  refine ⟨family, hfamily, fun {x z} kind category hequals => ?_⟩
  rw [Family.category_rule, family.category_of_equals hequals kind]
  split
  · exact Family.ofWhole_eq_iff
  · exact eq_comm

/-- Minus twenty-one things, in a language that looks at last digits. -/
theorem languages_whole_russian :
    languages "ru" = some (Family.russian.rule "ru") ∧ Equals (-21) (-21) ∧
      (Family.russian.rule "ru").category (-21) .cardinal = .one := by
  have hfamily : Family.ofLanguage? "ru" = some .russian := by decide +kernel
  have hrule : languages "ru" = some (Family.russian.rule "ru") := by
    rw [languages, hfamily, Option.map_some]
  have hequals : Equals (-21) (-21) := by decide +kernel
  obtain ⟨family, hsame, hwhole⟩ := languages_whole hrule
  obtain rfl := Option.some.inj (hfamily.symm.trans hsame)
  refine ⟨hrule, hequals, (hwhole .cardinal .one hequals).mpr ?_⟩
  rw [if_pos (by decide)]
  exact .inl ⟨by decide, by decide⟩

/-- `2 ^ 65` ends in 32, which the rule sets apart as `few`, but its float is `other`. -/
theorem exists_whole_other :
    ∃ rule family, languages "ru" = some rule ∧ Family.ofLanguage? "ru" = some family ∧
      Equals 36893488147419103232 36893488147419103232 ∧
      family.Takes .cardinal .few 36893488147419103232 ∧
      rule.category 36893488147419103232 .cardinal = .other := by
  have hfamily : Family.ofLanguage? "ru" = some .russian := by decide +kernel
  refine ⟨Family.russian.rule "ru", .russian, ?_, hfamily, ?_, ?_, ?_⟩
  · rw [languages, hfamily, Option.map_some]
  · decide +kernel
  · exact .inl ⟨by decide, by decide⟩
  · rw [Family.category_rule]
    decide +kernel

end MessageCatalog.Plural
