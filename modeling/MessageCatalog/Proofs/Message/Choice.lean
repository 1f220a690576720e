/-
Choices by their keys.

Where no key occurs twice, a case is found under its key wherever it stands. A number is looked up
as an exact key first: it picks the case of the integer that it is equal to, if the integer is not
too large to be looked up, and otherwise the case of its category, or the one for all others.

* `caseOf?_eq_some_iff`, `caseOf?_eq_none_iff`: looking up among distinct keys;
* `caseOf?_perm`: the order of the cases does not matter;
* `choosePlural_of_caseOf?`, `chooseSelect_of_caseOf?`: a choice depends only on what is found;
* `exactKey?_eq_some_iff`: the number that is looked up as an exact key;
* `choosePlural_exact`: which case of a plural is picked;
* `choosePlural_largeKey`: a key that no number picks.
-/
import MessageCatalog.Plural.Language
import MessageCatalog.Proofs.Message.Answers
import MessageCatalog.Proofs.Number.Whole

namespace MessageCatalog

open Number (Equals)
open Plural (Key Kind Rule)

/-! ### Distinct keys -/

section Keys

variable {κ α : Type} [BEq κ] [LawfulBEq κ] {key : κ} {cases : List (κ × α)} {a : α}

omit [LawfulBEq κ] in
lemma caseOf?_cons (case : κ × α) (cases : List (κ × α)) :
    caseOf? key (case :: cases) = if case.1 == key then some case.2 else caseOf? key cases := by
  rw [caseOf?, List.find?_cons]
  cases case.1 == key <;> rfl

lemma caseOf?_eq_none_iff : caseOf? key cases = none ↔ key ∉ cases.map (·.1) := by
  rw [caseOf?, Option.map_eq_none_iff, List.find?_eq_none]
  constructor
  · rintro h hmem
    obtain ⟨c, hc, rfl⟩ := List.mem_map.mp hmem
    exact h c hc (beq_self_eq_true c.1)
  · intro h c hc hkey
    exact h (List.mem_map.mpr ⟨c, hc, eq_of_beq hkey⟩)

/-- Where no key occurs twice, the case under a key is the one that has it. -/
lemma caseOf?_eq_some_iff (hkeys : (cases.map (·.1)).Nodup) :
    caseOf? key cases = some a ↔ (key, a) ∈ cases := by
  constructor
  · intro h
    obtain ⟨c, hc, rfl⟩ := Option.map_eq_some_iff.mp h
    have hkey := List.find?_some hc
    exact eq_of_beq hkey ▸ List.mem_of_find?_eq_some hc
  · intro h
    cases hfound : caseOf? key cases with
    | none => exact absurd (List.mem_map_of_mem h) (caseOf?_eq_none_iff.mp hfound)
    | some b =>
        obtain ⟨c, hc, rfl⟩ := Option.map_eq_some_iff.mp hfound
        have hkey := List.find?_some hc
        rw [List.inj_on_of_nodup_map hkeys (List.mem_of_find?_eq_some hc) h (eq_of_beq hkey)]

/-- Where no key occurs twice, the order of the cases does not matter. -/
lemma caseOf?_perm {others : List (κ × α)} (hkeys : (cases.map (·.1)).Nodup)
    (h : cases.Perm others) : caseOf? key cases = caseOf? key others := by
  have hothers : (others.map (·.1)).Nodup := (h.map _).nodup_iff.mp hkeys
  cases hfound : caseOf? key others with
  | some a => exact (caseOf?_eq_some_iff hkeys).mpr (h.mem_iff.mpr
      ((caseOf?_eq_some_iff hothers).mp hfound))
  | none =>
      rw [caseOf?_eq_none_iff] at hfound ⊢
      exact fun hmem => hfound ((h.map _).mem_iff.mp hmem)

end Keys

/-! ### Choices that find the same cases -/

section Same

variable {α : Type}

/-- Which case of a plural is picked depends only on the cases that are found. -/
lemma choosePlural_of_caseOf? {cases others : List (Key × α)}
    (h : ∀ key, caseOf? key cases = caseOf? key others) (value : Value) (kind : Kind)
    (offset : Float) (rule : Rule) :
    choosePlural value kind offset rule cases = choosePlural value kind offset rule others := by
  simp only [choosePlural, choosePluralByNumber, h]

/-- Which case of a select is picked depends only on the cases that are found. -/
lemma chooseSelect_of_caseOf? {cases others : List (String × α)}
    (h : ∀ key, caseOf? key cases = caseOf? key others) (value : Value) :
    chooseSelect value cases = chooseSelect value others := by
  simp only [chooseSelect, h]

end Same

/-! ### Exact keys -/

/-- The integer from which on, in magnitude, none is looked up. -/
def exactKeyBound : Nat := 9200000000000000000

lemma exactKeyLimit_equals : Equals exactKeyLimit exactKeyBound := by
  decide +kernel

/-- A finite float is below the limit for exact keys if its magnitude is. -/
lemma exactKeyLimit_le_iff {x : Float} {e : Number.Exact} (hview : Number.view x = .finite e) :
    exactKeyLimit ≤ x.abs ↔ exactKeyBound * Number.unit ≤ e.units := by
  obtain ⟨limit, hlimit, hsigned⟩ := exactKeyLimit_equals
  have hmagnitude : Number.Exact.signed { e with negative := false } = e.units := by
    rw [Number.Exact.signed, if_neg Bool.false_ne_true]
    rfl
  rw [Number.le_iff hlimit (Number.view_abs hview), hsigned, hmagnitude]
  exact_mod_cast Iff.rfl

lemma exactKeyLimit_le_of_equals {x : Float} {n : Int} (h : Equals x n) :
    exactKeyLimit ≤ x.abs ↔ exactKeyBound ≤ n.natAbs := by
  obtain ⟨e, hview, hsigned⟩ := h
  rw [exactKeyLimit_le_iff hview, Number.Exact.units_of_signed hsigned]
  exact Nat.mul_le_mul_right_iff Number.unit_pos

/-- **The exact key of a float is the integer that it is equal to**, if this is below the bound. -/
theorem exactKey?_eq_some_iff {x : Float} {n : Int} :
    exactKey? x = some n ↔ Equals x n ∧ n.natAbs < exactKeyBound := by
  constructor
  · intro h
    rw [exactKey?] at h
    split at h
    · cases h
    · rename_i hin
      rw [Bool.or_eq_true, decide_eq_true_eq, not_or] at hin
      simp only at h
      split at h
      · rename_i hback
        obtain rfl := Option.some.inj h
        -- The cast is not known to be exact before the way back has been compared: that there is a
        -- way back makes the number an integer.
        obtain ⟨a, -, ha, -⟩ := Number.exists_exact_of_isFinite (Number.isFinite_ofInt_toInt64 x)
        obtain ⟨e, hview⟩ := Number.exists_view_of_beq ha hback
        have hunits : e.units < exactKeyBound * Number.unit :=
          Nat.not_le.mp fun hle => hin.2 ((exactKeyLimit_le_iff hview).mpr hle)
        have hrange : exactKeyBound * Number.unit ≤ 2 ^ 63 * Number.unit :=
          Nat.mul_le_mul_right _ (by decide)
        have hequals := Number.equals_of_ofInt_beq hview (hunits.trans_le hrange) hback
        exact ⟨hequals, Nat.not_le.mp (mt (exactKeyLimit_le_of_equals hequals).mpr hin.2)⟩
      · cases h
  · rintro ⟨hequals, hn⟩
    have ⟨e, hview, _⟩ := hequals
    -- Below the limit the cast is in range, and the integer that it gives is the number.
    have hlimit : ¬exactKeyLimit ≤ x.abs := by
      rw [exactKeyLimit_le_of_equals hequals]
      exact Nat.not_le.mpr hn
    have hrange : Number.inInt64 n = true := by
      have hbound : exactKeyBound < 2 ^ 63 := by decide
      simp only [Number.inInt64, Bool.and_eq_true, decide_eq_true_eq]
      omega
    simp only [exactKey?, Number.isNaN_of_view hview, hlimit]
    rw [Number.toInt64_of_equals hequals hrange, if_pos (Number.ofInt_beq_of_equals hequals)]
    rfl

/-! ### The case of a plural -/

section Plural

variable {α : Type} {cases : List (Key × α)} {a : α} {x : Float} {kind : Kind} {rule : Rule}

/-- A number that is equal to an exact key picks its case, whatever its category. -/
lemma choosePluralByNumber_of_exact (hkeys : (cases.map (·.1)).Nodup) {n : Int}
    (hcase : (.exact n, a) ∈ cases) (hx : Equals x n) (hn : n.natAbs < exactKeyBound) :
    choosePluralByNumber x kind rule cases = some a := by
  rw [choosePluralByNumber, exactKey?_eq_some_iff.mpr ⟨hx, hn⟩, Option.bind_some,
    (caseOf?_eq_some_iff hkeys).mpr hcase]

/-- A number that is equal to no exact key, or only to one that is too large, picks the case of its
category, or the one for all others. -/
lemma choosePluralByNumber_of_label (hkeys : (cases.map (·.1)).Nodup)
    (hother : .label "other" ∈ cases.map (·.1))
    (hx : ∀ n, .exact n ∈ cases.map (·.1) → Equals x n → exactKeyBound ≤ n.natAbs) :
    ∃ label a, choosePluralByNumber x kind rule cases = some a ∧ (.label label, a) ∈ cases ∧
      (label = (rule.category x kind).label ∨
        label = "other" ∧ .label (rule.category x kind).label ∉ cases.map (·.1)) := by
  have hexact : ((exactKey? x).bind fun n => caseOf? (.exact n) cases) = none := by
    cases hkey : exactKey? x with
    | none => rfl
    | some n =>
        obtain ⟨hequals, hn⟩ := exactKey?_eq_some_iff.mp hkey
        rw [Option.bind_some, caseOf?_eq_none_iff]
        intro hmem
        exact Nat.not_le.mpr hn (hx n hmem hequals)
  rw [choosePluralByNumber, hexact]
  cases hlabel : caseOf? (.label (rule.category x kind).label) cases with
  | some a => exact ⟨_, a, rfl, (caseOf?_eq_some_iff hkeys).mp hlabel, .inl rfl⟩
  | none =>
      obtain ⟨⟨_, a⟩, hmem, rfl⟩ := List.mem_map.mp hother
      exact ⟨"other", a, (caseOf?_eq_some_iff hkeys).mpr hmem, hmem,
        .inr ⟨rfl, caseOf?_eq_none_iff.mp hlabel⟩⟩

/-- **An exact key below the bound is matched exactly.** A number that is equal to it, less the
offset, picks its case whatever its category. Any other number picks the case of its category, or
the one for all others if there is none. -/
theorem choosePlural_exact {value : Value} {raw : Float} (kind : Kind) (offset : Float)
    (rule : Rule) (hkeys : (cases.map (·.1)).Nodup) (hother : .label "other" ∈ cases.map (·.1))
    (hvalue : value.number? = some raw) :
    (∀ n a, (.exact n, a) ∈ cases → Equals (raw - offset) n → n.natAbs < exactKeyBound →
      choosePlural value kind offset rule cases = some a) ∧
    ((∀ n, .exact n ∈ cases.map (·.1) → Equals (raw - offset) n → exactKeyBound ≤ n.natAbs) →
      ∃ label a, choosePlural value kind offset rule cases = some a ∧ (.label label, a) ∈ cases ∧
        (label = (rule.category (raw - offset) kind).label ∨
          label = "other" ∧
            .label (rule.category (raw - offset) kind).label ∉ cases.map (·.1))) := by
  simp only [choosePlural, hvalue]
  exact ⟨fun n a hcase hx hn => choosePluralByNumber_of_exact hkeys hcase hx hn,
    fun hx => choosePluralByNumber_of_label hkeys hother hx⟩

end Plural

/-- A key is picked for a text that stands for a number one above it, before the category of the
number. A number that is only close to the key picks its category. -/
theorem choosePlural_exact_english :
    let rule := Plural.Family.english.rule "en"
    let cases := [(Key.label "one", "one"), (.exact 1, "exactly one"), (.label "other", "other")]
    (cases.map (·.1)).Nodup ∧ .label "other" ∈ cases.map (·.1) ∧
      (Value.text " 2.0 ").number? = some 2 ∧
      choosePlural (.text " 2.0 ") .cardinal 1 rule cases = some "exactly one" ∧
      (Value.num 2.0000000000000004).number? = some 2.0000000000000004 ∧
      choosePlural (.num 2.0000000000000004) .cardinal 1 rule cases = some "other" := by
  intro rule cases
  have hkeys : (cases.map (·.1)).Nodup := by decide
  have hother : .label "other" ∈ cases.map (·.1) := by decide
  have htext : (Value.text " 2.0 ").number? = some 2 := by decide +kernel
  have hnear : (Value.num 2.0000000000000004).number? = some 2.0000000000000004 := by
    decide +kernel
  have hexact := (choosePlural_exact .cardinal 1 rule hkeys hother htext).1 1 "exactly one"
    (by decide) (by decide +kernel) (by decide)
  have hcategory : (rule.category (2.0000000000000004 - 1) .cardinal).label = "other" := by
    decide +kernel
  obtain ⟨label, a, ha, hmem, hlabel⟩ :=
    (choosePlural_exact .cardinal 1 rule hkeys hother hnear).2 (by
      intro n hn hequals
      obtain rfl : n = 1 := by simpa [cases] using hn
      exact absurd hequals (by decide +kernel))
  rw [hcategory] at hlabel
  obtain rfl : label = "other" := hlabel.elim id And.left
  obtain rfl : a = "other" := by simpa [cases] using hmem
  exact ⟨hkeys, hother, htext, hexact, hnear, ha⟩

/-- A key from the bound on is picked by no number: `9200000000000000000` is equal to the key, and
picks the case for all others. -/
theorem choosePlural_largeKey :
    let rule := Plural.Family.english.rule "en"
    let cases := [(Key.exact 9200000000000000000, "exact"), (.label "other", "other")]
    Number.inInt64 9200000000000000000 = true ∧
      (Value.num 9200000000000000000).number? = some 9200000000000000000 ∧
      Equals (9200000000000000000 - 0) 9200000000000000000 ∧
      choosePlural (.num 9200000000000000000) .cardinal 0 rule cases = some "other" := by
  decide +kernel

end MessageCatalog
