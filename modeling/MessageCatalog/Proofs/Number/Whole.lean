/-
Whole floats.

A float that is equal to an integer is cut off to it, is the float nearest to it and, below `2 ^ 53`
in magnitude, is written with its digits. Above that bound an integer may have no float of its own,
and the shortest decimal of a float may have other digits.

* `Equals`, `equals_iff_whole?`: a float is equal to an integer, which can be decided;
* `toInt64_of_equals`, `ofInt_beq_of_equals`: to an integer and back;
* `equals_of_ofInt_beq`: what is the same after it was cut off is whole;
* `numberText_of_equals`: the text of a whole number.
-/
import MessageCatalog.Number.Layout
import MessageCatalog.Proofs.Number.Comparison
import MessageCatalog.Proofs.Number.Integer
import MessageCatalog.Proofs.Number.Shortest

namespace MessageCatalog.Number

/-- A float is equal to an integer. -/
def Equals (x : Float) (n : Int) : Prop :=
  ∃ e, view x = .finite e ∧ e.signed = n * unit

lemma unit_pos : 0 < unit := Nat.two_pow_pos 1074

/-- A positive magnitude has a mantissa. -/
lemma Exact.mantissa_pos_of_units {e : Exact} {n : Nat} (hpos : 0 < n) (h : e.units = n * unit) :
    0 < e.mantissa := by
  refine Nat.pos_of_ne_zero fun hzero => ?_
  have hnone := Exact.units_eq_zero.mpr hzero
  have hsome := Nat.mul_pos hpos unit_pos
  omega

section Equals

variable {x : Float} {e : Exact} {n : Int}

/-- A magnitude that is equal to an integer, in steps. -/
lemma Exact.units_of_signed (h : e.signed = n * unit) : e.units = n.natAbs * unit := by
  rw [← e.natAbs_signed, h, Int.natAbs_mul, Int.natAbs_natCast]

/-- Zero of either sign has no mantissa. -/
lemma Exact.mantissa_of_signed (h : e.signed = (0 : Int) * unit) : e.mantissa = 0 :=
  Exact.units_eq_zero.mp (by rw [Exact.units_of_signed h, Int.natAbs_zero, Nat.zero_mul])

/-- A value has the sign of the integer that it is equal to, unless this is zero. -/
lemma Exact.negative_of_signed (h : e.signed = n * unit) (hn : n ≠ 0) :
    e.negative = decide (n < 0) := by
  have hunit : (0 : Int) < unit := by exact_mod_cast unit_pos
  have hunits := Exact.units_of_signed h
  have hpos : 0 < n.natAbs * unit := Nat.mul_pos (by omega) unit_pos
  rw [signed] at h
  cases hnegative : e.negative with
  | true =>
      rw [hnegative, if_pos rfl] at h
      have hneg : n < 0 := by
        by_contra hge
        have := Int.mul_nonneg (Int.not_lt.mp hge) hunit.le
        omega
      rw [decide_eq_true hneg]
  | false =>
      rw [hnegative, if_neg Bool.false_ne_true] at h
      have hnonneg : ¬n < 0 := by
        intro hlt
        have := Int.mul_neg_of_neg_of_pos hlt hunit
        omega
      rw [decide_eq_false hnonneg]

/-- A value whose steps make up whole numbers is equal to one. -/
lemma Exact.signed_of_dvd (h : unit ∣ e.units) :
    e.signed = (if e.negative then -((e.units / unit : Nat) : Int) else (e.units / unit : Nat)) *
      unit := by
  have hunits : ((e.units / unit : Nat) : Int) * unit = e.units := by
    exact_mod_cast Nat.div_mul_cancel h
  rw [Exact.signed]
  split
  · rw [Int.neg_mul, hunits]
  · rw [hunits]

lemma whole?_of_view (h : view x = .finite e) :
    whole? x = e.whole?.map fun m : Nat => if e.negative then -(m : Int) else m := by
  simp only [whole?, h]
  cases e.whole? <;> rfl

/-- Whether a float is equal to an integer can be decided. -/
theorem equals_iff_whole? : Equals x n ↔ whole? x = some n := by
  constructor
  · rintro ⟨e, hview, hsigned⟩
    have hunits := Exact.units_of_signed hsigned
    have hwhole : e.whole? = some n.natAbs := by
      rw [Exact.whole?, hunits, if_pos (Nat.mul_mod_left _ _), Nat.mul_div_cancel _ unit_pos]
    rw [whole?_of_view hview, hwhole, Option.map_some, Option.some_inj]
    -- Zero is an integer whichever sign it has.
    by_cases hzero : n = 0
    · subst hzero
      split <;> rfl
    · rw [Exact.negative_of_signed hsigned hzero]
      by_cases hneg : n < 0
      · rw [if_pos (decide_eq_true hneg), Int.ofNat_natAbs_of_nonpos hneg.le, neg_neg]
      · rw [if_neg fun h => hneg (of_decide_eq_true h), Int.natAbs_of_nonneg (Int.not_lt.mp hneg)]
  · intro h
    cases hview : view x with
    | finite e =>
      rw [whole?_of_view hview] at h
      obtain ⟨m, hm, rfl⟩ := Option.map_eq_some_iff.mp h
      rw [Exact.whole?] at hm
      split at hm
      · rename_i hdvd
        obtain rfl := Option.some.inj hm
        exact ⟨e, hview, Exact.signed_of_dvd (Nat.dvd_of_mod_eq_zero hdvd)⟩
      · cases hm
    | _ =>
      simp only [whole?, hview] at h
      cases h

instance (x : Float) (n : Int) : Decidable (Equals x n) :=
  decidable_of_iff (whole? x = some n) equals_iff_whole?.symm

/-! ### To an integer and back -/

/-- A whole float in the signed 64-bit range is cut off to itself. -/
theorem toInt64_of_equals (h : Equals x n) (hn : inInt64 n = true) : toInt64 x = n := by
  obtain ⟨e, hview, hsigned⟩ := h
  have hunits := Exact.units_of_signed hsigned
  have hwhole : e.units / unit = n.natAbs := by rw [hunits, Nat.mul_div_cancel _ unit_pos]
  simp only [inInt64, Bool.and_eq_true, decide_eq_true_eq] at hn
  simp only [toInt64, hview, hwhole]
  by_cases hzero : n = 0
  · subst hzero
    split <;> rfl
  · rw [Exact.negative_of_signed hsigned hzero]
    split
    · rename_i hneg
      have := of_decide_eq_true hneg
      omega
    · rename_i hnonneg
      have : ¬n < 0 := fun hlt => hnonneg (decide_eq_true hlt)
      omega

/-- Whatever is cut off is small enough for a float. -/
lemma isFinite_ofInt_toInt64 (x : Float) : isFinite (ofInt (toInt64 x)) = true := by
  have hle : (toInt64 x).natAbs ≤ 2 ^ 63 := by
    simp only [toInt64]
    split
    · decide
    · split <;> decide
    · rename_i e _
      generalize e.units / unit = n
      split <;> omega
  have hlt : 2 ^ 63 < 2 ^ 1023 := Nat.pow_lt_pow_right (by decide) (by decide)
  exact isFinite_nearest (by decide) (by rw [Nat.mul_one]; exact hle.trans_lt hlt)

/-- A ratio that a magnitude is equal to rounds to it. -/
lemma Exact.rounds_units {num : Nat} (hpos : 0 < e.mantissa) (h : e.units = num * unit) :
    e.Rounds ((num : ℚ) / (1 : Nat)) := by
  have hlow := e.interval_low_lt hpos
  have hhigh := e.lt_interval_high
  rw [Exact.Rounds, Interval.contains_ratio (by decide)]
  exact ⟨by omega, by omega, fun _ => ⟨by omega, by omega⟩⟩

/-- A value that is equal to an integer is that of its nearest float, but for the sign of zero. -/
lemma view_ofInt (he : e.Canonical) (h : e.signed = n * unit) (hsign : n = 0 → e.negative = false) :
    view (ofInt n) = .finite e := by
  have hunits := Exact.units_of_signed h
  have hnearest : ofInt n = ofExact e := by
    rw [ofInt]
    by_cases hzero : n = 0
    · subst hzero
      have hmantissa : e.mantissa = 0 := Exact.mantissa_of_signed h
      have hscale : e.scale = 0 := by
        by_contra hne
        have := he.leading (Nat.pos_of_ne_zero hne)
        omega
      rw [← nearest_zero hmantissa hscale, hsign rfl]
      rfl
    · have hpos := Exact.mantissa_pos_of_units (Int.natAbs_pos.mpr hzero) hunits
      rw [← Exact.negative_of_signed h hzero]
      exact nearest_of_rounds he hpos (by decide) (Exact.rounds_units hpos hunits)
  rw [hnearest, view_ofExact he]

/-- **A whole float is the one nearest to its integer.** -/
theorem ofInt_beq_of_equals (h : Equals x n) : (ofInt n == x) = true := by
  obtain ⟨e, hview, hsigned⟩ := h
  have he := (ofExact_of_view hview).1
  by_cases hzero : n = 0
  · -- Zero of either sign is equal to the one without a sign.
    subst hzero
    have hunits : e.units = 0 := Exact.units_eq_zero.mpr (Exact.mantissa_of_signed hsigned)
    have hpositive : Exact.signed ⟨false, e.mantissa, e.scale⟩ = (0 : Int) * unit := by
      rw [Exact.signed, if_neg Bool.false_ne_true, Int.zero_mul]
      exact_mod_cast hunits
    have hzero := view_ofInt (e := ⟨false, e.mantissa, e.scale⟩) ⟨he.1, he.2, he.3⟩ hpositive
      fun _ => rfl
    rw [beq_iff hzero hview, hpositive, hsigned]
  · rw [beq_iff (view_ofInt he hsigned fun hn => absurd hn hzero) hview]

end Equals

/-! ### Integers below `2 ^ 53` -/

/-- The value of an integer whose bits fit into a mantissa. -/
def exactOfInt (n : Int) : Exact where
  negative := decide (n < 0)
  mantissa := n.natAbs * 2 ^ (52 - n.natAbs.log2)
  scale := if n = 0 then 0 else 1022 + n.natAbs.log2

section Integers

variable {n : Int}

lemma exactOfInt_units (hn : n.natAbs < 2 ^ 53) : (exactOfInt n).units = n.natAbs * unit := by
  rw [Exact.units, exactOfInt]
  by_cases hzero : n = 0
  · rw [hzero, Int.natAbs_zero, Nat.zero_mul, Nat.zero_mul, Nat.zero_mul]
  · have hlog : n.natAbs.log2 < 53 := (Nat.log2_lt (Int.natAbs_ne_zero.mpr hzero)).mpr hn
    have hexponent : 52 - n.natAbs.log2 + (1022 + n.natAbs.log2) = 1074 := by omega
    simp only [if_neg hzero]
    rw [Nat.mul_assoc, ← pow_add, hexponent, unit]

lemma exactOfInt_signed (hn : n.natAbs < 2 ^ 53) : (exactOfInt n).signed = n * unit := by
  have hunits : ((exactOfInt n).units : Int) = n.natAbs * unit := by
    exact_mod_cast exactOfInt_units hn
  have hnegative : (exactOfInt n).negative = decide (n < 0) := rfl
  rw [Exact.signed, hunits, hnegative]
  by_cases hneg : n < 0
  · rw [if_pos (decide_eq_true hneg), ← Int.neg_mul, Int.ofNat_natAbs_of_nonpos hneg.le, neg_neg]
  · rw [if_neg (fun h => hneg (of_decide_eq_true h)), Int.natAbs_of_nonneg (Int.not_lt.mp hneg)]

lemma exactOfInt_canonical (hn : n.natAbs < 2 ^ 53) : (exactOfInt n).Canonical := by
  by_cases hzero : n = 0
  · subst hzero
    exact ⟨by decide, fun h => absurd h (by decide), by decide⟩
  · have hne : n.natAbs ≠ 0 := Int.natAbs_ne_zero.mpr hzero
    have hlog : n.natAbs.log2 < 53 := (Nat.log2_lt hne).mpr hn
    obtain ⟨hge, hlt⟩ := (Nat.log2_eq_iff hne).mp rfl
    have hsplit : n.natAbs.log2 + (52 - n.natAbs.log2) = 52 := by omega
    refine ⟨?_, fun _ => ?_, ?_⟩
    · calc n.natAbs * 2 ^ (52 - n.natAbs.log2)
          < 2 ^ (n.natAbs.log2 + 1) * 2 ^ (52 - n.natAbs.log2) :=
            Nat.mul_lt_mul_of_pos_right hlt (Nat.two_pow_pos _)
        _ = 2 ^ 53 := by rw [← pow_add]; congr 1; omega
    · calc 2 ^ 52 = 2 ^ n.natAbs.log2 * 2 ^ (52 - n.natAbs.log2) := by rw [← pow_add, hsplit]
        _ ≤ n.natAbs * 2 ^ (52 - n.natAbs.log2) := Nat.mul_le_mul_right _ hge
    · simp only [exactOfInt, if_neg hzero]
      omega

/-- **An integer below `2 ^ 53` in magnitude has a float.** -/
theorem equals_ofInt {n : Int} (hn : n.natAbs < 2 ^ 53) : Equals (ofInt n) n :=
  ⟨exactOfInt n, view_ofInt (exactOfInt_canonical hn) (exactOfInt_signed hn)
    (fun hzero => by rw [hzero]; rfl), exactOfInt_signed hn⟩

/-- A float that is not whole is below `2 ^ 52` in magnitude. -/
lemma Exact.div_unit_lt {e : Exact} (he : e.Canonical) (h : ¬unit ∣ e.units) :
    e.units / unit < 2 ^ 52 := by
  have hscale : e.scale < 1074 := by
    by_contra hge
    exact h (Dvd.dvd.mul_left (pow_dvd_pow 2 (Nat.not_lt.mp hge)) e.mantissa)
  rw [Nat.div_lt_iff_lt_mul unit_pos]
  calc e.units < 2 ^ 53 * 2 ^ e.scale :=
        Nat.mul_lt_mul_of_pos_right he.mantissa_lt (Nat.two_pow_pos _)
    _ ≤ 2 ^ 53 * 2 ^ 1073 := Nat.mul_le_mul_left _ (Nat.pow_le_pow_right Nat.two_pos (by omega))
    _ = 2 ^ 52 * unit := by rw [unit, ← pow_add, ← pow_add]

/-- **A float that is the same after it was cut off is whole**, if it is not beyond the ends at
which all is cut off. -/
theorem equals_of_ofInt_beq {x : Float} {e : Exact} (hview : view x = .finite e)
    (hrange : e.units < 2 ^ 63 * unit) (h : (ofInt (toInt64 x) == x) = true) :
    Equals x (toInt64 x) := by
  have he := (ofExact_of_view hview).1
  have hquotient : e.units / unit < 2 ^ 63 := (Nat.div_lt_iff_lt_mul unit_pos).mpr hrange
  have hcut : toInt64 x = if e.negative then -((e.units / unit : Nat) : Int)
      else ((e.units / unit : Nat) : Int) := by
    simp only [toInt64, hview]
    split <;> omega
  refine ⟨e, hview, ?_⟩
  by_cases hdvd : unit ∣ e.units
  · rw [hcut, Exact.signed_of_dvd hdvd]
  · -- What is left of it has a float, and is equal to it: so nothing was cut off.
    have hsmall : (toInt64 x).natAbs < 2 ^ 53 := by
      have hlt := Exact.div_unit_lt he hdvd
      rw [hcut]
      generalize e.units / unit = quotient at hlt ⊢
      split <;> omega
    obtain ⟨a, ha, hsigned⟩ := equals_ofInt hsmall
    rw [← (beq_iff ha hview).mp h, hsigned]

end Integers

/-! ### The text of a whole number -/

/-- A magnitude that is a positive integer below `2 ^ 53` has no steps above one. -/
lemma Exact.scale_le_of_units {e : Exact} (he : e.Canonical) {n : Nat}
    (hn : n < 2 ^ 53) (h : e.units = n * unit) : e.scale ≤ 1074 := by
  by_contra hlarge
  have hleading := he.leading (by omega)
  have hge : 2 ^ 52 * 2 ^ 1075 ≤ e.units :=
    Nat.mul_le_mul hleading (Nat.pow_le_pow_right Nat.two_pos (by omega))
  have hlt : n * unit < 2 ^ 53 * unit := Nat.mul_lt_mul_of_pos_right hn unit_pos
  have hsame : 2 ^ 53 * unit = 2 ^ 52 * 2 ^ 1075 := by rw [unit, ← pow_add, ← pow_add]
  omega

/-- The digits of a number times a power of ten. -/
lemma digits_mul_ten_pow {n : Nat} (hn : 0 < n) (k : Nat) :
    digits (n * 10 ^ k) = digits n ++ List.replicate k '0' := by
  induction k with
  | zero => rw [Nat.pow_zero, Nat.mul_one, List.replicate_zero, List.append_nil]
  | succ k ih =>
      have hpos : 0 < n * 10 ^ k := Nat.mul_pos hn (Nat.pow_pos (by decide))
      have hstep : n * 10 ^ (k + 1) = 10 * (n * 10 ^ k) + 0 := by ring
      have hlast : digits (n * 10 ^ (k + 1)) = digits (n * 10 ^ k) ++ ['0'] := by
        rw [hstep, digits, ← Nat.toDigits_append_toDigits (by decide) hpos (by decide)]
        rfl
      rw [hlast, ih, List.append_assoc, ← List.replicate_succ']

/-- The shortest decimal of a magnitude that is a positive integer below `2 ^ 53` is this integer,
as every other integer is too far off to round to it. -/
lemma shortest_of_units (tie : Tie) {e : Exact} (he : e.Canonical) {n : Nat} (hpos : 0 < n)
    (hn : n < 2 ^ 53) (h : e.units = n * unit) :
    0 ≤ (shortest tie e).exponent ∧
      (shortest tie e).coefficient * 10 ^ (shortest tie e).exponent.toNat = n := by
  have hmantissa := Exact.mantissa_pos_of_units hpos h
  -- The number itself is an integer in the interval, so that no digits behind the point are needed.
  have hgrid : ∃ point, gridPoint? tie e.interval 0 = some point := by
    refine exists_gridPoint?_of_dvd hmantissa ⟨n, ?_⟩
    show 4 * e.units * 10 ^ (-0 : Int).toNat = 4 * unit * 10 ^ (0 : Int).toNat * n
    rw [h, neg_zero, Int.toNat_zero]
    ring
  have hceiling : 0 ≤ ceiling e := by
    have hlog : 1074 ≤ e.units.log2 := by
      rw [Nat.le_log2 (by rw [h]; exact (Nat.mul_pos hpos unit_pos).ne'), h]
      exact Nat.le_mul_of_pos_left unit hpos
    rw [ceiling]
    omega
  obtain ⟨-, hrounds, hexponent⟩ := shortest_of_grid hgrid (by decide) hceiling
  refine ⟨hexponent, ?_⟩
  -- Floats of this size are at most one apart: the interval has room for no other integer.
  have hgap : 2 ^ e.scale ≤ unit :=
    Nat.pow_le_pow_right Nat.two_pos (Exact.scale_le_of_units he hn h)
  have hwhole : (-(shortest tie e).exponent).toNat = 0 := by omega
  rw [Exact.Rounds, Decimal.value, ← ratio_eq_zpow, hwhole, Nat.pow_zero,
    Interval.contains_ratio Nat.one_pos] at hrounds
  generalize (shortest tie e).coefficient * 10 ^ (shortest tie e).exponent.toNat = m at hrounds ⊢
  obtain ⟨hlow, hhigh, -⟩ := hrounds
  have hbelow : 4 * e.units ≤ e.interval.low + 2 * unit := by
    simp only [Exact.interval]
    split <;> omega
  have habove : e.interval.high ≤ 4 * e.units + 2 * unit := by
    simp only [Exact.interval]
    omega
  have hunit := unit_pos
  apply Nat.le_antisymm
  · by_contra hgt
    have := Nat.mul_le_mul_right unit (Nat.not_le.mp hgt)
    rw [Nat.succ_mul] at this
    omega
  · by_contra hlt
    have := Nat.mul_le_mul_right unit (Nat.not_le.mp hlt)
    rw [Nat.succ_mul] at this
    omega

/-- So it is written with the digits of the integer. -/
lemma magnitude_of_units {e : Exact} (he : e.Canonical) {n : Nat} (hpos : 0 < n) (hn : n < 2 ^ 53)
    (h : e.units = n * unit) : Layout.plain.magnitude e = digits n := by
  have hmantissa : e.mantissa ≠ 0 := (Exact.mantissa_pos_of_units hpos h).ne'
  obtain ⟨hexponent, hvalue⟩ := shortest_of_units .away he hpos hn h
  have hcoefficient : 0 < (shortest .away e).coefficient := by
    refine Nat.pos_of_ne_zero fun hnone => ?_
    rw [hnone, Nat.zero_mul] at hvalue
    omega
  have htext : Layout.plain.magnitude e =
      positionalText (digits (shortest .away e).coefficient) (shortest .away e).exponent := by
    simp only [Layout.magnitude, if_neg hmantissa, Layout.plain, if_true, Bool.false_and,
      if_neg Bool.false_ne_true, List.append_nil]
  rw [htext, positionalText, if_pos hexponent, ← digits_mul_ten_pow hcoefficient, hvalue]

/-- **A whole float below `2 ^ 53` in magnitude is written like its integer.** -/
theorem numberText_of_equals {x : Float} {n : Int} (h : Equals x n) (hn : n.natAbs < 2 ^ 53) :
    numberText x = toString n := by
  obtain ⟨e, hview, hsigned⟩ := h
  have he := (ofExact_of_view hview).1
  have hunits := Exact.units_of_signed hsigned
  by_cases hzero : n = 0
  · -- Zero of either sign is written without one.
    subst hzero
    have hmantissa : e.mantissa = 0 := Exact.mantissa_of_signed hsigned
    have hisZero : isZero x = true := by
      simp only [isZero, hview, hmantissa, beq_self_eq_true]
    rw [numberText, if_pos hisZero]
    rfl
  · have hpos : 0 < n.natAbs := Int.natAbs_pos.mpr hzero
    have hisZero : isZero x = false := by
      rw [isZero, hview]
      exact beq_false_of_ne (Exact.mantissa_pos_of_units hpos hunits).ne'
    have htext : Layout.plain.text x = intText n := by
      simp only [Layout.text, hview, magnitude_of_units he hpos hn hunits,
        Exact.negative_of_signed hsigned hzero, intText]
      by_cases hneg : n < 0
      · rw [if_pos hneg, if_pos (decide_eq_true hneg)]
        rfl
      · rw [if_neg hneg, if_neg fun h => hneg (of_decide_eq_true h)]
        rfl
    rw [numberText, hisZero, if_neg Bool.false_ne_true, htext, ofList_intText]

end MessageCatalog.Number
