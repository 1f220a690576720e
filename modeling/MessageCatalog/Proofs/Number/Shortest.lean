/-
The shortest decimal of a float rounds to it.

* `Decimal.value`: the magnitude that a decimal stands for;
* `contains_of_gridPoint?`: whatever a grid gives for a value lies in the interval of the value;
* `exists_gridPoint?`: the finest grid has the value itself;
* `shortest_of_grid`, `shortest_rounds`: so the search ends, with a decimal that rounds to the
  float.
-/
import MessageCatalog.Proofs.Number.Nearest

namespace MessageCatalog.Number

/-! ### Decimals as ratios -/

/-- The magnitude that a decimal stands for. -/
def Decimal.value (d : Decimal) : ℚ :=
  d.coefficient * 10 ^ d.exponent

/-- A power of ten is a ratio of natural numbers, one of which is one. -/
lemma ratio_eq_zpow (coefficient : Nat) (exponent : Int) :
    ((coefficient * 10 ^ exponent.toNat : Nat) : ℚ) / ((10 ^ (-exponent).toNat : Nat) : ℚ) =
      coefficient * 10 ^ exponent := by
  obtain ⟨n, rfl | rfl⟩ := exponent.eq_nat_or_neg
  · simp
  · rw [neg_neg, Int.toNat_natCast, zpow_neg, zpow_natCast, div_eq_mul_inv]
    have hzero : (-(n : Int)).toNat = 0 := by omega
    rw [hzero]
    push_cast
    ring

lemma pow_toNat_pos (exponent : Int) : 0 < 10 ^ (-exponent).toNat :=
  Nat.pow_pos (by decide)

/-! ### Grids -/

variable {tie : Tie} {i : Interval} {exponent : Int} {point : Nat}

/-- A point of a grid is in an interval if the decimal that it spells is. -/
lemma contains_of_holds
    (h : i.holds (10 ^ (-exponent).toNat) (point * (4 * unit * 10 ^ exponent.toNat)) = true) :
    i.Contains (4 * unit * (point * 10 ^ exponent)) := by
  have hstep : point * (4 * unit * 10 ^ exponent.toNat) =
      4 * (point * 10 ^ exponent.toNat * unit) := by
    ring
  rw [← ratio_eq_zpow, Interval.contains_ratio (pow_toNat_pos exponent)]
  rw [hstep, Interval.holds] at h
  split at h
  · rename_i hclosed
    simp only [Bool.and_eq_true, decide_eq_true_eq] at h
    refine ⟨h.1, h.2, fun hopen => ?_⟩
    rw [hclosed] at hopen
    cases hopen
  · simp only [Bool.and_eq_true, decide_eq_true_eq] at h
    exact ⟨h.1.le, h.2.le, fun _ => ⟨h.1.ne', h.2.ne⟩⟩

/-- A grid gives one of the two points next to the value, and only one that is in the interval. -/
lemma contains_of_gridPoint? (h : gridPoint? tie i exponent = some point) :
    i.Contains (4 * unit * (point * 10 ^ exponent)) := by
  apply contains_of_holds
  simp only [gridPoint?] at h
  split at h
  · rename_i hlower hupper
    split at h
    · exact Option.some.inj h ▸ hlower
    · split at h
      · exact Option.some.inj h ▸ hupper
      · cases tie with
        | away => exact Option.some.inj h ▸ hupper
        | toEven =>
            have hpoint := Option.some.inj h
            split at hpoint
            · exact hpoint ▸ hlower
            · exact hpoint ▸ hupper
  · rename_i hlower _
    exact Option.some.inj h ▸ hlower
  · rename_i _ hupper
    exact Option.some.inj h ▸ hupper
  · cases h

/-- A value lies strictly between the ends of its interval. -/
lemma Exact.interval_low_lt {e : Exact} (hpos : 0 < e.mantissa) : e.interval.low < 4 * e.units := by
  have hgap : 0 < 2 ^ e.scale := Nat.two_pow_pos e.scale
  have hunits : 0 < e.units := Nat.mul_pos hpos hgap
  simp only [Exact.interval]
  split <;> omega

lemma Exact.lt_interval_high (e : Exact) : 4 * e.units < e.interval.high := by
  have hgap : 0 < 2 ^ e.scale := Nat.two_pow_pos e.scale
  simp only [Exact.interval]
  omega

/-- A value is inside its interval. -/
lemma Exact.interval_holds {e : Exact} (hpos : 0 < e.mantissa) {factor : Nat}
    (hfactor : 0 < factor) : e.interval.holds factor (e.interval.value * factor) = true := by
  have hlow : e.interval.low < e.interval.value := e.interval_low_lt hpos
  have hhigh : e.interval.value < e.interval.high := e.lt_interval_high
  have hlow' := Nat.mul_lt_mul_of_pos_right hlow hfactor
  have hhigh' := Nat.mul_lt_mul_of_pos_right hhigh hfactor
  rw [Interval.holds]
  split
  · simp only [Bool.and_eq_true, decide_eq_true_eq]
    exact ⟨hlow'.le, hhigh'.le⟩
  · simp only [Bool.and_eq_true, decide_eq_true_eq]
    exact ⟨hlow', hhigh'⟩

/-- The value is found if the grid has it. -/
lemma exists_gridPoint?_of_dvd {e : Exact} (hpos : 0 < e.mantissa)
    (hdvd : 4 * unit * 10 ^ exponent.toNat ∣ e.interval.value * 10 ^ (-exponent).toNat) :
    ∃ point, gridPoint? tie e.interval exponent = some point := by
  have hlower : e.interval.holds (10 ^ (-exponent).toNat)
      (e.interval.value * 10 ^ (-exponent).toNat / (4 * unit * 10 ^ exponent.toNat) *
        (4 * unit * 10 ^ exponent.toNat)) = true := by
    rw [Nat.div_mul_cancel hdvd]
    exact Exact.interval_holds hpos (pow_toNat_pos exponent)
  simp only [gridPoint?, hlower]
  cases e.interval.holds (10 ^ (-exponent).toNat) ((e.interval.value * 10 ^ (-exponent).toNat /
    (4 * unit * 10 ^ exponent.toNat) + 1) * (4 * unit * 10 ^ exponent.toNat)) with
  | false => exact ⟨_, rfl⟩
  | true =>
      simp only
      split
      · exact ⟨_, rfl⟩
      · split
        · exact ⟨_, rfl⟩
        · cases tie <;> exact ⟨_, rfl⟩

lemma mul_ten_pow (units n : Nat) : 4 * units * 10 ^ n = 4 * 2 ^ n * (units * 5 ^ n) := by
  rw [show (10 : Nat) = 2 * 5 by rfl, Nat.mul_pow]
  ring

/-- The finest grid has every value, as a power of two divides the same power of ten. -/
lemma exists_gridPoint? (tie : Tie) {e : Exact} (hpos : 0 < e.mantissa) :
    ∃ point, gridPoint? tie e.interval (-1074) = some point := by
  apply exists_gridPoint?_of_dvd hpos
  have hstep : 4 * unit * 10 ^ (-1074 : Int).toNat = 4 * 2 ^ 1074 := by
    rw [show (-1074 : Int).toNat = 0 by rfl, Nat.pow_zero, Nat.mul_one, unit]
  rw [hstep]
  exact ⟨e.units * 5 ^ 1074, mul_ten_pow e.units 1074⟩

/-! ### The search -/

lemma gridPoint?_of_search {grids : Nat} {found : Int}
    (h : search tie i grids exponent = some (point, found)) :
    gridPoint? tie i found = some point := by
  induction grids generalizing exponent with
  | zero => cases h
  | succ grids ih =>
      rw [search] at h
      split at h
      · rename_i hpoint
        obtain ⟨rfl, rfl⟩ := Prod.mk.inj (Option.some.inj h)
        exact hpoint
      · exact ih h

/-- The search finds a point if it comes to a grid with one, on this grid or on a coarser one. -/
lemma exists_search (grids : Nat) {last : Int} (hlast : ∃ point, gridPoint? tie i last = some point)
    (hle : last ≤ exponent) (hlt : exponent < last + grids) :
    ∃ point found, search tie i grids exponent = some (point, found) ∧ last ≤ found := by
  induction grids generalizing exponent with
  | zero => omega
  | succ grids ih =>
      rw [search]
      cases hpoint : gridPoint? tie i exponent with
      | some point => exact ⟨point, exponent, rfl, hle⟩
      | none =>
          have hne : exponent ≠ last := by
            rintro rfl
            rw [hpoint] at hlast
            obtain ⟨point, hsome⟩ := hlast
            cases hsome
          exact ih (by omega) (by push_cast at hlt; omega)

/-- The shortest decimal of a float rounds to it, and is no finer than a grid that has a point for
the float. -/
lemma shortest_of_grid {e : Exact} {last : Int}
    (hlast : ∃ point, gridPoint? tie e.interval last = some point) (hlow : -1074 ≤ last)
    (hhigh : last ≤ ceiling e) :
    (shortest tie e).negative = e.negative ∧ e.Rounds (shortest tie e).value ∧
      last ≤ (shortest tie e).exponent := by
  obtain ⟨point, found, hfound, hle⟩ := exists_search (ceiling e + 1075).toNat hlast hhigh
    (by omega)
  have hshortest : shortest tie e = ⟨e.negative, point, found⟩ := by
    simp only [shortest, hfound]
  rw [hshortest]
  exact ⟨rfl, contains_of_gridPoint? (gridPoint?_of_search hfound), hle⟩

/-- **The shortest decimal of a float rounds to it.** -/
theorem shortest_rounds (tie : Tie) {e : Exact} (hpos : 0 < e.mantissa) :
    (shortest tie e).negative = e.negative ∧ e.Rounds (shortest tie e).value := by
  have hceiling : -1074 ≤ ceiling e := by
    rw [ceiling]
    omega
  obtain ⟨hnegative, hrounds, -⟩ := shortest_of_grid (exists_gridPoint? tie hpos) le_rfl hceiling
  exact ⟨hnegative, hrounds⟩

/-! ### Reading decimals -/

/-- The interval of a magnitude starts above zero, and its end is not too large. -/
lemma Exact.interval_bounds {e : Exact} (he : e.Canonical) (hpos : 0 < e.mantissa) :
    0 < e.interval.low ∧ e.interval.high < 2 ^ 2101 := by
  have hgap : 0 < 2 ^ e.scale := Nat.two_pow_pos e.scale
  have hunits : 2 ^ e.scale ≤ e.units := Nat.le_mul_of_pos_left _ hpos
  have hscale : 2 ^ e.scale ≤ 2 ^ 2045 := Nat.pow_le_pow_right (by decide) he.scale_le
  have hmantissa := he.mantissa_lt
  constructor
  · simp only [Exact.interval]
    split <;> omega
  · simp only [Exact.interval, Exact.units]
    calc 4 * (e.mantissa * 2 ^ e.scale) + 2 * 2 ^ e.scale
        = (4 * e.mantissa + 2) * 2 ^ e.scale := by ring
      _ < 2 ^ 56 * 2 ^ e.scale := Nat.mul_lt_mul_of_pos_right (by omega) hgap
      _ ≤ 2 ^ 56 * 2 ^ 2045 := Nat.mul_le_mul_left _ hscale
      _ = 2 ^ 2101 := by rw [← pow_add]

lemma two_pow_le_ten_pow (n : Nat) : 2 ^ (3 * n) ≤ 10 ^ n := by
  rw [Nat.pow_mul]
  exact Nat.pow_le_pow_left (by decide) n

/-- A decimal that rounds to a float is within the range of powers of ten that are computed. -/
lemma Decimal.exponent_bounds {e : Exact} (he : e.Canonical) (hpos : 0 < e.mantissa) {d : Decimal}
    (h : e.Rounds d.value) : d.coefficient ≠ 0 ∧ d.exponent ≤ 400 ∧
      -(400 + (d.coefficient.log2 : Int)) ≤ d.exponent := by
  obtain ⟨hlow, hhigh⟩ := e.interval_bounds he hpos
  rw [Exact.Rounds, Decimal.value, ← ratio_eq_zpow,
    Interval.contains_ratio (pow_toNat_pos d.exponent)] at h
  obtain ⟨hge, hle, _⟩ := h
  have hden := pow_toNat_pos d.exponent
  have hne : d.coefficient ≠ 0 := by
    intro hzero
    have := Nat.mul_pos hlow hden
    rw [hzero, Nat.zero_mul, Nat.zero_mul] at hge
    omega
  refine ⟨hne, ?_, ?_⟩
  -- A power of ten is at least that power of eight, and so this one is beyond all floats.
  · by_contra hlarge
    have hzero : (-d.exponent).toNat = 0 := by omega
    rw [hzero, Nat.pow_zero, Nat.mul_one] at hle
    have hpow : 2 ^ (3 * d.exponent.toNat) ≤ d.coefficient * 10 ^ d.exponent.toNat :=
      (two_pow_le_ten_pow _).trans (Nat.le_mul_of_pos_left _ (Nat.pos_of_ne_zero hne))
    have hbig : 2 ^ 2101 ≤ 2 ^ (3 * d.exponent.toNat) * unit := by
      rw [unit, ← pow_add]
      exact Nat.pow_le_pow_right (by decide) (by omega)
    have hmul := Nat.mul_le_mul_right unit hpow
    omega
  -- Likewise the decimal would be closer to zero than any float but zero.
  · by_contra hsmall
    have hzero : d.exponent.toNat = 0 := by omega
    rw [hzero, Nat.pow_zero, Nat.mul_one] at hge
    have hpow := two_pow_le_ten_pow (-d.exponent).toNat
    have hmul := Nat.le_mul_of_pos_left (10 ^ (-d.exponent).toNat) hlow
    have hcoefficient : d.coefficient * unit < 2 ^ (d.coefficient.log2 + 1) * 2 ^ 1074 :=
      Nat.mul_lt_mul_of_pos_right Nat.lt_log2_self (Nat.two_pow_pos 1074)
    have hbig : 4 * (2 ^ (d.coefficient.log2 + 1) * 2 ^ 1074) ≤ 2 ^ (3 * (-d.exponent).toNat) := by
      rw [← pow_add, show (4 : Nat) = 2 ^ 2 by rfl, ← pow_add]
      exact Nat.pow_le_pow_right (by decide) (by omega)
    omega

/-- **A decimal that rounds to a float is read as this float.** -/
theorem Decimal.toFloat_of_rounds {e : Exact} (he : e.Canonical) (hpos : 0 < e.mantissa)
    {d : Decimal} (hsign : d.negative = e.negative) (h : e.Rounds d.value) :
    d.toFloat = ofExact e := by
  obtain ⟨hne, hlarge, hsmall⟩ := Decimal.exponent_bounds he hpos h
  rw [Decimal.value, ← ratio_eq_zpow] at h
  rw [Decimal.toFloat, if_neg hne, if_neg (by omega), if_neg (by omega), hsign]
  split
  · rename_i hnonneg
    have hzero : (-d.exponent).toNat = 0 := by omega
    rw [hzero, Nat.pow_zero] at h
    exact nearest_of_rounds he hpos (by decide) h
  · rename_i hneg
    have hzero : d.exponent.toNat = 0 := by omega
    rw [hzero, Nat.pow_zero, Nat.mul_one] at h
    exact nearest_of_rounds he hpos (pow_toNat_pos d.exponent) h

/-- A decimal that is not too large is read as a finite float. -/
theorem Decimal.isFinite_toFloat {d : Decimal} {n : Nat} (hn : n ≤ 2 ^ 1023) (h : d.value < n) :
    isFinite d.toFloat = true := by
  have hzero : isFinite (nearest d.negative 0 1) = true :=
    isFinite_nearest (by decide) (Nat.mul_pos (Nat.two_pow_pos 1023) (by decide))
  have hden := pow_toNat_pos d.exponent
  rw [Decimal.value, ← ratio_eq_zpow, div_lt_iff₀ (by exact_mod_cast hden)] at h
  have hratio : d.coefficient * 10 ^ d.exponent.toNat < n * 10 ^ (-d.exponent).toNat := by
    exact_mod_cast h
  -- The bound is kept as a name, as the power itself is too large to be looked into.
  obtain ⟨bound, hdef⟩ : ∃ bound, 2 ^ 1023 = bound := ⟨_, rfl⟩
  have hbound : d.coefficient * 10 ^ d.exponent.toNat < bound * 10 ^ (-d.exponent).toNat :=
    hratio.trans_le (Nat.mul_le_mul_right _ (hdef ▸ hn))
  rw [Decimal.toFloat]
  split
  · exact hzero
  · rename_i hne
    split
    · rename_i hlarge
      have hexponent : (-d.exponent).toNat = 0 := by omega
      rw [hexponent, Nat.pow_zero, Nat.mul_one] at hbound
      have hpow : 2 ^ (3 * d.exponent.toNat) ≤ d.coefficient * 10 ^ d.exponent.toNat :=
        (two_pow_le_ten_pow _).trans (Nat.le_mul_of_pos_left _ (Nat.pos_of_ne_zero hne))
      have hbig : bound ≤ 2 ^ (3 * d.exponent.toNat) :=
        hdef ▸ Nat.pow_le_pow_right Nat.two_pos (by omega)
      exact absurd hbound (Nat.not_lt.mpr (hbig.trans hpow))
    · split
      · exact hzero
      · split
        · rename_i hnonneg
          have hexponent : (-d.exponent).toNat = 0 := by omega
          rw [hexponent, Nat.pow_zero] at hbound
          exact isFinite_nearest (by decide) (by rwa [hdef])
        · rename_i hneg
          have hexponent : d.exponent.toNat = 0 := by omega
          rw [hexponent, Nat.pow_zero, Nat.mul_one] at hbound
          exact isFinite_nearest hden (by rwa [hdef])

end MessageCatalog.Number
