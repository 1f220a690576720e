/-
The float nearest to a ratio.

A finite float stands for all reals that are nearer to it than to its neighbours. These reals make
up its interval, and each ratio in the interval has this float as the nearest one.

* `Interval.Contains`, `Exact.Rounds`: the reals that round to a float;
* `divEven_eq`: division that rounds to the nearest natural number;
* `nearestBits_of_rounds`, `nearest_of_rounds`: a ratio that rounds to a float has it as its
  nearest float;
* `isFinite_ofNat`: the float nearest to a natural number below `2 ^ 64` is finite.
-/
import MessageCatalog.Number.Shortest
import MessageCatalog.Proofs.Number.Bits

namespace MessageCatalog.Number

/-! ### Division to the nearest -/

/-- A number within a half of a quotient is what the division gives; at exactly a half, it has to be
even. -/
lemma divEven_eq {num den m : Nat} (hden : 0 < den) (hlow : 2 * (m * den) ≤ 2 * num + den)
    (hhigh : 2 * num ≤ 2 * (m * den) + den)
    (htie : 2 * (m * den) = 2 * num + den ∨ 2 * num = 2 * (m * den) + den → m % 2 = 0) :
    divEven num den = m := by
  have hdiv : num / den * den + num % den = num := Nat.div_add_mod' num den
  have hmod : num % den < den := Nat.mod_lt num hden
  have hle : m ≤ num / den + 1 := by
    by_contra hgt
    have hmul : (num / den + 2) * den ≤ m * den := Nat.mul_le_mul_right den (by omega)
    rw [Nat.add_mul] at hmul
    omega
  have hge : num / den ≤ m := by
    by_contra hlt
    have hmul : (m + 1) * den ≤ num / den * den := Nat.mul_le_mul_right den (by omega)
    rw [Nat.add_mul] at hmul
    omega
  rw [divEven]
  -- So the quotient is `m` or one less, and the remainder decides in both cases as rounding does.
  obtain rfl | rfl : m = num / den ∨ m = num / den + 1 := by omega
  · split
    · rfl
    · split
      · omega
      · have heven := htie (.inr (by omega))
        omega
  · rw [Nat.add_mul] at hlow hhigh htie
    split
    · omega
    · split
      · rfl
      · have heven := htie (.inl (by omega))
        omega

/-! ### The reals that round to a float -/

/-- The reals in an interval, in the units of its ends, which may be left out. -/
def Interval.Contains (i : Interval) (v : ℚ) : Prop :=
  (i.low : ℚ) ≤ v ∧ v ≤ i.high ∧ (i.closed = false → v ≠ i.low ∧ v ≠ i.high)

/-- The reals that round to a finite magnitude. -/
def Exact.Rounds (e : Exact) (v : ℚ) : Prop :=
  e.interval.Contains (4 * unit * v)

/-- Whether a ratio is in an interval is a question about natural numbers. -/
lemma Interval.contains_ratio {i : Interval} {num den : Nat} (hden : 0 < den) :
    i.Contains (4 * unit * (num / den : ℚ)) ↔
      i.low * den ≤ 4 * (num * unit) ∧ 4 * (num * unit) ≤ i.high * den ∧
        (i.closed = false → 4 * (num * unit) ≠ i.low * den ∧ 4 * (num * unit) ≠ i.high * den) := by
  have hpos : (0 : ℚ) < den := by exact_mod_cast hden
  have hratio : (4 * unit * (num / den : ℚ)) = ((4 * (num * unit) : Nat) : ℚ) / den := by
    push_cast
    ring
  rw [Interval.Contains, hratio]
  simp only [le_div_iff₀ hpos, div_le_iff₀ hpos, ne_eq, div_eq_iff hpos.ne']
  norm_cast

/-- What it means for a ratio to round to a magnitude, in units of the ratio: it is within a half of
the mantissa, and within a quarter of it on the side of the nearer neighbour. -/
structure Near (e : Exact) (num den : Nat) : Prop where
  low : 2 * (e.mantissa * den) ≤ 2 * num + den
  high : 2 * num ≤ 2 * (e.mantissa * den) + den
  tie : 2 * (e.mantissa * den) = 2 * num + den ∨ 2 * num = 2 * (e.mantissa * den) + den →
    e.mantissa % 2 = 0
  quarter : e.mantissa = 2 ^ 52 → 0 < e.scale → 4 * (e.mantissa * den) ≤ 4 * num + den

lemma Exact.Rounds.near {e : Exact} (hpos : 0 < e.mantissa) {num den : Nat} (hden : 0 < den)
    (h : e.Rounds (num / den)) : Near e (num * unit) (den * 2 ^ e.scale) := by
  have hge : den * 2 ^ e.scale ≤ e.mantissa * (den * 2 ^ e.scale) := Nat.le_mul_of_pos_left _ hpos
  have hclosed : e.interval.closed = false → e.mantissa % 2 ≠ 0 := by simp [Exact.interval]
  have hhigh : e.interval.high * den =
      4 * (e.mantissa * (den * 2 ^ e.scale)) + 2 * (den * 2 ^ e.scale) := by
    simp only [Exact.interval, Exact.units]
    ring
  obtain ⟨hlow', hhigh', hends⟩ := (Interval.contains_ratio hden).mp h
  rw [hhigh] at hhigh' hends
  -- Below a power of two the next float is half as far away as above it.
  by_cases hnear : e.mantissa = 2 ^ 52 ∧ 0 < e.scale
  · have heven : e.mantissa % 2 = 0 := by omega
    have hlow : e.interval.low * den =
        4 * (e.mantissa * (den * 2 ^ e.scale)) - den * 2 ^ e.scale := by
      simp only [Exact.interval, Exact.units, if_pos hnear, Nat.sub_mul]
      congr 1 <;> ring
    rw [hlow] at hlow'
    exact ⟨by omega, by omega, fun _ => heven, fun _ _ => by omega⟩
  · have hlow : e.interval.low * den =
        4 * (e.mantissa * (den * 2 ^ e.scale)) - 2 * (den * 2 ^ e.scale) := by
      simp only [Exact.interval, Exact.units, if_neg hnear, Nat.sub_mul]
      congr 1 <;> ring
    rw [hlow] at hlow' hends
    refine ⟨by omega, by omega, fun htie => ?_, fun hm hs => absurd ⟨hm, hs⟩ hnear⟩
    by_contra hodd
    have hopen : e.interval.closed = false := by simpa [Exact.interval] using hodd
    have := hends hopen
    omega

/-! ### Bits of the nearest float -/

/-- The mantissa of a ratio whose scale is the one of the float that it rounds to. -/
lemma nearestBits_of_log2 {e : Exact} (he : e.Canonical) {num den : Nat} (hden : 0 < den)
    (h : Near e (num * unit) (den * 2 ^ e.scale)) (hlog : (num * unit / den).log2 - 52 = e.scale) :
    nearestBits num den = e.scale * 2 ^ 52 + e.mantissa := by
  have hmantissa := he.mantissa_lt
  have hscale := he.scale_le
  have hstep : 0 < den * 2 ^ e.scale := Nat.mul_pos hden (Nat.two_pow_pos _)
  rw [nearestBits]
  simp only [hlog, divEven_eq hstep h.low h.high h.tie]
  omega

/-- A ratio just below a power of two has the scale below, where its mantissa is rounded up and
carries into the exponent field. -/
lemma nearestBits_of_carry {e : Exact} (he : e.Canonical) {num den : Nat} (hden : 0 < den)
    (h : Near e (num * unit) (den * 2 ^ e.scale)) (hm : e.mantissa = 2 ^ 52) (hs : 0 < e.scale)
    (hbelow : num * unit < 2 ^ 52 * (den * 2 ^ e.scale))
    (hlog : (num * unit / den).log2 - 52 = e.scale - 1) :
    nearestBits num den = e.scale * 2 ^ 52 + e.mantissa := by
  have hscale := he.scale_le
  have hstep : 0 < den * 2 ^ (e.scale - 1) := Nat.mul_pos hden (Nat.two_pow_pos _)
  have hdouble : den * 2 ^ e.scale = 2 * (den * 2 ^ (e.scale - 1)) := by
    rw [show e.scale = e.scale - 1 + 1 by omega, pow_succ]
    simp only [Nat.add_sub_cancel]
    ring
  have hquarter := h.quarter hm hs
  rw [hdouble] at hbelow hquarter
  rw [hm] at hquarter
  have hdiv : divEven (num * unit) (den * 2 ^ (e.scale - 1)) = 2 ^ 53 :=
    divEven_eq hstep (by omega) (by omega) (by omega)
  rw [nearestBits]
  simp only [hlog, hdiv]
  omega

/-- The scale of a ratio is read off its whole part. -/
lemma log2_div_sub {num den scale : Nat} (hden : 0 < den)
    (hlow : 0 < scale → 2 ^ 52 * (den * 2 ^ scale) ≤ num)
    (hhigh : num < 2 ^ 53 * (den * 2 ^ scale)) : (num / den).log2 - 52 = scale := by
  have hlt : num / den < 2 ^ (53 + scale) := by
    rw [Nat.div_lt_iff_lt_mul hden, pow_add]
    calc num < 2 ^ 53 * (den * 2 ^ scale) := hhigh
      _ = 2 ^ 53 * 2 ^ scale * den := by ring
  -- At the smallest scale the leading bit may be missing; at any other it is in place.
  rcases Nat.eq_zero_or_pos scale with rfl | hscale
  · by_cases hzero : num / den = 0
    · rw [hzero]
      decide
    · have hlog := (Nat.log2_lt hzero).mpr hlt
      omega
  · have hge : 2 ^ (52 + scale) ≤ num / den := by
      rw [Nat.le_div_iff_mul_le hden, pow_add]
      calc 2 ^ 52 * 2 ^ scale * den = 2 ^ 52 * (den * 2 ^ scale) := by ring
        _ ≤ num := hlow hscale
    have hpos : num / den ≠ 0 := by
      have := Nat.two_pow_pos (52 + scale)
      omega
    have hlt' : num / den < 2 ^ (52 + scale + 1) := by
      rwa [show 52 + scale + 1 = 53 + scale by omega]
    have hlog := (Nat.log2_eq_iff hpos).mpr ⟨hge, hlt'⟩
    omega

/-- **A ratio that rounds to a float has it as the nearest one.** -/
theorem nearestBits_of_rounds {e : Exact} (he : e.Canonical) (hpos : 0 < e.mantissa)
    {num den : Nat} (hden : 0 < den) (h : e.Rounds (num / den)) :
    nearestBits num den = e.scale * 2 ^ 52 + e.mantissa := by
  have hnear := h.near hpos hden
  have hmantissa := he.mantissa_lt
  have hlow := hnear.low
  have hhigh := hnear.high
  have hstep : 0 < den * 2 ^ e.scale := Nat.mul_pos hden (Nat.two_pow_pos _)
  have hupper : e.mantissa * (den * 2 ^ e.scale) ≤ (2 ^ 53 - 1) * (den * 2 ^ e.scale) :=
    Nat.mul_le_mul_right _ (by omega)
  by_cases hbelow : 0 < e.scale ∧ num * unit < 2 ^ 52 * (den * 2 ^ e.scale)
  · -- Below the leading bit of the scale: only a mantissa with no other bit reaches there.
    have hleading := he.leading hbelow.1
    have hm : e.mantissa = 2 ^ 52 := by
      by_contra hne
      have hmul : (2 ^ 52 + 1) * (den * 2 ^ e.scale) ≤ e.mantissa * (den * 2 ^ e.scale) :=
        Nat.mul_le_mul_right _ (by omega)
      omega
    have hquarter := hnear.quarter hm hbelow.1
    rw [hm] at hquarter
    have hdouble : den * 2 ^ e.scale = 2 * (den * 2 ^ (e.scale - 1)) := by
      rw [show e.scale = e.scale - 1 + 1 by omega, pow_succ, Nat.add_sub_cancel]
      ring
    refine nearestBits_of_carry he hden hnear hm hbelow.1 hbelow.2 (log2_div_sub hden ?_ ?_)
    · intro _
      omega
    · omega
  · refine nearestBits_of_log2 he hden hnear (log2_div_sub hden ?_ ?_)
    · intro hscale
      exact Nat.le_of_not_lt fun hlt => hbelow ⟨hscale, hlt⟩
    · omega

lemma signBit_eq (negative : Bool) :
    (if negative = true then 2 ^ 63 else 0) = negative.toNat * 2 ^ 63 := by
  cases negative <;> decide

/-- The float nearest to a ratio that rounds to a magnitude. -/
theorem nearest_of_rounds {e : Exact} (he : e.Canonical) (hpos : 0 < e.mantissa) {num den : Nat}
    (hden : 0 < den) (h : e.Rounds (num / den)) : nearest e.negative num den = ofExact e := by
  have hbits : e.scale * 2 ^ 52 + e.mantissa + e.negative.toNat * 2 ^ 63 = e.bits := by
    rw [Exact.bits]
    ring
  rw [nearest, nearestBits_of_rounds he hpos hden h, signBit_eq, hbits, ofExact]

/-- The zero of a sign. -/
lemma nearest_zero {e : Exact} (he : e.mantissa = 0) (hs : e.scale = 0) :
    nearest e.negative 0 1 = ofExact e := by
  have hzero : nearestBits 0 1 = 0 := by decide +kernel
  have hbits : e.negative.toNat * 2 ^ 63 = e.bits := by
    rw [Exact.bits, he, hs]
    ring
  rw [nearest, hzero, signBit_eq, Nat.zero_add, hbits, ofExact]

/-! ### Finite floats -/

lemma exists_exact_of_isFinite {x : Float} (h : isFinite x = true) :
    ∃ e : Exact, e.Canonical ∧ view x = .finite e ∧ ofExact e = x := by
  rw [isFinite] at h
  split at h
  · rename_i e hview
    obtain ⟨hcanonical, hx⟩ := ofExact_of_view hview
    exact ⟨e, hcanonical, hview, hx⟩
  · cases h

/-- Bits below those of the infinities make a finite float. -/
lemma isFinite_ofBits {n : Nat} (negative : Bool) (h : n < 2047 * 2 ^ 52) :
    isFinite (Float.ofBits (UInt64.ofNat (n + if negative then 2 ^ 63 else 0))) = true := by
  have hsign := negative.toNat_le
  rw [signBit_eq]
  have hfield : (n + negative.toNat * 2 ^ 63) / 2 ^ 52 % 2 ^ 11 ≠ 2047 := by omega
  rw [isFinite, view, toBits_ofBits (by omega) hfield, viewBits]
  simp only [hfield, if_false]
  split_ifs <;> rfl

lemma divEven_le {num den m : Nat} (h : num / den < m) : divEven num den ≤ m := by
  rw [divEven]
  split
  · omega
  · split <;> omega

/-- A ratio that is not too large has a finite float nearest to it. -/
theorem isFinite_nearest {negative : Bool} {num den : Nat} (hden : 0 < den)
    (h : num < 2 ^ 1023 * den) : isFinite (nearest negative num den) = true := by
  have hwhole : num * unit / den < 2 ^ 2097 := by
    rw [Nat.div_lt_iff_lt_mul hden, unit]
    calc num * 2 ^ 1074 < 2 ^ 1023 * den * 2 ^ 1074 :=
          Nat.mul_lt_mul_of_pos_right h (Nat.two_pow_pos _)
      _ = 2 ^ 2097 * den := by ring
  have hlog : (num * unit / den).log2 ≤ 2096 := by
    by_cases hzero : num * unit / den = 0
    · rw [hzero]
      decide
    · have := (Nat.log2_lt hzero).mpr hwhole
      omega
  have hmantissa : num * unit / (den * 2 ^ ((num * unit / den).log2 - 52)) < 2 ^ 53 := by
    rw [← Nat.div_div_eq_div_mul, Nat.div_lt_iff_lt_mul (Nat.two_pow_pos _), ← pow_add]
    calc num * unit / den < 2 ^ ((num * unit / den).log2 + 1) := Nat.lt_log2_self
      _ ≤ 2 ^ (53 + ((num * unit / den).log2 - 52)) :=
          Nat.pow_le_pow_right (by decide) (by omega)
  have hdiv := divEven_le hmantissa
  rw [nearest]
  apply isFinite_ofBits
  rw [nearestBits]
  omega

theorem isFinite_ofNat {n : Nat} (h : n < 2 ^ 64) : isFinite (ofNat n) = true := by
  have hbound : 2 ^ 64 < 2 ^ 1023 := Nat.pow_lt_pow_right (by decide) (by decide)
  exact isFinite_nearest (by decide) (by rw [Nat.mul_one]; exact h.trans hbound)

end MessageCatalog.Number
