/-
Comparisons of floats.

A finite float is a whole number of steps of `2 ^ -1074`. Comparisons of floats compare these
numbers: the two zeros are equal, and nothing else is that differs in its bits.

* `Exact.signed`: a finite value in steps, with its sign;
* `unpack_of_view`: a finite float as the operations on floats take it apart;
* `compare_unpacked`, `beq_iff`, `le_iff`: comparisons compare the values;
* `isNaN_of_view`, `view_abs`: what is no number, and magnitudes.
-/
import MessageCatalog.Proofs.Number.Bits

namespace MessageCatalog.Number

open Float.Model (Format UnpackedFloat)
open Float.Model.UnpackedFloat (Sign pack unpack unpackExponent unpackMantissa unpackSign)

/-! ### Values in steps -/

/-- A finite value in steps of `2 ^ -1074`, with its sign. -/
def Exact.signed (e : Exact) : Int :=
  if e.negative then -(e.units : Int) else e.units

lemma Exact.natAbs_signed (e : Exact) : e.signed.natAbs = e.units := by
  rw [signed]
  split <;> simp

lemma Exact.units_eq_zero {e : Exact} : e.units = 0 ↔ e.mantissa = 0 := by
  rw [units, Nat.mul_eq_zero]
  have hgap := Nat.two_pow_pos e.scale
  omega

/-- Of two magnitudes with different scales, the one with the larger scale is the larger one, as its
mantissa has the leading bit. -/
lemma Exact.units_lt_units {a b : Exact} (ha : a.Canonical) (hb : b.Canonical)
    (h : a.scale < b.scale) : a.units < b.units := by
  have hleading := hb.leading (by omega)
  calc a.mantissa * 2 ^ a.scale < 2 ^ 53 * 2 ^ a.scale :=
        Nat.mul_lt_mul_of_pos_right ha.mantissa_lt (Nat.two_pow_pos _)
    _ = 2 ^ 52 * 2 ^ (a.scale + 1) := by ring
    _ ≤ b.mantissa * 2 ^ b.scale :=
        Nat.mul_le_mul hleading (Nat.pow_le_pow_right (by decide) h)

/-- Magnitudes are compared by their scales, and by their mantissas if these are equal. -/
lemma Exact.compare_units {a b : Exact} (ha : a.Canonical) (hb : b.Canonical) :
    (compare ((a.scale : Int) - 1074) ((b.scale : Int) - 1074)).then
      (compare a.mantissa b.mantissa) = compare a.units b.units := by
  rcases Nat.lt_trichotomy a.scale b.scale with hlt | heq | hgt
  · rw [Int.compare_eq_lt.mpr (by omega), Nat.compare_eq_lt.mpr (units_lt_units ha hb hlt)]
    rfl
  · have hgap := Nat.two_pow_pos b.scale
    rw [heq, Int.compare_eq_eq.mpr rfl, Ordering.eq_then, units, units, heq]
    rcases Nat.lt_trichotomy a.mantissa b.mantissa with hlt | heq | hgt
    · rw [Nat.compare_eq_lt.mpr hlt,
        Nat.compare_eq_lt.mpr (Nat.mul_lt_mul_of_pos_right hlt hgap)]
    · rw [heq, Nat.compare_eq_eq.mpr rfl, Nat.compare_eq_eq.mpr rfl]
    · rw [Nat.compare_eq_gt.mpr hgt,
        Nat.compare_eq_gt.mpr (Nat.mul_lt_mul_of_pos_right hgt hgap)]
  · rw [Int.compare_eq_gt.mpr (by omega), Nat.compare_eq_gt.mpr (units_lt_units hb ha hgt)]
    rfl

/-! ### Floats taken apart -/

/-- The sign of a finite value, which zero has too. -/
def Exact.sign (e : Exact) : Sign :=
  if e.negative then .negative else .positive

/-- A finite value as the operations on floats take it. -/
def Exact.unpacked (e : Exact) : UnpackedFloat :=
  if h : e.mantissa = 0 then .zero e.sign
  else .finite e.sign e.mantissa (e.scale - 1074) (Nat.pos_of_ne_zero h)

lemma Exact.zero_eq_unpacked {e : Exact} {sign : Sign} (hsign : sign = e.sign)
    (hmantissa : e.mantissa = 0) : UnpackedFloat.zero sign = e.unpacked := by
  rw [hsign, unpacked, dif_pos hmantissa]

lemma Exact.finite_eq_unpacked {e : Exact} {sign : Sign} {mantissa : Nat} {exponent : Int}
    {hpos : 0 < mantissa} (hsign : sign = e.sign) (hmantissa : mantissa = e.mantissa)
    (hexponent : exponent = e.scale - 1074) :
    UnpackedFloat.finite sign mantissa exponent hpos = e.unpacked := by
  subst hsign hmantissa hexponent
  rw [unpacked, dif_neg (by omega)]

lemma ofBitVec_unpackSign (bits : BitVec 64) :
    Sign.ofBitVec (@unpackSign Format.binary64 bits) =
      if bits.toNat / 2 ^ 63 % 2 == 1 then .negative else .positive := by
  have hbit := toNat_unpackSign bits
  rw [Sign.ofBitVec]
  split
  · rename_i hzero
    rw [hzero] at hbit
    rw [← hbit]
    rfl
  · rename_i hone
    have hne : (@unpackSign Format.binary64 bits).toNat ≠ 0 := fun hnat =>
      hone (BitVec.eq_of_toNat_eq hnat)
    rw [if_pos (beq_iff_eq.mpr (by omega))]

/-- What a float stands for, as the operations on floats take it. -/
def View.unpacked : View → UnpackedFloat
  | .nan => .notANumber
  | .infinite negative => .infinity (if negative then .negative else .positive)
  | .finite e => e.unpacked

lemma unpack_viewBits (bits : BitVec 64) :
    unpack Format.binary64 bits = (viewBits bits.toNat).unpacked := by
  have hmantissa := toNat_unpackMantissa bits
  have hexponent := toNat_unpackExponent bits
  have hbound : (@unpackMantissa Format.binary64 bits).toNat < 2 ^ 52 := BitVec.isLt _
  simp only [unpack, viewBits, ofBitVec_unpackSign]
  -- The exponent field is all ones, all zeros, or neither.
  by_cases hones : bits.toNat / 2 ^ 52 % 2 ^ 11 = 2047
  · have hfield : @unpackExponent Format.binary64 bits = -1#11 :=
      BitVec.eq_of_toNat_eq (hexponent.trans hones)
    rw [if_pos hfield, if_pos hones]
    by_cases hnone : bits.toNat % 2 ^ 52 = 0
    · have hfraction : @unpackMantissa Format.binary64 bits = 0#52 :=
        BitVec.eq_of_toNat_eq (hmantissa.trans hnone)
      rw [if_pos hfraction, if_pos hnone]
      rfl
    · rw [if_neg fun h => hnone (hmantissa.symm.trans (congrArg BitVec.toNat h)), if_neg hnone]
      rfl
  · rw [if_neg fun h => hones (hexponent.symm.trans (congrArg BitVec.toNat h)), if_neg hones]
    by_cases hzeros : bits.toNat / 2 ^ 52 % 2 ^ 11 = 0
    · have hfield : @unpackExponent Format.binary64 bits = 0#11 :=
        BitVec.eq_of_toNat_eq (hexponent.trans hzeros)
      rw [if_pos hfield, if_pos hzeros]
      split
      · rename_i hnone
        exact Exact.zero_eq_unpacked rfl (hmantissa.symm.trans (congrArg BitVec.toNat hnone))
      · refine Exact.finite_eq_unpacked rfl hmantissa ?_
        rw [hexponent, hzeros]
        rfl
    · rw [if_neg fun h => hzeros (hexponent.symm.trans (congrArg BitVec.toNat h)), if_neg hzeros]
      refine Exact.finite_eq_unpacked rfl ?_ ?_
      · rw [BitVec.toNat_append, ← Nat.shiftLeft_add_eq_or_of_lt hbound, hmantissa]
        show 1 <<< 52 + bits.toNat % 2 ^ 52 = bits.toNat % 2 ^ 52 + 2 ^ 52
        omega
      · show ((@unpackExponent Format.binary64 bits).toNat : Int) - (1023 + 52) =
          ((bits.toNat / 2 ^ 52 % 2 ^ 11 - 1 : Nat) : Int) - 1074
        omega

/-- **A float is taken apart into what it stands for.** -/
theorem unpack_view (x : Float) : x.toModel.unpack = (view x).unpacked :=
  unpack_viewBits x.toModel.toBits.toBitVec

lemma unpack_of_view {x : Float} {e : Exact} (h : view x = .finite e) :
    x.toModel.unpack = e.unpacked := by
  rw [unpack_view, h, View.unpacked]

/-! ### Comparisons -/

/-- A finite value is zero, or it is below or above zero. -/
lemma Exact.unpacked_cases (e : Exact) :
    (e.unpacked = .zero e.sign ∧ e.signed = 0) ∨
      (∃ h, e.unpacked = .finite .negative e.mantissa (e.scale - 1074) h ∧
        e.signed = -(e.units : Int) ∧ 0 < e.units) ∨
      ∃ h, e.unpacked = .finite .positive e.mantissa (e.scale - 1074) h ∧
        e.signed = e.units ∧ 0 < e.units := by
  rw [signed, unpacked, sign]
  by_cases hzero : e.mantissa = 0
  · rw [dif_pos hzero, units_eq_zero.mpr hzero]
    exact .inl ⟨rfl, by split <;> rfl⟩
  · have hpos : 0 < e.units := Nat.pos_of_ne_zero fun h => hzero (units_eq_zero.mp h)
    rw [dif_neg hzero]
    cases e.negative with
    | true => exact .inr (.inl ⟨Nat.pos_of_ne_zero hzero, rfl, rfl, hpos⟩)
    | false => exact .inr (.inr ⟨Nat.pos_of_ne_zero hzero, rfl, rfl, hpos⟩)

lemma compare_natCast (m n : Nat) : compare (m : Int) n = compare m n := by
  rcases Nat.lt_trichotomy m n with hlt | rfl | hgt
  · rw [Int.compare_eq_lt.mpr (by omega), Nat.compare_eq_lt.mpr hlt]
  · rw [Int.compare_eq_eq.mpr rfl, Nat.compare_eq_eq.mpr rfl]
  · rw [Int.compare_eq_gt.mpr (by omega), Nat.compare_eq_gt.mpr hgt]

lemma compare_neg_neg (m n : Int) : compare (-m) (-n) = (compare m n).swap := by
  rcases Int.lt_trichotomy m n with hlt | rfl | hgt
  · rw [Int.compare_eq_gt.mpr (by omega), Int.compare_eq_lt.mpr hlt]
    rfl
  · rw [Int.compare_eq_eq.mpr rfl, Int.compare_eq_eq.mpr rfl]
    rfl
  · rw [Int.compare_eq_lt.mpr (by omega), Int.compare_eq_gt.mpr hgt]
    rfl

/-- **Comparisons compare the values.** -/
theorem compare_unpacked {a b : Exact} (ha : a.Canonical) (hb : b.Canonical) :
    a.unpacked.compare b.unpacked = some (compare a.signed b.signed) := by
  rcases a.unpacked_cases with ⟨hau, has⟩ | ⟨_, hau, has, hapos⟩ | ⟨_, hau, has, hapos⟩
  · rcases b.unpacked_cases with ⟨hbu, hbs⟩ | ⟨_, hbu, hbs, hbpos⟩ | ⟨_, hbu, hbs, hbpos⟩
    all_goals rw [hau, hbu, has, hbs, UnpackedFloat.compare]
    · rfl
    · rw [Int.compare_eq_gt.mpr (by omega)]
    · rw [Int.compare_eq_lt.mpr (by omega)]
  · rcases b.unpacked_cases with ⟨hbu, hbs⟩ | ⟨_, hbu, hbs, hbpos⟩ | ⟨_, hbu, hbs, hbpos⟩
    all_goals rw [hau, hbu, has, hbs, UnpackedFloat.compare]
    · rw [Int.compare_eq_lt.mpr (by omega)]
    · rw [Exact.compare_units ha hb, compare_neg_neg, compare_natCast]
    · rw [Int.compare_eq_lt.mpr (by omega)]
  · rcases b.unpacked_cases with ⟨hbu, hbs⟩ | ⟨_, hbu, hbs, hbpos⟩ | ⟨_, hbu, hbs, hbpos⟩
    all_goals rw [hau, hbu, has, hbs, UnpackedFloat.compare]
    · rw [Int.compare_eq_gt.mpr (by omega)]
    · rw [Int.compare_eq_gt.mpr (by omega)]
    · rw [Exact.compare_units ha hb, compare_natCast]

section Floats

variable {x y : Float} {a b : Exact}

/-- Two finite floats are equal if they have one value. -/
theorem beq_iff (hx : view x = .finite a) (hy : view y = .finite b) :
    (x == y) = true ↔ a.signed = b.signed := by
  have hcompare := compare_unpacked (ofExact_of_view hx).1 (ofExact_of_view hy).1
  show UnpackedFloat.beq x.toModel.unpack y.toModel.unpack = true ↔ _
  rw [unpack_of_view hx, unpack_of_view hy, UnpackedFloat.beq, hcompare, beq_iff_eq,
    Option.some_inj, Int.compare_eq_eq]

/-- Of two finite floats, one is at most the other if its value is. -/
theorem le_iff (hx : view x = .finite a) (hy : view y = .finite b) :
    x ≤ y ↔ a.signed ≤ b.signed := by
  have hcompare := compare_unpacked (ofExact_of_view hx).1 (ofExact_of_view hy).1
  have hle : x ≤ y ↔ UnpackedFloat.le x.toModel.unpack y.toModel.unpack = true := decide_eq_true_iff
  rw [hle, unpack_of_view hx, unpack_of_view hy, UnpackedFloat.le, hcompare, Option.any_some,
    Int.isLE_compare]

/-- Nothing but a finite float is equal to one. -/
lemma exists_view_of_beq (hx : view x = .finite a) (h : (x == y) = true) :
    ∃ b, view y = .finite b := by
  have hbeq : UnpackedFloat.beq x.toModel.unpack y.toModel.unpack = true := h
  rw [unpack_of_view hx, unpack_view, UnpackedFloat.beq] at hbeq
  cases hy : view y with
  | finite b => exact ⟨b, rfl⟩
  | nan =>
      rw [hy, View.unpacked] at hbeq
      rcases a.unpacked_cases with ⟨hau, -⟩ | ⟨_, hau, -⟩ | ⟨_, hau, -⟩ <;> rw [hau] at hbeq <;>
        cases hbeq
  | infinite negative =>
      rw [hy, View.unpacked] at hbeq
      rcases a.unpacked_cases with ⟨hau, -⟩ | ⟨_, hau, -⟩ | ⟨_, hau, -⟩ <;> rw [hau] at hbeq <;>
        cases negative <;> cases hbeq

/-- A finite float is a number. -/
lemma isNaN_of_view (hx : view x = .finite a) : x.isNaN = false := by
  show UnpackedFloat.isNaN x.toModel.unpack = false
  rw [unpack_of_view hx]
  rcases a.unpacked_cases with ⟨hau, -⟩ | ⟨_, hau, -⟩ | ⟨_, hau, -⟩ <;> rw [hau] <;> rfl

/-- The magnitude of a float is the float without its sign. -/
theorem view_abs (hx : view x = .finite a) : view x.abs = .finite { a with negative := false } := by
  have ha := (ofExact_of_view hx).1
  have habs : Exact.Canonical { a with negative := false } := ⟨ha.1, ha.2, ha.3⟩
  have hview := view_ofExact habs
  have hfield : (ofExact { a with negative := false }).toBits.toNat / 2 ^ 52 % 2 ^ 11 ≠ 2047 := by
    rw [ofExact, toBits_ofBits habs.bits_lt habs.field_ne]
    exact habs.field_ne
  have hunpack : x.toModel.unpack.abs = (ofExact { a with negative := false }).toModel.unpack := by
    rw [unpack_of_view hx, unpack_of_view hview, Exact.unpacked, Exact.unpacked]
    split <;> rfl
  have hsame : x.abs = ofExact { a with negative := false } := by
    show Float.ofModel (Float.Model.pack x.toModel.unpack.abs) = _
    rw [hunpack, ofModel_pack_unpack hfield]
  rw [hsame, hview]

end Floats

end MessageCatalog.Number
