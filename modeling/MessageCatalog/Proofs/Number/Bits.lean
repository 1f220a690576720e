/-
Floats and their bits.

A float that is not a NaN is nothing but its bits. What is finite has a mantissa and a scale, which
its bits spell out, so that the two determine each other.

* `toBits_ofBits`, `ofBits_toBits`: bits make a float and are found in it again;
* `ofModel_pack_unpack`: a finite float is what it is taken apart into;
* `Exact.Canonical`: the mantissas and scales that floats have;
* `view_ofExact`, `ofExact_of_view`: the float of a mantissa and a scale.
-/
import Mathlib
import MessageCatalog.Number.Exact

namespace MessageCatalog.Number

open Float.Model (Format UnpackedFloat)
open Float.Model.UnpackedFloat (Sign packComponents pack unpack unpackExponent unpackMantissa
  unpackSign)

/-! ### The fields of a bit pattern -/

section Fields

variable (bits : BitVec 64)

lemma toNat_unpackMantissa :
    (@unpackMantissa Format.binary64 bits).toNat = bits.toNat % 2 ^ 52 := by
  simp [unpackMantissa]

lemma toNat_unpackExponent :
    (@unpackExponent Format.binary64 bits).toNat = bits.toNat / 2 ^ 52 % 2 ^ 11 := by
  simp [unpackExponent, BitVec.extractLsb_toNat, Nat.shiftRight_eq_div_pow]

lemma toNat_unpackSign :
    (@unpackSign Format.binary64 bits).toNat = bits.toNat / 2 ^ 63 % 2 := by
  simp [unpackSign, BitVec.extractLsb_toNat, Nat.shiftRight_eq_div_pow]

lemma toBitVec_ofBitVec (sign : BitVec 1) : (Sign.ofBitVec sign).toBitVec = sign := by
  have h : sign = 0#1 ∨ sign = 1#1 := by
    have := sign.isLt
    rcases Nat.lt_or_ge sign.toNat 1 with hzero | hone
    · exact .inl (BitVec.eq_of_toNat_eq (by simpa using hzero))
    · exact .inr (BitVec.eq_of_toNat_eq (by simp; omega))
  rcases h with rfl | rfl <;> rfl

lemma toNat_packComponents (sign : Sign) (exponent : BitVec 11) (mantissa : BitVec 52) :
    (packComponents Format.binary64 sign exponent mantissa).toNat =
      sign.toBitVec.toNat * 2 ^ 63 + exponent.toNat * 2 ^ 52 + mantissa.toNat := by
  have hexponent := exponent.isLt
  have hmantissa := mantissa.isLt
  rw [packComponents, BitVec.toNat_append, BitVec.toNat_append,
    ← Nat.shiftLeft_add_eq_or_of_lt hexponent, ← Nat.shiftLeft_add_eq_or_of_lt hmantissa,
    Nat.shiftLeft_eq, Nat.shiftLeft_eq]
  ring

/-- A bit pattern is made up of its fields. -/
lemma packComponents_eq {exponent : BitVec 11} {mantissa : BitVec 52}
    (hexponent : exponent.toNat = bits.toNat / 2 ^ 52 % 2 ^ 11)
    (hmantissa : mantissa.toNat = bits.toNat % 2 ^ 52) :
    packComponents Format.binary64
      (Sign.ofBitVec (@unpackSign Format.binary64 bits)) exponent mantissa = bits := by
  have hbits := bits.isLt
  apply BitVec.eq_of_toNat_eq
  rw [toNat_packComponents, toBitVec_ofBitVec, toNat_unpackSign, hexponent, hmantissa]
  omega

/-! ### Packing -/

lemma exponentBias_binary64 : Format.binary64.exponentBias = 1023 := rfl

/-- A mantissa of fifty-three bits is packed with its exponent. -/
lemma pack_normal {sign : Sign} {mantissa field : Nat} (hmantissa : mantissa.log2 = 52)
    (hfield : field < 2047) {e : Int} (he : e + 1075 = field) (hpos : 0 < mantissa) :
    pack Format.binary64 (.finite sign mantissa e hpos) =
      packComponents Format.binary64 sign (BitVec.ofNat 11 field) (BitVec.ofNat 52 mantissa) := by
  have hbiased : (e + (1023 : Nat) + (52 : Nat)).toNat = field := by omega
  rw [pack]
  simp only [exponentBias_binary64, hbiased, hmantissa]
  rw [if_neg (by omega), if_pos (by decide)]

/-- A shorter mantissa is packed with the exponent zero. -/
lemma pack_subnormal {sign : Sign} {mantissa : Nat} (hmantissa : mantissa.log2 < 52) {e : Int}
    (he : e + 1075 = 1) (hpos : 0 < mantissa) :
    pack Format.binary64 (.finite sign mantissa e hpos) =
      packComponents Format.binary64 sign 0#11 (BitVec.ofNat 52 mantissa) := by
  have hbiased : (e + (1023 : Nat) + (52 : Nat)).toNat = 1 := by omega
  have hbits : ¬mantissa.log2 + 1 = Format.binary64.mantissaBits := by
    show ¬mantissa.log2 + 1 = 53
    omega
  rw [pack]
  simp only [exponentBias_binary64, hbiased]
  rw [if_neg (by decide), if_neg hbits]

/-- A bit pattern that is neither infinite nor a NaN is left as it is. -/
lemma pack_unpack (h : bits.toNat / 2 ^ 52 % 2 ^ 11 ≠ 2047) :
    pack Format.binary64 (unpack Format.binary64 bits) = bits := by
  have hmantissa := toNat_unpackMantissa bits
  have hexponent := toNat_unpackExponent bits
  rw [unpack]
  -- The exponent field decides: all ones, which is excluded, zeros, where no leading bit is hidden,
  -- or any other, where one is.
  split
  · rename_i hones
    rw [hones] at hexponent
    exact absurd hexponent.symm h
  · split
    · rename_i hzero
      rw [hzero] at hexponent
      split
      · rename_i hnone
        rw [hnone] at hmantissa
        exact packComponents_eq bits hexponent hmantissa
      · rename_i hsome
        have hne : (@unpackMantissa Format.binary64 bits).toNat ≠ 0 := by
          intro hnat
          exact hsome (BitVec.eq_of_toNat_eq hnat)
        have hlog : (@unpackMantissa Format.binary64 bits).toNat.log2 < 52 :=
          (Nat.log2_lt hne).mpr (BitVec.isLt _)
        rw [pack_subnormal hlog (by rw [hzero]; rfl), BitVec.ofNat_toNat, BitVec.setWidth_eq]
        exact packComponents_eq bits hexponent hmantissa
    · have hbound : (@unpackMantissa Format.binary64 bits).toNat < 2 ^ 52 := BitVec.isLt _
      have himplicit : (1#1 ++ @unpackMantissa Format.binary64 bits).toNat =
          2 ^ 52 + (@unpackMantissa Format.binary64 bits).toNat := by
        rw [BitVec.toNat_append, ← Nat.shiftLeft_add_eq_or_of_lt hbound]
        rfl
      have hlog : (1#1 ++ @unpackMantissa Format.binary64 bits).toNat.log2 = 52 := by
        rw [himplicit, Nat.log2_eq_iff (by omega)]
        omega
      have hfield : (@unpackExponent Format.binary64 bits).toNat < 2047 := by
        omega
      have hexp : ((@unpackExponent Format.binary64 bits).toNat : Int) -
          ((Format.binary64.exponentBias : Nat) + (52 : Nat)) + 1075 =
            (@unpackExponent Format.binary64 bits).toNat := by
        rw [exponentBias_binary64]
        omega
      rw [pack_normal hlog hfield hexp]
      refine packComponents_eq bits ?_ ?_
      · rw [BitVec.toNat_ofNat, hexponent, Nat.mod_mod]
      · rw [BitVec.toNat_ofNat, himplicit, hmantissa]
        omega

end Fields

/-! ### Floats of bits -/

/-- Bits that are neither those of a NaN nor those of an infinity are found again in their float. -/
theorem toBits_ofBits {n : Nat} (hn : n < 2 ^ 64) (h : n / 2 ^ 52 % 2 ^ 11 ≠ 2047) :
    (Float.ofBits (UInt64.ofNat n)).toBits.toNat = n := by
  have hbits : (UInt64.ofNat n).toBitVec.toNat = n := by
    rw [UInt64.toNat_toBitVec, UInt64.toNat_ofNat', Nat.mod_eq_of_lt hn]
  have hpack := pack_unpack (UInt64.ofNat n).toBitVec (by rwa [hbits])
  show (UInt64.ofBitVec (pack Format.binary64
    (unpack Format.binary64 (UInt64.ofNat n).toBitVec))).toBitVec.toNat = n
  rw [hpack, hbits]

/-- A finite float that is taken apart is put together again. -/
theorem ofModel_pack_unpack {x : Float} (h : x.toBits.toNat / 2 ^ 52 % 2 ^ 11 ≠ 2047) :
    Float.ofModel (Float.Model.pack x.toModel.unpack) = x := by
  obtain ⟨⟨bits, hvalid⟩⟩ := x
  have hpack := pack_unpack bits.toBitVec h
  show Float.ofModel ⟨UInt64.ofBitVec (pack Format.binary64
    (unpack Format.binary64 bits.toBitVec)), _⟩ = _
  congr 2
  exact congrArg UInt64.ofBitVec hpack

/-- A finite float is made of its bits again. -/
theorem ofBits_toBits {x : Float} (h : x.toBits.toNat / 2 ^ 52 % 2 ^ 11 ≠ 2047) :
    Float.ofBits (UInt64.ofNat x.toBits.toNat) = x := by
  rw [UInt64.ofNat_toNat]
  exact ofModel_pack_unpack h

/-! ### Mantissa and scale -/

/-- A mantissa and a scale that a finite float has: the leading bit is set unless the scale is the
least one. -/
structure Exact.Canonical (e : Exact) : Prop where
  mantissa_lt : e.mantissa < 2 ^ 53
  leading : 0 < e.scale → 2 ^ 52 ≤ e.mantissa
  scale_le : e.scale ≤ 2045

/-- The bits of a mantissa and a scale. The leading bit of the mantissa counts as one more in the
exponent field. -/
def Exact.bits (e : Exact) : Nat :=
  e.negative.toNat * 2 ^ 63 + e.scale * 2 ^ 52 + e.mantissa

/-- The float of a mantissa and a scale. -/
def ofExact (e : Exact) : Float :=
  Float.ofBits (UInt64.ofNat e.bits)

lemma Exact.Canonical.bits_lt {e : Exact} (h : e.Canonical) : e.bits < 2 ^ 64 := by
  have hmantissa := h.mantissa_lt
  have hscale := h.scale_le
  have hsign := e.negative.toNat_le
  rw [Exact.bits]
  omega

lemma Exact.Canonical.field_ne {e : Exact} (h : e.Canonical) :
    e.bits / 2 ^ 52 % 2 ^ 11 ≠ 2047 := by
  have hmantissa := h.mantissa_lt
  have hscale := h.scale_le
  rw [Exact.bits]
  omega

/-- The bits spell out the mantissa and the scale. -/
lemma viewBits_bits {e : Exact} (h : e.Canonical) : viewBits e.bits = .finite e := by
  have hfield := h.field_ne
  obtain ⟨negative, mantissa, scale⟩ := e
  obtain ⟨hmantissa, hleading, hscale⟩ := h
  simp only [Exact.bits] at hmantissa hleading hscale hfield ⊢
  have hsign : ((negative.toNat * 2 ^ 63 + scale * 2 ^ 52 + mantissa) / 2 ^ 63 % 2 == 1) =
      negative := by
    have hlow : (negative.toNat * 2 ^ 63 + scale * 2 ^ 52 + mantissa) / 2 ^ 63 % 2 =
        negative.toNat := by
      have := negative.toNat_le
      omega
    rw [hlow]
    cases negative <;> rfl
  rw [viewBits, hsign]
  simp only [hfield, if_false]
  split
  · -- The exponent field is zero, so that there is no leading bit and the scale is zero.
    rename_i hzero
    have hmod : (negative.toNat * 2 ^ 63 + scale * 2 ^ 52 + mantissa) % 2 ^ 52 = mantissa := by
      omega
    have hscale' : scale = 0 := by omega
    rw [hmod, hscale']
  · rename_i hnonzero
    have hmod : (negative.toNat * 2 ^ 63 + scale * 2 ^ 52 + mantissa) % 2 ^ 52 + 2 ^ 52 =
        mantissa := by
      omega
    have hdiv : (negative.toNat * 2 ^ 63 + scale * 2 ^ 52 + mantissa) / 2 ^ 52 % 2 ^ 11 - 1 =
        scale := by
      omega
    rw [hmod, hdiv]

/-- Whatever the bits spell out is canonical, and has these bits. -/
lemma canonical_of_viewBits {n : Nat} (hn : n < 2 ^ 64) {e : Exact} (h : viewBits n = .finite e) :
    e.Canonical ∧ e.bits = n := by
  have hsign : (n / 2 ^ 63 % 2 == 1).toNat = n / 2 ^ 63 := by
    have hbit : n / 2 ^ 63 = 0 ∨ n / 2 ^ 63 = 1 := by omega
    rcases hbit with hbit | hbit <;> rw [hbit] <;> rfl
  simp only [viewBits] at h
  split at h
  · split at h <;> cases h
  -- Without a hidden leading bit the mantissa is the field itself; with one it is at least as large
  -- as that bit.
  · split at h
    · obtain rfl := View.finite.inj h
      refine ⟨⟨?_, ?_, ?_⟩, ?_⟩
      · show n % 2 ^ 52 < 2 ^ 53
        omega
      · intro hpos
        exact absurd hpos (lt_irrefl 0)
      · exact Nat.zero_le _
      · simp only [Exact.bits, hsign]
        omega
    · obtain rfl := View.finite.inj h
      refine ⟨⟨?_, ?_, ?_⟩, ?_⟩
      · show n % 2 ^ 52 + 2 ^ 52 < 2 ^ 53
        omega
      · intro _
        exact Nat.le_add_left _ _
      · show n / 2 ^ 52 % 2 ^ 11 - 1 ≤ 2045
        omega
      · simp only [Exact.bits, hsign]
        omega

/-- A canonical mantissa and scale are found again in their float. -/
theorem view_ofExact {e : Exact} (h : e.Canonical) : view (ofExact e) = .finite e := by
  rw [view, ofExact, toBits_ofBits h.bits_lt h.field_ne, viewBits_bits h]

/-- A finite float is that of its mantissa and its scale. -/
theorem ofExact_of_view {x : Float} {e : Exact} (h : view x = .finite e) :
    e.Canonical ∧ ofExact e = x := by
  obtain ⟨hcanonical, hbits⟩ := canonical_of_viewBits x.toBits.toNat_lt h
  refine ⟨hcanonical, ?_⟩
  rw [ofExact, hbits, ofBits_toBits]
  rw [← hbits]
  exact hcanonical.field_ne

end MessageCatalog.Number
