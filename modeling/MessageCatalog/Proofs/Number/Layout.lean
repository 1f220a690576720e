/-
Written floats read back.

Every layout writes a finite float as the text of a number. The parts of that text are those that
JSON asks for, and the text stands for the shortest decimal of the float, which rounds to it.

* `Layout.literal`: the parts of the text of a float;
* `Layout.text_eq`, `Layout.literal_wellFormed`: they make up the text, and are parts of a number;
* `Layout.isJson_literal`: the text follows the strict grammar;
* `Layout.toFloat_literal`: the decimal that the text stands for is read as the float.
-/
import MessageCatalog.Proofs.Number.Literal
import MessageCatalog.Number.Layout

namespace MessageCatalog.Number

/-! ### Digits -/

/-- Only the digits of zero start with a zero. -/
lemma head_digits_ne {n : Nat} (hpos : 0 < n) : ∀ c ∈ (digits n).head?, c ≠ '0' := by
  induction n using Nat.strong_induction_on with
  | _ n ih =>
      intro c hc
      rcases Nat.lt_or_ge n 10 with hlt | hge
      · rw [digits, Nat.toDigits_of_lt_base hlt] at hc
        obtain rfl := Option.some.inj hc
        interval_cases n <;> decide
      · have hdiv : 0 < n / 10 := by omega
        rw [digits, Nat.toDigits_of_base_le (by decide) hge] at hc
        refine ih (n / 10) (by omega) hdiv c ?_
        rw [List.head?_append] at hc
        cases hhead : (digits (n / 10)).head? with
        | none => exact absurd (List.head?_eq_none_iff.mp hhead) (digits_ne_nil _)
        | some d =>
            rw [show Nat.toDigits 10 (n / 10) = digits (n / 10) by rfl, hhead] at hc
            exact hc

lemma allDigits_digits (n : Nat) : AllDigits (digits n) :=
  fun _ h => isDigit_of_mem_digits h

lemma allDigits_zeros (n : Nat) : AllDigits (List.replicate n '0') := by
  intro c hc
  obtain rfl := List.eq_of_mem_replicate hc
  decide

lemma AllDigits.append {ds es : List Char} (hds : AllDigits ds) (hes : AllDigits es) :
    AllDigits (ds ++ es) := by
  intro c hc
  rcases List.mem_append.mp hc with hc | hc
  · exact hds c hc
  · exact hes c hc

/-- Zeros in front of digits do not count. -/
lemma ofDigitChars_zeros_append (n : Nat) (ds : List Char) :
    Nat.ofDigitChars 10 (List.replicate n '0' ++ ds) 0 = Nat.ofDigitChars 10 ds 0 := by
  rw [Nat.ofDigitChars_append, Nat.ofDigitChars_replicate_zero, Nat.mul_zero]

/-- Zeros after digits count as a power of ten. -/
lemma ofDigitChars_append_zeros (n : Nat) (ds : List Char) :
    Nat.ofDigitChars 10 (ds ++ List.replicate n '0') 0 = 10 ^ n * Nat.ofDigitChars 10 ds 0 := by
  rw [Nat.ofDigitChars_append, Nat.ofDigitChars_replicate_zero]

/-! ### Positional texts -/

/-- The fraction of a whole number: a zero, if a point is asked for. -/
def zeroFraction (point : Bool) : Option (List Char) :=
  if point then some ['0'] else none

/-- The parts of digits times a power of ten, written out with zeros. -/
def positionalLiteral (sign : Option Char) (point : Bool) (ds : List Char) (exponent : Int) :
    Literal :=
  if 0 ≤ exponent then
    ⟨sign, ds ++ List.replicate exponent.toNat '0', zeroFraction point, none⟩
  else if (-exponent).toNat < ds.length then
    ⟨sign, ds.take (ds.length - (-exponent).toNat), some (ds.drop (ds.length - (-exponent).toNat)),
      none⟩
  else ⟨sign, ['0'], some (List.replicate ((-exponent).toNat - ds.length) '0' ++ ds), none⟩

section Positional

variable {sign : Option Char} {point : Bool} {ds : List Char} {exponent : Int}

lemma text_positionalLiteral : (positionalLiteral sign point ds exponent).text = sign.toList ++
    (positionalText ds exponent ++ if point && decide (0 ≤ exponent) then ['.', '0'] else []) := by
  by_cases hnonneg : 0 ≤ exponent
  · cases point <;>
      simp [positionalLiteral, positionalText, Literal.text, fractionText, exponentText,
        zeroFraction, hnonneg]
  · by_cases hplaces : (-exponent).toNat < ds.length <;>
      simp [positionalLiteral, positionalText, Literal.text, fractionText, exponentText, hnonneg,
        hplaces]

lemma positionalLiteral_wellFormed (hsign : IsSign sign) (hds : AllDigits ds) :
    (positionalLiteral sign point ds exponent).WellFormed := by
  rw [positionalLiteral]
  split
  · refine ⟨hsign, hds.append (allDigits_zeros _), ?_, fun p hp => nomatch hp⟩
    intro es hes
    cases point with
    | false => cases hes
    | true =>
        obtain rfl := Option.some.inj hes
        exact allDigits_zeros 1
  · split
    · refine ⟨hsign, fun c hc => hds c (List.mem_of_mem_take hc), ?_, fun p hp => nomatch hp⟩
      intro es hes
      obtain rfl := Option.some.inj hes
      exact fun c hc => hds c (List.mem_of_mem_drop hc)
    · refine ⟨hsign, allDigits_zeros 1, ?_, fun p hp => nomatch hp⟩
      intro es hes
      obtain rfl := Option.some.inj hes
      exact (allDigits_zeros _).append hds

/-- A row of digits without a zero in front, with any digits after it, is the whole part of a JSON
number. -/
lemma isJson_of_head {cs : List Char} {fraction : Option (List Char)}
    {exponent : Option (Option Char × List Char)} (hplus : sign ≠ some '+') (hne : cs ≠ [])
    (hhead : ∀ c ∈ cs.head?, c ≠ '0') (hfraction : ∀ es ∈ fraction, es ≠ [])
    (hexponent : ∀ p ∈ exponent, p.2 ≠ []) : (Literal.mk sign cs fraction exponent).isJson := by
  have hfraction' : (fraction.all fun ds => !ds.isEmpty) = true := by
    cases fraction with
    | none => rfl
    | some es => simpa using hfraction es rfl
  have hexponent' : (exponent.all fun p => !p.2.isEmpty) = true := by
    cases exponent with
    | none => rfl
    | some p => simpa using hexponent p rfl
  cases cs with
  | nil => exact absurd rfl hne
  | cons c cs =>
      have hc : c ≠ '0' := hhead c rfl
      simp only [Literal.isJson, Bool.and_eq_true, bne_iff_ne]
      refine ⟨⟨⟨hplus, ?_⟩, hfraction'⟩, hexponent'⟩
      split
      · contradiction
      · rfl
      · rename_i heq
        rw [← (List.cons.inj heq).1]
        exact bne_iff_ne.mpr hc

lemma isJson_positionalLiteral (hplus : sign ≠ some '+') (hne : ds ≠ [])
    (hhead : ∀ c ∈ ds.head?, c ≠ '0') : (positionalLiteral sign point ds exponent).isJson := by
  have hlength : 0 < ds.length := List.length_pos_of_ne_nil hne
  rw [positionalLiteral]
  split
  · refine isJson_of_head hplus (by simp [hne]) ?_ ?_ fun p hp => nomatch hp
    · intro c hc
      cases ds with
      | nil => exact absurd rfl hne
      | cons d ds => exact hhead c hc
    · intro es hes
      cases point with
      | false => cases hes
      | true =>
          obtain rfl := Option.some.inj hes
          exact List.cons_ne_nil _ _
  · split
    · rename_i hnonneg hplaces
      refine isJson_of_head hplus (List.ne_nil_of_length_pos ?_) ?_ ?_ fun p hp => nomatch hp
      · rw [List.length_take]
        omega
      · intro c hc
        rw [List.head?_take, if_neg (by omega)] at hc
        exact hhead c hc
      · intro es hes
        obtain rfl := Option.some.inj hes
        refine List.ne_nil_of_length_pos ?_
        rw [List.length_drop]
        omega
    · simp [Literal.isJson, hplus, hne]

/-- Zeros and a point do not change what digits times a power of ten stand for. -/
lemma value_positionalLiteral (hds : AllDigits ds) (hsign : IsSign sign) :
    (positionalLiteral sign point ds exponent).decimal.value =
      Nat.ofDigitChars 10 ds 0 * 10 ^ exponent := by
  rw [Literal.decimal_value (positionalLiteral_wellFormed hsign hds)]
  rw [positionalLiteral]
  split
  -- The exponent is made up for by zeros behind the digits, and by one more behind the point.
  · rename_i hnonneg
    obtain ⟨n, rfl⟩ := Int.eq_ofNat_of_zero_le hnonneg
    cases point with
    | false =>
        simp only [Literal.allDigits, zeroFraction, exponentValue]
        simp [ofDigitChars_append_zeros, mul_comm]
    | true =>
        have hzeros : ds ++ List.replicate n '0' ++ ['0'] = ds ++ List.replicate (n + 1) '0' := by
          rw [List.append_assoc, List.replicate_succ']
        have hpow : (10 : ℚ) ^ (n + 1) * 10 ^ (-1 : Int) = 10 ^ n := by
          rw [pow_succ, zpow_neg_one, mul_inv_cancel_right₀ (by norm_num)]
        simp only [Literal.allDigits, zeroFraction, exponentValue, if_true, Option.getD_some,
          Int.toNat_natCast, hzeros, ofDigitChars_append_zeros]
        push_cast
        calc (10 : ℚ) ^ (n + 1) * Nat.ofDigitChars 10 ds 0 * 10 ^ (0 - 1 : Int)
            = (10 ^ (n + 1) * 10 ^ (-1 : Int)) * Nat.ofDigitChars 10 ds 0 := by
              rw [zero_sub]
              ring
          _ = Nat.ofDigitChars 10 ds 0 * 10 ^ (n : Int) := by
              rw [hpow, zpow_natCast]
              ring
  · rename_i hneg
    split
    -- The point stands among the digits, or in front of them with zeros between.
    · rename_i hplaces
      have hlength : (ds.drop (ds.length - (-exponent).toNat)).length = (-exponent).toNat := by
        rw [List.length_drop]
        omega
      have hexponent : (0 : Int) - ((-exponent).toNat : Int) = exponent := by omega
      simp only [Literal.allDigits, exponentValue, Option.getD_some, List.take_append_drop, hlength,
        hexponent]
    · rename_i hplaces
      have hlength : (List.replicate ((-exponent).toNat - ds.length) '0' ++ ds).length =
          (-exponent).toNat := by
        rw [List.length_append, List.length_replicate]
        omega
      have hexponent : (0 : Int) - ((-exponent).toNat : Int) = exponent := by omega
      have hzeros : ['0'] ++ (List.replicate ((-exponent).toNat - ds.length) '0' ++ ds) =
          List.replicate ((-exponent).toNat - ds.length + 1) '0' ++ ds := by
        rw [List.replicate_succ]
        rfl
      simp only [Literal.allDigits, exponentValue, Option.getD_some, hlength, hexponent, hzeros,
        ofDigitChars_zeros_append]

end Positional

/-! ### Scientific texts -/

/-- The digits after the first one, if there are any. -/
def laterDigits : List Char → Option (List Char)
  | _ :: e :: rest => some (e :: rest)
  | _ => none

/-- The parts of digits with a point after the first one, and of the power of ten of that one. -/
def scientificLiteral (sign : Option Char) (ds : List Char) (power : Int) : Literal :=
  ⟨sign, ds.take 1, laterDigits ds,
    some (some (if power < 0 then '-' else '+'), digits power.natAbs)⟩

section Scientific

variable {sign : Option Char} {ds : List Char} {power : Int}

lemma text_scientificLiteral : (scientificLiteral sign ds power).text =
    sign.toList ++ scientificText ds power := by
  cases ds with
  | nil => rfl
  | cons d ds =>
      cases ds with
      | nil => rfl
      | cons e rest => simp [scientificLiteral, scientificText, Literal.text, fractionText,
          exponentText, laterDigits]

lemma mem_of_laterDigits {es : List Char} (h : laterDigits ds = some es) : es = ds.drop 1 := by
  rw [laterDigits.eq_def] at h
  split at h
  · exact (Option.some.inj h).symm
  · cases h

lemma getD_laterDigits : (laterDigits ds).getD [] = ds.drop 1 := by
  cases ds with
  | nil => rfl
  | cons d ds => cases ds <;> rfl

lemma scientificLiteral_wellFormed (hsign : IsSign sign) (hds : AllDigits ds) :
    (scientificLiteral sign ds power).WellFormed := by
  refine ⟨hsign, fun c hc => hds c (List.mem_of_mem_take hc), ?_, ?_⟩
  · intro es hes c hc
    rw [mem_of_laterDigits hes] at hc
    exact hds c (List.mem_of_mem_drop hc)
  · intro p hp
    obtain rfl := Option.some.inj hp
    refine ⟨?_, allDigits_digits _⟩
    by_cases hneg : power < 0
    · exact .inr (.inr (by rw [if_pos hneg]))
    · exact .inr (.inl (by rw [if_neg hneg]))

lemma isJson_scientificLiteral (hplus : sign ≠ some '+') (hne : ds ≠ [])
    (hhead : ∀ c ∈ ds.head?, c ≠ '0') : (scientificLiteral sign ds power).isJson := by
  have hlength : 0 < ds.length := List.length_pos_of_ne_nil hne
  refine isJson_of_head hplus (List.ne_nil_of_length_pos ?_) ?_ ?_ ?_
  · rw [List.length_take]
    omega
  · intro c hc
    rw [List.head?_take, if_neg (by omega)] at hc
    exact hhead c hc
  · rintro es hes rfl
    rw [laterDigits.eq_def] at hes
    split at hes <;> cases hes
  · intro p hp
    obtain rfl := Option.some.inj hp
    exact digits_ne_nil _

/-- The exponent makes up for the digits after the point. -/
lemma value_scientificLiteral (hds : AllDigits ds) (hsign : IsSign sign) :
    (scientificLiteral sign ds power).decimal.value =
      Nat.ofDigitChars 10 ds 0 * 10 ^ (power - ((ds.drop 1).length : Int)) := by
  have hall : (scientificLiteral sign ds power).allDigits = ds := by
    rw [Literal.allDigits, scientificLiteral, getD_laterDigits, List.take_append_drop]
  have hexponent : exponentValue (scientificLiteral sign ds power).exponent = power := by
    have hread : Nat.ofDigitChars 10 (digits power.natAbs) 0 = power.natAbs :=
      Nat.ofDigitChars_ten_toDigits
    simp only [scientificLiteral, exponentValue, hread]
    by_cases hneg : power < 0
    · rw [if_pos hneg, if_pos rfl]
      omega
    · rw [if_neg hneg, if_neg (by decide)]
      omega
  rw [Literal.decimal_value (scientificLiteral_wellFormed hsign hds), hall, hexponent,
    scientificLiteral, getD_laterDigits]

end Scientific

/-! ### Layouts -/

/-- The sign of a float, which is written only if it is a minus. -/
def signOf (negative : Bool) : Option Char :=
  if negative then some '-' else none

lemma isSign_signOf (negative : Bool) : IsSign (signOf negative) := by
  cases negative
  · exact .inl rfl
  · exact .inr (.inr rfl)

lemma signOf_ne_plus (negative : Bool) : signOf negative ≠ some '+' := by
  cases negative <;> decide

/-- The parts of the text of a finite float. -/
def Layout.literal (l : Layout) (e : Exact) : Literal :=
  if e.mantissa = 0 then ⟨signOf e.negative, ['0'], zeroFraction l.point, none⟩
  else
    let d := shortest l.tie e
    let ds := digits d.coefficient
    let power := d.exponent + ds.length - 1
    if l.positional power then positionalLiteral (signOf e.negative) l.point ds d.exponent
    else scientificLiteral (signOf e.negative) ds power

section Layouts

variable (l : Layout) {e : Exact}

/-- The text of a finite float is made up of its parts. -/
theorem Layout.text_eq {x : Float} (h : view x = .finite e) : l.text x = (l.literal e).text := by
  have hsign : (if e.negative = true then ['-'] else []) = (signOf e.negative).toList := by
    cases e.negative <;> rfl
  simp only [Layout.text, h, hsign, Layout.literal, Layout.magnitude]
  split
  · cases l.point <;> simp [Literal.text, zeroFraction, fractionText, exponentText]
  · split
    · exact text_positionalLiteral.symm
    · exact text_scientificLiteral.symm

/-- The parts of the text of a finite float are parts of a number. -/
theorem Layout.literal_wellFormed : (l.literal e).WellFormed := by
  rw [Layout.literal]
  split
  · have hzero : (positionalLiteral (signOf e.negative) l.point ['0'] 0).WellFormed :=
      positionalLiteral_wellFormed (isSign_signOf _) (allDigits_zeros 1)
    exact hzero
  · simp only
    split
    · exact positionalLiteral_wellFormed (isSign_signOf _) (allDigits_digits _)
    · exact scientificLiteral_wellFormed (isSign_signOf _) (allDigits_digits _)

/-- The digits of a float that is not zero do not start with a zero. -/
lemma head_digits_shortest (he : e.Canonical) (hpos : 0 < e.mantissa) :
    ∀ c ∈ (digits (shortest l.tie e).coefficient).head?, c ≠ '0' := by
  have hne := (Decimal.exponent_bounds he hpos (shortest_rounds l.tie hpos).2).1
  exact head_digits_ne (Nat.pos_of_ne_zero hne)

/-- **The text of a finite float is a number of JSON.** -/
theorem Layout.isJson_literal (he : e.Canonical) : (l.literal e).isJson := by
  rw [Layout.literal]
  split
  · cases l.point <;> cases e.negative <;> rfl
  · rename_i hne
    have hhead := head_digits_shortest l he (Nat.pos_of_ne_zero hne)
    simp only
    split
    · exact isJson_positionalLiteral (signOf_ne_plus _) (digits_ne_nil _) hhead
    · exact isJson_scientificLiteral (signOf_ne_plus _) (digits_ne_nil _) hhead

/-- A layout that writes a point on whole numbers writes no integers. -/
theorem Layout.isInteger_literal (hpoint : l.point = true) : (l.literal e).isInteger = false := by
  rw [Layout.literal]
  split
  · rw [hpoint]
    rfl
  · simp only
    split
    · rw [positionalLiteral]
      split
      · rw [hpoint]
        rfl
      · split <;> rfl
    · exact Bool.and_false _

lemma negative_decimal_literal : (l.literal e).decimal.negative = e.negative := by
  have hsign : (l.literal e).sign = signOf e.negative := by
    rw [Layout.literal]
    split
    · rfl
    · simp only
      split
      · rw [positionalLiteral]
        split
        · rfl
        · split <;> rfl
      · rfl
  show ((l.literal e).sign == some '-') = e.negative
  rw [hsign]
  cases e.negative <;> rfl

lemma value_literal (hpos : 0 < e.mantissa) :
    (l.literal e).decimal.value = (shortest l.tie e).value := by
  have hread : Nat.ofDigitChars 10 (digits (shortest l.tie e).coefficient) 0 =
      (shortest l.tie e).coefficient :=
    Nat.ofDigitChars_ten_toDigits
  have hlength := List.length_pos_of_ne_nil (digits_ne_nil (shortest l.tie e).coefficient)
  rw [Layout.literal, if_neg hpos.ne']
  simp only
  split
  · rw [value_positionalLiteral (allDigits_digits _) (isSign_signOf _), hread]
    rfl
  · rw [value_scientificLiteral (allDigits_digits _) (isSign_signOf _), hread, Decimal.value,
      List.length_drop]
    congr 2
    omega

/-- **The decimal that the text of a finite float stands for is read as this float.** -/
theorem Layout.toFloat_literal (he : e.Canonical) : (l.literal e).decimal.toFloat = ofExact e := by
  rcases Nat.eq_zero_or_pos e.mantissa with hzero | hpos
  · have hscale : e.scale = 0 := by
      by_contra hne
      have := he.leading (Nat.pos_of_ne_zero hne)
      omega
    have hcoefficient : (l.literal e).decimal.coefficient = 0 := by
      rw [Layout.literal, if_pos hzero]
      cases l.point <;> rfl
    rw [Decimal.toFloat, if_pos hcoefficient, negative_decimal_literal,
      nearest_zero hzero hscale]
  · refine Decimal.toFloat_of_rounds he hpos (negative_decimal_literal l) ?_
    rw [value_literal l hpos]
    exact (shortest_rounds l.tie hpos).2

end Layouts

end MessageCatalog.Number
