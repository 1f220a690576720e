/-
Number texts: their parts, and the decimals that they spell.

* `Literal.text`: the parts of a number text put together again;
* `scan?_text`: the parts are found in it;
* `decimal_value`: the value of a number text in terms of all its digits.
-/
import MessageCatalog.Proofs.Number.Integer
import MessageCatalog.Proofs.Number.Shortest

namespace MessageCatalog.Number

/-! ### Texts and their parts -/

/-- A row of decimal digits. -/
def AllDigits (cs : List Char) : Prop :=
  ∀ c ∈ cs, c.isDigit = true

/-- A sign, if there is one. -/
def IsSign (sign : Option Char) : Prop :=
  sign = none ∨ sign = some '+' ∨ sign = some '-'

/-- The parts that a number text can have. -/
structure Literal.WellFormed (l : Literal) : Prop where
  sign : IsSign l.sign
  whole : AllDigits l.whole
  fraction : ∀ ds ∈ l.fraction, AllDigits ds
  exponent : ∀ p ∈ l.exponent, IsSign p.1 ∧ AllDigits p.2

/-- The text of an exponent. -/
def exponentText : Option (Option Char × List Char) → List Char
  | none => []
  | some (sign, ds) => 'e' :: (sign.toList ++ ds)

/-- The text of the digits after a point. -/
def fractionText : Option (List Char) → List Char
  | none => []
  | some ds => '.' :: ds

/-- The text that has some parts. -/
def Literal.text (l : Literal) : List Char :=
  l.sign.toList ++ (l.whole ++ (fractionText l.fraction ++ exponentText l.exponent))

/-- Digits end where a character comes that is none. -/
def StopsDigits (cs : List Char) : Prop :=
  ∀ c ∈ cs.head?, c.isDigit = false

lemma takeWhile_digits {ds rest : List Char} (hds : AllDigits ds) (hrest : StopsDigits rest) :
    (ds ++ rest).takeWhile Char.isDigit = ds ∧ (ds ++ rest).dropWhile Char.isDigit = rest := by
  rw [List.takeWhile_append_of_pos hds, List.dropWhile_append_of_pos hds]
  cases rest with
  | nil => simp
  | cons c rest =>
      have hc : c.isDigit = false := hrest c rfl
      simp [hc]

/-- What does not start with a sign has none. -/
lemma takeSign_of_head {cs : List Char} (h : ∀ c ∈ cs.head?, c ≠ '+' ∧ c ≠ '-') :
    takeSign cs = (none, cs) := by
  cases cs with
  | nil => rfl
  | cons c cs =>
      obtain ⟨hplus, hminus⟩ := h c rfl
      rw [takeSign]
      · rintro rest heq
        exact hplus (List.cons.inj heq).1
      · rintro rest heq
        exact hminus (List.cons.inj heq).1

lemma takeSign_append {sign : Option Char} (hsign : IsSign sign) {rest : List Char}
    (hrest : ∀ c ∈ rest.head?, c ≠ '+' ∧ c ≠ '-') :
    takeSign (sign.toList ++ rest) = (sign, rest) := by
  rcases hsign with rfl | rfl | rfl
  · exact takeSign_of_head hrest
  · rfl
  · rfl

lemma stopsDigits_exponentText (exponent : Option (Option Char × List Char)) :
    StopsDigits (exponentText exponent) := by
  cases exponent with
  | none => exact fun c h => nomatch h
  | some p =>
      rintro c h
      obtain rfl := Option.some.inj h
      decide

lemma stopsDigits_fractionText (fraction : Option (List Char))
    (exponent : Option (Option Char × List Char)) :
    StopsDigits (fractionText fraction ++ exponentText exponent) := by
  cases fraction with
  | none => exact stopsDigits_exponentText exponent
  | some ds =>
      rintro c h
      obtain rfl := Option.some.inj h
      decide

lemma not_sign_of_isDigit {c : Char} (h : c.isDigit = true) : c ≠ '+' ∧ c ≠ '-' := by
  constructor
  · rintro rfl
    exact absurd h (by decide)
  · rintro rfl
    exact absurd h (by decide)

/-- No sign comes after the sign of a number text. -/
lemma Literal.WellFormed.head_ne {l : Literal} (h : l.WellFormed) :
    ∀ c ∈ (l.whole ++ (fractionText l.fraction ++ exponentText l.exponent)).head?,
      c ≠ '+' ∧ c ≠ '-' := by
  obtain ⟨sign, whole, fraction, exponent⟩ := l
  intro c hc
  cases whole with
  | cons d ds =>
      obtain rfl := Option.some.inj hc
      exact not_sign_of_isDigit (h.whole _ List.mem_cons_self)
  | nil =>
      cases fraction with
      | some ds =>
          obtain rfl := Option.some.inj hc
          decide
      | none =>
          cases exponent with
          | none => cases hc
          | some p =>
              obtain rfl := Option.some.inj hc
              decide

lemma takeWhile_of_allDigits {ds : List Char} (h : AllDigits ds) :
    ds.takeWhile Char.isDigit = ds ∧ ds.dropWhile Char.isDigit = [] := by
  have htake : (ds ++ []).takeWhile Char.isDigit = ds ∧ (ds ++ []).dropWhile Char.isDigit = [] :=
    takeWhile_digits h fun c hc => nomatch hc
  rwa [List.append_nil] at htake

/-- **The parts of a number text are found in it.** -/
theorem scan?_text {l : Literal} (h : l.WellFormed) : Literal.scan? l.text = some l := by
  have hsign := takeSign_append h.sign h.head_ne
  have hwhole := takeWhile_digits h.whole (stopsDigits_fractionText l.fraction l.exponent)
  obtain ⟨sign, whole, fraction, exponent⟩ := l
  simp only at hsign hwhole
  simp only [Literal.scan?, Literal.text, hsign, hwhole.1, hwhole.2]
  have hexponent (es : Option Char × List Char) (he : exponent = some es) :
      takeSign (es.1.toList ++ es.2) = es ∧
        es.2.takeWhile Char.isDigit = es.2 ∧ es.2.dropWhile Char.isDigit = [] := by
    obtain ⟨hs, hds⟩ := h.exponent es he
    refine ⟨takeSign_append hs fun c hc => ?_, takeWhile_of_allDigits hds⟩
    exact not_sign_of_isDigit (hds c (List.mem_of_mem_head? hc))
  -- Each part ends where the next one starts, with a character that is no digit.
  cases fraction with
  | none =>
      cases exponent with
      | none => rfl
      | some es =>
          obtain ⟨hs, htake, hdrop⟩ := hexponent es rfl
          simp [fractionText, exponentText, hs, htake, hdrop]
  | some ds =>
      cases exponent with
      | none =>
          obtain ⟨hds, hrest⟩ := takeWhile_of_allDigits (h.fraction ds rfl)
          simp [fractionText, exponentText, hds, hrest]
      | some es =>
          obtain ⟨hds, hrest⟩ := takeWhile_digits (h.fraction ds rfl)
            (stopsDigits_exponentText (some es))
          obtain ⟨hs, htake, hdrop⟩ := hexponent es rfl
          rw [exponentText] at hds hrest
          simp [fractionText, exponentText, hds, hrest, hs, htake, hdrop]

/-! ### Values -/

/-- The power of ten that an exponent announces. -/
def exponentValue : Option (Option Char × List Char) → Int
  | none => 0
  | some (sign, ds) =>
    if sign = some '-' then -(Nat.ofDigitChars 10 ds 0 : Int) else Nat.ofDigitChars 10 ds 0

/-- All digits of a number text, before and after the point. -/
def Literal.allDigits (l : Literal) : List Char :=
  l.whole ++ l.fraction.getD []

/-- Digits are what is left of them without the zeros at their end, and these zeros. -/
lemma take_append_zeros (ds : List Char) :
    ds.take (ds.length - (ds.reverse.takeWhile (· == '0')).length) ++
      List.replicate (ds.reverse.takeWhile (· == '0')).length '0' = ds := by
  obtain ⟨kept, zeros, hkept, hzeros⟩ : ∃ kept zeros,
      kept = (ds.reverse.dropWhile (· == '0')).reverse ∧
        zeros = (ds.reverse.takeWhile (· == '0')).reverse :=
    ⟨_, _, rfl, rfl⟩
  have hlength : (ds.reverse.takeWhile (· == '0')).length = zeros.length := by
    rw [hzeros, List.length_reverse]
  have hsplit : ds = kept ++ zeros := by
    rw [hkept, hzeros, ← List.reverse_append, List.takeWhile_append_dropWhile,
      List.reverse_reverse]
  have hreplicate : zeros = List.replicate zeros.length '0' := by
    rw [List.eq_replicate_iff]
    refine ⟨rfl, fun c hc => ?_⟩
    rw [hzeros, List.mem_reverse] at hc
    exact eq_of_beq (List.all_eq_true.mp List.all_takeWhile c hc)
  rw [hlength, ← hreplicate]
  conv_lhs => rw [hsplit]
  rw [List.length_append, Nat.add_sub_cancel, List.take_left']
  · exact hsplit.symm
  · rfl

lemma getD_accumulate {ds : List Char} (h : AllDigits ds) :
    (accumulate 0 ds).getD 0 = Nat.ofDigitChars 10 ds 0 := by
  rw [accumulate_eq h, Option.getD_some]

lemma Literal.WellFormed.allDigits {l : Literal} (h : l.WellFormed) : AllDigits l.allDigits := by
  intro c hc
  rcases List.mem_append.mp hc with hc | hc
  · exact h.whole c hc
  · cases hfraction : l.fraction with
    | none =>
        rw [hfraction] at hc
        cases hc
    | some ds =>
        rw [hfraction] at hc
        exact h.fraction ds hfraction c hc

/-- **A number text stands for its digits without the point, times a power of ten.** -/
theorem Literal.decimal_value {l : Literal} (h : l.WellFormed) :
    l.decimal.value = (Nat.ofDigitChars 10 l.allDigits 0 : ℚ) *
      10 ^ (exponentValue l.exponent - ((l.fraction.getD []).length : Int)) := by
  have hexponent : l.decimal.exponent = exponentValue l.exponent -
      ((l.fraction.getD []).length : Int) +
        ((l.allDigits.reverse.takeWhile (· == '0')).length : Int) := by
    obtain ⟨sign, whole, fraction, exponent⟩ := l
    cases exponent with
    | none => rfl
    | some p =>
        have hds := getD_accumulate (h.exponent p rfl).2
        simp [Literal.decimal, exponentValue, Literal.allDigits, hds]
  -- Zeros at the end of the digits are left out of the coefficient and added to the exponent.
  have hsplit := take_append_zeros l.allDigits
  have hkept : l.decimal.coefficient = Nat.ofDigitChars 10
      (l.allDigits.take
        (l.allDigits.length - (l.allDigits.reverse.takeWhile (· == '0')).length)) 0 :=
    getD_accumulate fun c hc => h.allDigits c (List.mem_of_mem_take hc)
  have hdigits : Nat.ofDigitChars 10 l.allDigits 0 =
      10 ^ (l.allDigits.reverse.takeWhile (· == '0')).length * l.decimal.coefficient := by
    conv_lhs => rw [← hsplit]
    rw [Nat.ofDigitChars_append, Nat.ofDigitChars_replicate_zero, hkept]
  rw [Decimal.value, hexponent, hdigits, zpow_add₀ (by norm_num), zpow_natCast]
  push_cast
  ring

end MessageCatalog.Number
