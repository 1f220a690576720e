/-
How integers are spelled and written, and that they are read back.

* `Padded`, `SpelledAs`: the spellings of a number, with zeros in front and with a sign;
* `ofDigits?_eq_some_iff`, `int64?_eq_some_iff`: numbers are read from their spellings, and from
  nothing else;
* `spelledAs_intText`, `uint32?_digits`: what is written is a spelling, and is read back;
* `ofList_intText`: an integer is written as the standard library writes it;
* `isDigit_of_mem_intText`: the characters that written integers are made of.
-/
import Mathlib
import MessageCatalog.Number.Integer

namespace MessageCatalog.Number

/-! ### Digits -/

lemma isDigit_of_mem_digits {n : Nat} {c : Char} (h : c ∈ digits n) : c.isDigit = true :=
  Nat.isDigit_of_mem_toDigits (by decide) (by decide) h

lemma digits_ne_nil (n : Nat) : digits n ≠ [] :=
  Nat.toDigits_ne_nil

/-- A row of digits is read as a number in base ten. -/
lemma accumulate_eq {cs : List Char} (h : ∀ c ∈ cs, c.isDigit = true) (value : Nat) :
    accumulate value cs = some (Nat.ofDigitChars 10 cs value) := by
  induction cs generalizing value with
  | nil => rfl
  | cons c cs ih =>
      have hc : c.isDigit = true := h c List.mem_cons_self
      rw [accumulate, if_pos hc, ih fun d hd => h d (List.mem_cons_of_mem c hd)]
      rfl

/-- Digits start with a digit, so that no sign is taken off them. -/
lemma digits_eq_cons (n : Nat) : ∃ c cs, digits n = c :: cs ∧ c.isDigit = true := by
  cases hdigits : digits n with
  | nil => exact absurd hdigits (digits_ne_nil n)
  | cons c cs =>
      have hmem : c ∈ digits n := hdigits ▸ List.mem_cons_self
      exact ⟨c, cs, rfl, isDigit_of_mem_digits hmem⟩

/-! ### Spellings -/

/-- The digits of a natural number behind any number of zeros. -/
def Padded (n : Nat) (cs : List Char) : Prop :=
  ∃ zeros, cs = List.replicate zeros '0' ++ digits n

/-- The spellings of an integer: at most one sign, then its digits behind any number of zeros. The
plus sign goes with numbers that are not negative, and the minus sign with those that are not
positive. -/
inductive SpelledAs : Int → List Char → Prop where
  | plain {n : Nat} {cs : List Char} : Padded n cs → SpelledAs n cs
  | plus {n : Nat} {cs : List Char} : Padded n cs → SpelledAs n ('+' :: cs)
  | minus {n : Nat} {cs : List Char} : Padded n cs → SpelledAs (-n) ('-' :: cs)

lemma Padded.isDigit {n : Nat} {cs : List Char} (h : Padded n cs) :
    ∀ c ∈ cs, c.isDigit = true := by
  obtain ⟨zeros, rfl⟩ := h
  intro c hc
  rcases List.mem_append.mp hc with hc | hc
  · obtain rfl := List.eq_of_mem_replicate hc
    decide
  · exact isDigit_of_mem_digits hc

lemma Padded.ne_nil {n : Nat} {cs : List Char} (h : Padded n cs) : cs ≠ [] := by
  obtain ⟨zeros, rfl⟩ := h
  exact List.append_ne_nil_of_right_ne_nil _ (digits_ne_nil n)

lemma ofDigits?_of_ne_nil {cs : List Char} (h : cs ≠ []) : ofDigits? cs = accumulate 0 cs := by
  cases cs with
  | nil => exact absurd rfl h
  | cons c cs => rfl

/-- A digit is the one of its value. -/
lemma digits_of_isDigit {c : Char} (h : c.isDigit = true) : digits (c.toNat - 48) = [c] := by
  obtain ⟨hlow, hhigh⟩ := Char.isDigit_iff_toNat.mp h
  replace hlow : 48 ≤ c.toNat := hlow
  replace hhigh : c.toNat ≤ 57 := hhigh
  rw [digits, Nat.toDigits_of_lt_base (by omega)]
  refine congrArg (fun d => [d]) (Char.toNat_inj.mp ?_)
  rw [Nat.toNat_digitChar_of_lt_ten (by omega)]
  omega

/-- Digits that are read onto a positive number stand behind the digits of this number. -/
lemma digits_append_of_accumulate {cs : List Char} {value n : Nat} (hvalue : 0 < value)
    (h : accumulate value cs = some n) : digits value ++ cs = digits n := by
  induction cs generalizing value with
  | nil =>
      obtain rfl := Option.some.inj h
      exact List.append_nil _
  | cons c cs ih =>
      rw [accumulate] at h
      split at h
      · rename_i hc
        have hdigit := digits_of_isDigit hc
        have hlt : c.toNat - 48 < 10 := by
          have hhigh : c.toNat ≤ 57 := (Char.isDigit_iff_toNat.mp hc).2
          omega
        have hnext : digits value ++ [c] = digits (10 * value + (c.toNat - 48)) := by
          rw [← hdigit]
          exact Nat.toDigits_append_toDigits (by decide) hvalue hlt
        calc digits value ++ c :: cs = digits value ++ [c] ++ cs := by simp
          _ = digits (10 * value + (c.toNat - 48)) ++ cs := by rw [hnext]
          _ = digits n := ih (by omega) h
      · cases h

/-- Whatever row of digits is read as a number, it is the digits of this number behind zeros. -/
lemma padded_of_accumulate {cs : List Char} (hne : cs ≠ []) {n : Nat}
    (h : accumulate 0 cs = some n) : Padded n cs := by
  induction cs with
  | nil => exact absurd rfl hne
  | cons c cs ih =>
      rw [accumulate] at h
      split at h
      · rename_i hc
        rw [Nat.mul_zero, Nat.zero_add] at h
        by_cases hzero : c.toNat - 48 = 0
        · -- A zero in front is one more zero, unless it is the only digit.
          have hchar : c = '0' := List.singleton_injective ((digits_of_isDigit hc).symm.trans
            (congrArg digits hzero))
          subst hchar
          cases cs with
          | nil =>
              obtain rfl := Option.some.inj h
              exact ⟨0, rfl⟩
          | cons d ds =>
              obtain ⟨zeros, hzeros⟩ := ih (List.cons_ne_nil d ds) h
              exact ⟨zeros + 1, by rw [hzeros, List.replicate_succ, List.cons_append]⟩
        · refine ⟨0, ?_⟩
          have happend := digits_append_of_accumulate (Nat.pos_of_ne_zero hzero) h
          rw [digits_of_isDigit hc] at happend
          exact happend
      · cases h

/-- **Rows of digits are read as the numbers whose digits they are**, with any number of zeros in
front of them. -/
theorem ofDigits?_eq_some_iff {cs : List Char} {n : Nat} :
    ofDigits? cs = some n ↔ Padded n cs := by
  constructor
  · intro h
    have hne : cs ≠ [] := by
      rintro rfl
      cases h
    rw [ofDigits?_of_ne_nil hne] at h
    exact padded_of_accumulate hne h
  · intro h
    rw [ofDigits?_of_ne_nil h.ne_nil, accumulate_eq h.isDigit]
    obtain ⟨zeros, rfl⟩ := h
    rw [Nat.ofDigitChars_append, Nat.ofDigitChars_replicate_zero, Nat.mul_zero, digits,
      Nat.ofDigitChars_ten_toDigits]

lemma ofDigits?_digits (n : Nat) : ofDigits? (digits n) = some n :=
  ofDigits?_eq_some_iff.mpr ⟨0, rfl⟩

lemma Padded.head_ne {n : Nat} {cs : List Char} (h : Padded n cs) {c : Char}
    (hc : c.isDigit = false) (rest : List Char) : cs ≠ c :: rest := by
  rintro rfl
  have hdigit := h.isDigit c List.mem_cons_self
  rw [hc] at hdigit
  cases hdigit

/-- A sign is put in front of a number that has been read. -/
lemma signed_eq_some {magnitude : Option Nat} {sign : Int → Int} {n : Int} :
    (Option.map sign do let m ← magnitude; pure (m : Int)) = some n ↔
      ∃ m : Nat, magnitude = some m ∧ sign m = n := by
  cases magnitude with
  | none => simp
  | some m => simp

/-- **Integers are read from their spellings, and from nothing else**, within the signed 64-bit
range. -/
theorem int64?_eq_some_iff {cs : List Char} {n : Int} :
    int64? cs = some n ↔ SpelledAs n cs ∧ inInt64 n = true := by
  rw [int64?.eq_def]
  simp only [Option.filter_eq_some_iff]
  refine and_congr_left fun _ => ⟨fun h => ?_, fun h => ?_⟩
  · split at h
    · obtain ⟨m, hm, rfl⟩ := signed_eq_some.mp h
      exact .minus (ofDigits?_eq_some_iff.mp hm)
    · obtain ⟨m, hm, rfl⟩ := signed_eq_some.mp h
      exact .plus (ofDigits?_eq_some_iff.mp hm)
    · obtain ⟨m, hm, rfl⟩ := signed_eq_some.mp h
      exact .plain (ofDigits?_eq_some_iff.mp hm)
  · cases h with
    | plain hcs =>
        split
        · exact absurd rfl (hcs.head_ne (by decide) _)
        · exact absurd rfl (hcs.head_ne (by decide) _)
        · exact signed_eq_some.mpr ⟨_, ofDigits?_eq_some_iff.mpr hcs, rfl⟩
    | plus hcs => exact signed_eq_some.mpr ⟨_, ofDigits?_eq_some_iff.mpr hcs, rfl⟩
    | minus hcs => exact signed_eq_some.mpr ⟨_, ofDigits?_eq_some_iff.mpr hcs, rfl⟩

/-- An integer is written as one of its spellings. -/
lemma spelledAs_intText (n : Int) : SpelledAs n (intText n) := by
  have hdigits : Padded n.natAbs (digits n.natAbs) := ⟨0, rfl⟩
  rw [intText]
  split
  · have hn : n = -(n.natAbs : Int) := by omega
    rw [hn, Int.natAbs_neg, Int.natAbs_natCast]
    exact .minus hdigits
  · have hn : n = (n.natAbs : Int) := by omega
    rw [hn, Int.natAbs_natCast]
    exact .plain hdigits

/-! ### Numbers with a bound -/

theorem uint32?_digits {n : Nat} (h : n < 2 ^ 32) : uint32? (digits n) = some n := by
  have hdigits : Padded n (digits n) := ⟨0, rfl⟩
  simp only [uint32?]
  split
  · rename_i rest heq
    exact absurd heq (hdigits.head_ne (by decide) rest)
  · rw [ofDigits?_digits]
    exact Option.filter_eq_some_iff.mpr ⟨rfl, decide_eq_true h⟩

/-- An integer is written as the standard library writes it. -/
theorem ofList_intText (n : Int) : String.ofList (intText n) = toString n := by
  cases n with
  | ofNat n =>
      have hnonneg : ¬Int.ofNat n < 0 := Int.not_lt.mpr (Int.natCast_nonneg n)
      rw [intText, if_neg hnonneg]
      rfl
  | negSucc n =>
      rw [intText, if_pos (Int.negSucc_lt_zero n), String.ofList_cons]
      rfl

/-- A written integer consists of digits, and of a minus sign if it is negative. -/
lemma isDigit_of_mem_intText {n : Int} {c : Char} (h : c ∈ intText n) :
    c = '-' ∨ c.isDigit = true := by
  rw [intText] at h
  split at h
  · rcases List.mem_cons.mp h with rfl | h
    · exact .inl rfl
    · exact .inr (isDigit_of_mem_digits h)
  · exact .inr (isDigit_of_mem_digits h)

end MessageCatalog.Number
