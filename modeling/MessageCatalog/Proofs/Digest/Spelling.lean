/-
Which texts are texts of hashes.

Hashes are written in one way and read in several: the digits may have either case, the name of the
algorithm may be missing, and there may be white space around the whole. Nothing else is read.

* `IsDigit`, `Spells`: the digits of a value, and the bytes that pairs of digits spell;
* `bytesOfHex?_eq_some`: these bytes are read, and no others;
* `Spells.hexText_eq`: they are written in lower case;
* `Writes`: the texts of sixty-four digits;
* `verify_eq_hash`: a module is rejected if no hash is read from the text in its place;
* `text_exact`: what is written, what is read, and what it means.
-/
import MessageCatalog.Module.Load
import MessageCatalog.Proofs.Digest.Hash

namespace MessageCatalog.Digest

/-! ### Digits -/

/-- A hexadecimal digit of either case for a value. -/
def IsDigit (c : Char) (value : ℕ) : Prop :=
  value < 16 ∧ c.toLower = Nat.digitChar value

lemma toNat_lt_of_toLower {c : Char} (h : c.toLower.toNat < 128) : c.toNat < 128 := by
  rw [Char.toLower] at h
  split at h
  · rename_i hupper
    have hle := UInt32.le_iff_toNat_le.mp hupper.2
    exact lt_of_le_of_lt hle (by decide)
  · exact h

lemma toNat_lt_of_hexDigit? {c : Char} {value : ℕ} (h : Text.hexDigit? c = some value) :
    c.toNat < 128 ∧ value < 16 := by
  simp only [Text.hexDigit?, Char.le_def, UInt32.le_iff_toNat_le] at h
  change (if 48 ≤ c.toNat ∧ c.toNat ≤ 57 then _ else if 97 ≤ c.toNat ∧ c.toNat ≤ 102 then _
    else if 65 ≤ c.toNat ∧ c.toNat ≤ 70 then _ else _) = _ at h
  split_ifs at h with hdigit hlower hupper <;>
    (obtain rfl := Option.some.inj h; omega)

/-- **The characters that are read as digits are the digits.** -/
theorem hexDigit?_eq_some {c : Char} {value : ℕ} :
    Text.hexDigit? c = some value ↔ IsDigit c value := by
  have table : ∀ n : Fin 128, ∀ d : Fin 16, Text.hexDigit? (Char.ofNat n) = some d.val ↔
      (Char.ofNat n).toLower = Nat.digitChar d := by decide +kernel
  have hdigits : ∀ d : Fin 16, (Nat.digitChar d).toNat < 128 := by decide
  constructor
  · intro h
    obtain ⟨hc, hvalue⟩ := toNat_lt_of_hexDigit? h
    have hentry := table ⟨c.toNat, hc⟩ ⟨value, hvalue⟩
    rw [Char.ofNat_toNat] at hentry
    exact ⟨hvalue, hentry.mp h⟩
  · rintro ⟨hvalue, h⟩
    have hc : c.toNat < 128 := toNat_lt_of_toLower (h ▸ hdigits ⟨value, hvalue⟩)
    have hentry := table ⟨c.toNat, hc⟩ ⟨value, hvalue⟩
    rw [Char.ofNat_toNat] at hentry
    exact hentry.mpr h

lemma byte_lt {high low : Char} {h l : ℕ} (hhigh : IsDigit high h) (hlow : IsDigit low l) :
    16 * h + l < UInt8.size := by
  have := hhigh.1
  have := hlow.1
  rw [UInt8.size]
  omega

/-! ### Bytes -/

/-- The bytes that digits spell, each one by two digits, the high one first. -/
inductive Spells : List Char → List UInt8 → Prop where
  | nil : Spells [] []
  | cons {high low : Char} {h l : ℕ} {byte : UInt8} {digits : List Char} {bytes : List UInt8} :
      IsDigit high h → IsDigit low l → byte.toNat = 16 * h + l → Spells digits bytes →
        Spells (high :: low :: digits) (byte :: bytes)

/-- **What is read are the bytes that the digits spell.** -/
theorem bytesOfHex?_eq_some {digits : List Char} {bytes : List UInt8} :
    bytesOfHex? digits = some bytes ↔ Spells digits bytes := by
  constructor
  · intro h
    induction digits using bytesOfHex?.induct generalizing bytes with
    | case1 => obtain rfl := Option.some.inj h; exact .nil
    | case2 => cases h
    | case3 high low rest h' l hlow hhigh ih =>
        rw [bytesOfHex?, hhigh, hlow] at h
        obtain ⟨others, hothers, rfl⟩ := Option.map_eq_some_iff.mp h
        have hh := hexDigit?_eq_some.mp hhigh
        have hl := hexDigit?_eq_some.mp hlow
        exact .cons hh hl (UInt8.toNat_ofNat_of_lt (byte_lt hh hl)) (ih hothers)
    | case4 high low rest hnone =>
        rw [bytesOfHex?] at h
        split at h
        · rename_i h' l hhigh hlow
          exact absurd hlow (hnone h' l hhigh)
        · cases h
  · intro h
    induction h with
    | nil => rfl
    | cons hhigh hlow hbyte _ ih =>
        rw [bytesOfHex?, hexDigit?_eq_some.mpr hhigh, hexDigit?_eq_some.mpr hlow]
        simp only [ih, Option.map_some, ← hbyte, UInt8.ofNat_toNat]

namespace Spells

variable {digits : List Char} {bytes : List UInt8}

lemma length_eq (h : Spells digits bytes) : digits.length = 2 * bytes.length := by
  induction h with
  | nil => rfl
  | cons _ _ _ _ ih => rw [List.length_cons, List.length_cons, ih, List.length_cons]; omega

lemma isDigit_of_mem (h : Spells digits bytes) : ∀ c ∈ digits, ∃ value, IsDigit c value := by
  induction h with
  | nil => exact fun _ hc => nomatch hc
  | cons hhigh hlow _ _ ih =>
      exact List.forall_mem_cons.mpr ⟨⟨_, hhigh⟩, List.forall_mem_cons.mpr ⟨⟨_, hlow⟩, ih⟩⟩

/-- **Bytes are written in the lower case of the digits that spell them.** -/
theorem hexText_eq (h : Spells digits bytes) : hexText bytes = digits.map Char.toLower := by
  induction h with
  | nil => rfl
  | @cons high low h l byte digits bytes hhigh hlow hbyte _ ih =>
      have hlt := hlow.1
      have hdigits : byteDigits byte = [high.toLower, low.toLower] := by
        rw [byteDigits, hbyte, hhigh.2, hlow.2, Text.hexChar, Text.hexChar]
        congr 2 <;> congr 1 <;> omega
      show byteDigits byte ++ hexText bytes = _
      rw [hdigits, ih]
      rfl

/-- An even number of digits spells bytes. -/
theorem exists_of_even : ∀ {digits : List Char}, (∀ c ∈ digits, ∃ value, IsDigit c value) →
    digits.length % 2 = 0 → ∃ bytes, Spells digits bytes
  | [], _, _ => ⟨[], .nil⟩
  | [_], _, hlength => absurd hlength Nat.one_ne_zero
  | high :: low :: rest, hdigits, hlength => by
      obtain ⟨⟨h, hhigh⟩, hdigits⟩ := List.forall_mem_cons.mp hdigits
      obtain ⟨⟨l, hlow⟩, hdigits⟩ := List.forall_mem_cons.mp hdigits
      obtain ⟨bytes, hbytes⟩ := exists_of_even hdigits
        (by rwa [List.length_cons, List.length_cons, Nat.add_assoc, Nat.add_mod_right] at hlength)
      exact ⟨_, .cons hhigh hlow (UInt8.toNat_ofNat_of_lt (byte_lt hhigh hlow)) hbytes⟩

end Spells

/-! ### Hashes -/

namespace Hash

/-- The texts with sixty-four digits: nothing else is in them, except for the name of the algorithm
in front, which may stand there once, and white space at both ends. -/
structure Writes (text : String) (digits : List Char) : Prop where
  length : digits.length = 64
  digit : ∀ c ∈ digits, ∃ value, IsDigit c value
  text_eq : Text.trim text = String.ofList digits ∨
    Text.trim text = "sha256:" ++ String.ofList digits

variable {text : String} {digits : List Char}

lemma toList_label : "sha256:".toList = label :=
  String.toList_ofList

lemma withoutLabel_of_forall (h : ∀ c ∈ digits, ∃ value, IsDigit c value) :
    withoutLabel digits = digits := by
  have hprefix : ¬ label.isPrefixOf digits = true := by
    intro hlabel
    obtain ⟨rest, rfl⟩ := List.isPrefixOf_iff_prefix.mp hlabel
    obtain ⟨value, hvalue⟩ := h 's' (by simp [label])
    cases hexDigit?_eq_some.mpr hvalue
  rw [withoutLabel, if_neg hprefix]

/-- The name of the algorithm is taken off once. -/
lemma withoutLabel_eq (cs : List Char) :
    cs = withoutLabel cs ∨ cs = label ++ withoutLabel cs := by
  rw [withoutLabel]
  split
  · rename_i hlabel
    exact .inr (List.prefix_iff_eq_append.mp (List.isPrefixOf_iff_prefix.mp hlabel)).symm
  · exact .inl rfl

/-- A hash is read from digits only. -/
lemma writes_of_ofText? {hash : Hash} (h : ofText? text = some hash) :
    Writes text (withoutLabel (Text.trimChars text.toList)) := by
  rw [ofText?] at h
  obtain ⟨bytes, hbytes, hhash⟩ := Option.bind_eq_some_iff.mp h
  have hspells := bytesOfHex?_eq_some.mp hbytes
  have hsize : bytes.length = 32 := by
    rw [ofBytes?] at hhash
    split at hhash
    · assumption
    · cases hhash
  refine ⟨by rw [hspells.length_eq, hsize], hspells.isDigit_of_mem, ?_⟩
  rcases withoutLabel_eq (Text.trimChars text.toList) with h | h
  · exact .inl (congrArg String.ofList h)
  · refine .inr (String.toList_injective ?_)
    rwa [Text.trim, String.toList_append, toList_label, String.toList_ofList, String.toList_ofList]

/-- A hash is read from all sixty-four digits, and it has the bytes that they spell. -/
lemma Writes.ofText? (h : Writes text digits) :
    ∃ hash, Hash.ofText? text = some hash ∧ Spells digits hash.bytes := by
  obtain ⟨bytes, hbytes⟩ := Spells.exists_of_even h.digit (by rw [h.length])
  have hsize : bytes.length = 32 := by
    have hlength := hbytes.length_eq
    rw [h.length] at hlength
    omega
  have hdigits : withoutLabel (Text.trimChars text.toList) = digits := by
    rcases h.text_eq with htext | htext
    · have hcs : Text.trimChars text.toList = digits := String.ofList_injective htext
      rw [hcs, withoutLabel_of_forall h.digit]
    · have hcs : Text.trimChars text.toList = label ++ digits := by
        have hlist := congrArg String.toList htext
        rwa [Text.trim, String.toList_append, toList_label, String.toList_ofList,
          String.toList_ofList] at hlist
      rw [hcs, withoutLabel_label]
  refine ⟨⟨bytes, hsize⟩, ?_, hbytes⟩
  rw [Hash.ofText?, hdigits, bytesOfHex?_eq_some.mpr hbytes, Option.bind_some, ofBytes?,
    dif_pos hsize]

/-- A module with a supported runtime is rejected for the text of its hash if and only if no hash
is read from it. -/
lemma verify_eq_hash {m : Module} (h : m.runtime.isSupported = true) :
    m.verify = .error .hash ↔ Hash.ofText? m.digest = none := by
  rw [Module.verify, h]
  cases hhash : Hash.ofText? m.digest with
  | none => exact ⟨fun _ => rfl, fun _ => rfl⟩
  | some hash =>
      refine ⟨fun herror => ?_, fun hnone => nomatch hnone⟩
      simp only [Bool.not_true, Bool.false_eq_true, if_false] at herror
      split_ifs at herror
      cases herror

/-- **The text of hashes.** Every hash is read back from its text. A text is read if and only if it
is made of sixty-four digits of either case, with the name of the algorithm at most once in front of
them and with any white space around the whole; then it is read as the bytes that these digits
spell, which are written with the name and with the same digits in lower case. A module with any
other text in the place of its hash is rejected for it. -/
theorem text_exact :
    (∀ hash : Hash, Hash.ofText? hash.text = some hash) ∧
    (∀ text, (∃ hash, Hash.ofText? text = some hash) ↔ ∃ digits, Writes text digits) ∧
    (∀ text digits, Writes text digits → ∃ hash, Hash.ofText? text = some hash ∧
      Spells digits hash.bytes ∧
        hash.text = "sha256:" ++ String.ofList (digits.map Char.toLower)) ∧
    ∀ m : Module, m.runtime.isSupported = true →
      (m.verify = .error .hash ↔ ¬ ∃ digits, Writes m.digest digits) := by
  have hread : ∀ text, (∃ hash, Hash.ofText? text = some hash) ↔ ∃ digits, Writes text digits :=
    fun text => ⟨fun ⟨_, h⟩ => ⟨_, writes_of_ofText? h⟩, fun ⟨_, h⟩ =>
      h.ofText?.imp fun _ h => h.1⟩
  refine ⟨ofText?_text, hread, fun text digits h => ?_, fun m hruntime => ?_⟩
  · obtain ⟨hash, hhash, hspells⟩ := h.ofText?
    refine ⟨hash, hhash, hspells, String.toList_injective ?_⟩
    rw [Hash.text, hspells.hexText_eq, String.toList_append, toList_label, String.toList_ofList,
      String.toList_ofList]
  · rw [verify_eq_hash hruntime, ← hread, Option.eq_none_iff_forall_ne_some, not_exists]

/-- Digits of both cases are read, with the name and white space around them; but the name may not
stand there twice. -/
theorem text_exact_mixed :
    let digits : List Char := (List.replicate 32 ['A', 'b']).flatten
    let m : Module := ⟨.current, .default, [], [],
      "sha256:sha256:" ++ String.ofList digits, {}⟩
    Writes (" sha256:" ++ String.ofList digits ++ "\n") digits ∧
      (∃ hash, Hash.ofText? (" sha256:" ++ String.ofList digits ++ "\n") = some hash ∧
        Spells digits hash.bytes ∧
          hash.text = "sha256:" ++ String.ofList (digits.map Char.toLower)) ∧
      m.runtime.isSupported = true ∧ m.verify = .error .hash := by
  intro digits m
  have hdigits : ∀ c ∈ digits, ∃ value, IsDigit c value := by
    intro c hc
    obtain ⟨pair, hpair, hc⟩ := List.mem_flatten.mp hc
    obtain rfl := List.eq_of_mem_replicate hpair
    rcases List.mem_cons.mp hc with rfl | hc
    · exact ⟨10, by decide, by decide⟩
    · obtain rfl := List.mem_singleton.mp hc
      exact ⟨11, by decide, by decide⟩
  have hwrites : Writes (" sha256:" ++ String.ofList digits ++ "\n") digits :=
    ⟨by decide +kernel, hdigits, .inr (by decide +kernel)⟩
  have hnone : ¬ ∃ digits, Writes m.digest digits := by
    rw [← text_exact.2.1 m.digest, not_exists]
    have hread : Hash.ofText? m.digest = none := by decide +kernel
    exact fun hash hhash => nomatch hread.symm.trans hhash
  have hruntime : m.runtime.isSupported = true := by decide
  exact ⟨hwrites, text_exact.2.2.1 _ digits hwrites, hruntime,
    (text_exact.2.2.2 m hruntime).mpr hnone⟩

end Hash

end MessageCatalog.Digest
