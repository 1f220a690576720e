/-
Plural keys and their texts.

* `SpelledAs`, `ofText?_eq_some_iff`: keys are read from their spellings, and from nothing else;
* `ofText?_text`, `text_eq_iff`: a key that is read from a text is read back from its own, in which
  it is told from all other keys;
* `WellFormed.ofText?_text`: a well-formed key is such a key;
* `isWord_text`: the text of a well-formed key is a word of a pattern.
-/
import MessageCatalog.Proofs.Number.Integer
import MessageCatalog.Proofs.Pattern.WellFormed

namespace MessageCatalog

open Pattern (IsWord IsWordChar)

lemma Pattern.isWordChar_of_isDigit {c : Char} (h : c.isDigit = true) : IsWordChar c := by
  have hrange : 48 ≤ c.toNat ∧ c.toNat ≤ 57 := by
    simpa [Char.isDigit, UInt32.le_iff_toNat_le] using h
  have hne : ∀ d : Char, d.toNat < 48 ∨ 57 < d.toNat → c ≠ d := by
    rintro d hd rfl
    omega
  refine ⟨?_, hne ',' (by decide), hne '{' (by decide), hne '}' (by decide)⟩
  simp only [Text.isSpace, Bool.or_eq_false_iff, beq_eq_false_iff_ne]
  exact ⟨⟨⟨⟨hne _ (by decide), hne _ (by decide)⟩, hne _ (by decide)⟩, hne _ (by decide)⟩,
    hne _ (by decide)⟩

namespace Plural.Key

/-- The spellings of a key: for a number of the signed 64-bit range an equals sign and a spelling of
the number, and for a label the label itself, which is not empty and does not start with an equals
sign. -/
inductive SpelledAs : Key → String → Prop where
  | exact {number : Int} {cs : List Char} : Number.inInt64 number = true →
      Number.SpelledAs number cs → SpelledAs (.exact number) (String.ofList ('=' :: cs))
  | label {text : String} : text ≠ "" → text.toList.head? ≠ some '=' → SpelledAs (.label text) text

/-- **Keys are read from their spellings, and from nothing else.** -/
theorem ofText?_eq_some_iff {text : String} {key : Key} :
    ofText? text = some key ↔ key.SpelledAs text := by
  constructor
  · intro h
    rw [ofText?] at h
    split at h
    · cases h
    · rename_i number hnumber
      obtain ⟨n, hn, rfl⟩ := Option.map_eq_some_iff.mp h
      obtain ⟨hspelled, hrange⟩ := Number.int64?_eq_some_iff.mp hn
      rw [← String.ofList_toList (s := text), hnumber]
      exact .exact hrange hspelled
    · rename_i hnil hequals
      obtain rfl := Option.some.inj h
      refine .label (fun hempty => hnil (String.toList_eq_nil_iff.mpr hempty)) fun hhead => ?_
      obtain ⟨rest, hrest⟩ := List.head?_eq_some_iff.mp hhead
      exact hequals rest hrest
  · intro h
    cases h with
    | @exact number cs hrange hspelled =>
        rw [ofText?, String.toList_ofList]
        simp only [Number.int64?_eq_some_iff.mpr ⟨hspelled, hrange⟩, Option.map_some]
    | label hempty hequals =>
        rw [ofText?]
        split
        · rename_i hnil
          exact absurd (String.toList_eq_nil_iff.mp hnil) hempty
        · rename_i number hcons
          rw [hcons] at hequals
          exact absurd rfl hequals
        · rfl

/-- A key that has a spelling is written as one. -/
lemma SpelledAs.text {key : Key} {text : String} (h : key.SpelledAs text) :
    key.SpelledAs key.text := by
  cases h with
  | exact hrange _ => exact .exact hrange (Number.spelledAs_intText _)
  | label hempty hequals => exact .label hempty hequals

/-- **A key that is read from a text is read back from its own.** -/
theorem ofText?_text {key : Key} {text : String} (h : ofText? text = some key) :
    ofText? key.text = some key :=
  ofText?_eq_some_iff.mpr (ofText?_eq_some_iff.mp h).text

/-- **Keys that are read are written in the same way only if they are equal.** -/
theorem text_eq_iff {a b : Key} {s t : String} (ha : ofText? s = some a) (hb : ofText? t = some b) :
    a.text = b.text ↔ a = b := by
  refine ⟨fun h => ?_, fun h => h ▸ rfl⟩
  have hread : ofText? a.text = ofText? b.text := by rw [h]
  rw [ofText?_text ha, ofText?_text hb] at hread
  exact Option.some.inj hread

/-- A well-formed key is read from its text. -/
lemma WellFormed.ofText?_text {key : Key} (h : key.WellFormed) : ofText? key.text = some key := by
  rw [ofText?_eq_some_iff]
  cases key with
  | exact number => exact .exact h (Number.spelledAs_intText number)
  | label text => exact .label h.1.1 h.2

lemma isWord_text {key : Key} (h : key.WellFormed) : IsWord key.text := by
  cases key with
  | label text => exact h.1
  | exact number =>
      constructor
      · intro hempty
        have hnil := String.toList_eq_nil_iff.mpr hempty
        rw [Key.text, String.toList_ofList] at hnil
        cases hnil
      · intro c hc
        rw [Key.text, String.toList_ofList] at hc
        rcases List.mem_cons.mp hc with rfl | hc
        · decide
        · rcases Number.isDigit_of_mem_intText hc with rfl | hdigit
          · decide
          · exact Pattern.isWordChar_of_isDigit hdigit

end Plural.Key

end MessageCatalog
