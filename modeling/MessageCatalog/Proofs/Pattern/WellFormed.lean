/-
Well-formed patterns.

A pattern keeps rules that its data type does not: words have no blanks, commas and braces in
them, literal text is never empty and never next to literal text, every choice has a case for all
other values, and a number sign stands inside a plural. The rules are stated here on elements alone,
with no reader and no text in sight.

* `IsWord`, `IsPhrase`: the names and keys of a pattern, and the parts of a style;
* `Key.WellFormed`, `Style.WellFormed`: plural keys and styles;
* `Element.WellFormed`, `IsMessage`: elements, and lists of elements that make up a message.
-/
import Mathlib
import MessageCatalog.Pattern.Element
import MessageCatalog.Text.Blank

namespace MessageCatalog

open Formatting (Style)
open Plural (Key Kind)

namespace Pattern

/-! ### Words and phrases -/

/-- A character that words may have: neither an ASCII space nor a comma nor a brace. -/
def IsWordChar (c : Char) : Prop :=
  Text.isSpace c = false ∧ c ≠ ',' ∧ c ≠ '{' ∧ c ≠ '}'

/-- A word: not empty, and without ASCII spaces, commas and braces. -/
def IsWord (word : String) : Prop :=
  word ≠ "" ∧ ∀ c ∈ word.toList, IsWordChar c

instance (c : Char) : Decidable (IsWordChar c) :=
  inferInstanceAs (Decidable (_ ∧ _))

instance (word : String) : Decidable (IsWord word) :=
  -- The characters of a word are few; all characters are too many to be tried.
  have : Decidable (∀ c ∈ word.toList, IsWordChar c) := List.decidableBAll _ _
  inferInstanceAs (Decidable (_ ∧ _))

/-- A phrase: words with one blank between each two of them. There may be no word at all. -/
def IsPhrase (phrase : String) : Prop :=
  ∃ words : List String, (∀ word ∈ words, IsWord word) ∧ phrase = String.intercalate " " words

/-- The words that announce a statement with cases, so that no formatter has such a name. -/
def statementWords : List String := ["plural", "selectordinal", "select"]

lemma IsWord.toList_ne_nil {word : String} (h : IsWord word) : word.toList ≠ [] := by
  intro hnil
  exact h.1 (String.toList_eq_nil_iff.mp hnil)

end Pattern

/-! ### Keys and styles -/

/-- A plural key of a pattern: a number of the signed 64-bit range, or a label that is a word and
is not taken for a number. -/
def Plural.Key.WellFormed : Key → Prop
  | .exact number => Number.inInt64 number = true
  | .label text => Pattern.IsWord text ∧ text.toList.head? ≠ some '='

/-- A style of a pattern: one phrase, or a list of at least two. -/
def Formatting.Style.WellFormed : Style → Prop
  | .single part => Pattern.IsPhrase part
  | .list parts => 2 ≤ parts.length ∧ ∀ part ∈ parts, Pattern.IsPhrase part

namespace Pattern

/-! ### Elements -/

variable {σ : Type}

/-- Whether an element is literal text. -/
def Element.isLiteral : Element σ → Bool
  | .literal _ _ => true
  | _ => false

/-- No two neighbours are literal text. -/
def Separated (es : List (Element σ)) : Prop :=
  es.IsChain fun a b => ¬(a.isLiteral = true ∧ b.isLiteral = true)

/-- An element that keeps the rules at every depth. A number sign needs a plural around it, which
the flag tells of; the cases of a plural give it one, and those of a select leave it as it is. -/
inductive Element.WellFormed : Bool → Element σ → Prop where
  | literal {inPlural value mark} : value ≠ "" → WellFormed inPlural (.literal value mark)
  | argument {inPlural name mark} : IsWord name → WellFormed inPlural (.argument name mark)
  | call {inPlural arg name mark} {style : Option Style} :
      IsWord arg → IsWord name → name ∉ statementWords → (∀ s ∈ style, s.WellFormed) →
      WellFormed inPlural (.call arg name style mark)
  | plural {inPlural arg kind offset mark} {cases : List (Case Key σ (Element σ))} :
      IsWord arg → offset < 2 ^ 32 → (cases.map (·.key)).Nodup →
      .label "other" ∈ cases.map (·.key) → (∀ c ∈ cases, c.key.WellFormed) →
      (∀ c ∈ cases, Separated c.body) → (∀ c ∈ cases, ∀ e ∈ c.body, WellFormed true e) →
      WellFormed inPlural (.plural arg kind offset cases mark)
  | select {inPlural arg mark} {cases : List (Case String σ (Element σ))} :
      IsWord arg → (cases.map (·.key)).Nodup → "other" ∈ cases.map (·.key) →
      (∀ c ∈ cases, IsWord c.key) → (∀ c ∈ cases, Separated c.body) →
      (∀ c ∈ cases, ∀ e ∈ c.body, WellFormed inPlural e) →
      WellFormed inPlural (.select arg cases mark)
  | numberSign {mark} : WellFormed true (.numberSign mark)

/-- A list of elements that makes up a message, inside a plural or outside of all. -/
structure IsMessage (inPlural : Bool) (es : List (Element σ)) : Prop where
  separated : Separated es
  wellFormed : ∀ e ∈ es, e.WellFormed inPlural

lemma isMessage_nil (inPlural : Bool) : IsMessage inPlural ([] : List (Element σ)) :=
  ⟨List.isChain_nil, by simp⟩

lemma Separated.reverse {es : List (Element σ)} (h : Separated es) : Separated es.reverse := by
  rw [Separated, List.isChain_reverse]
  exact h.imp fun a b hab hba => hab ⟨hba.2, hba.1⟩

lemma IsMessage.reverse {inPlural : Bool} {es : List (Element σ)} (h : IsMessage inPlural es) :
    IsMessage inPlural es.reverse :=
  ⟨h.separated.reverse, fun e he => h.wellFormed e (List.mem_reverse.mp he)⟩

/-- An element that is not literal text goes in front of any message. -/
lemma IsMessage.cons {inPlural : Bool} {e : Element σ} {es : List (Element σ)}
    (h : IsMessage inPlural es) (he : e.WellFormed inPlural) (hlit : e.isLiteral = false) :
    IsMessage inPlural (e :: es) := by
  refine ⟨List.isChain_cons.mpr ⟨fun b _ hb => ?_, h.separated⟩, ?_⟩
  · rw [hlit] at hb
    exact Bool.false_ne_true hb.1
  · simpa using ⟨he, h.wellFormed⟩

/-- The cases of a plural hold messages of their own. -/
lemma Element.WellFormed.isMessage_of_plural {inPlural : Bool} {arg kind offset mark}
    {cases : List (Case Key σ (Element σ))}
    (h : (Element.plural arg kind offset cases mark).WellFormed inPlural) :
    ∀ c ∈ cases, IsMessage true c.body := by
  cases h with
  | plural _ _ _ _ _ hsep hbody => exact fun c hc => ⟨hsep c hc, hbody c hc⟩

/-- The cases of a select hold messages of their own. -/
lemma Element.WellFormed.isMessage_of_select {inPlural : Bool} {arg mark}
    {cases : List (Case String σ (Element σ))}
    (h : (Element.select arg cases mark).WellFormed inPlural) :
    ∀ c ∈ cases, IsMessage inPlural c.body := by
  cases h with
  | select _ _ _ _ hsep hbody => exact fun c hc => ⟨hsep c hc, hbody c hc⟩

end Pattern

end MessageCatalog
