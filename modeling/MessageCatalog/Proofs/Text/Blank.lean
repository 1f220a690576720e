/-
Trimming and cutting of text.

* `trimChars_of_forall`, `trimChars_eq_nil_iff`: a text without white space is not trimmed, and
  nothing stays of white space;
* `cut_append_of_forall`, `cut_append_separator`: a list is cut at its separators and nowhere else;
* `glue_append`: the pieces behind a separator are glued behind it;
* `pieces_eq_splitOnP`: the pieces of a list are those of the library.
-/
import Mathlib
import MessageCatalog.Text.Blank

namespace MessageCatalog.Text

/-! ### White space -/

/-- A text without white space is not trimmed. -/
lemma trimChars_of_forall {cs : List Char} (h : ∀ c ∈ cs, isWhite c = false) :
    trimChars cs = cs := by
  have hdrop : ∀ ds : List Char, (∀ c ∈ ds, isWhite c = false) → ds.dropWhile isWhite = ds := by
    intro ds hds
    cases ds with
    | nil => rfl
    | cons d ds => rw [List.dropWhile_cons, hds d List.mem_cons_self, if_neg Bool.false_ne_true]
  rw [trimChars, hdrop cs h, hdrop cs.reverse fun c hc => h c (List.mem_reverse.mp hc),
    List.reverse_reverse]

/-- Trimming leaves nothing of a text if and only if there is nothing but white space in it. -/
lemma trimChars_eq_nil_iff {cs : List Char} : trimChars cs = [] ↔ ∀ c ∈ cs, isWhite c = true := by
  have hdrop : trimChars cs = [] ↔ ∀ c ∈ cs.dropWhile isWhite, isWhite c = true := by
    simp only [trimChars, List.reverse_eq_nil_iff, List.dropWhile_eq_nil_iff, List.mem_reverse]
  rw [hdrop]
  constructor
  · intro h c hc
    rw [← List.takeWhile_append_dropWhile (p := isWhite) (l := cs)] at hc
    rcases List.mem_append.mp hc with hc | hc
    · exact List.mem_takeWhile_imp hc
    · exact h c hc
  · exact fun h c hc => h c ((List.dropWhile_sublist _).subset hc)

lemma isWhite_of_isAlphanum {c : Char} (h : c.isAlphanum = true) : isWhite c = false := by
  simp only [Char.isAlphanum, Char.isAlpha, Char.isUpper, Char.isLower, Char.isDigit,
    Bool.or_eq_true, Bool.and_eq_true, decide_eq_true_eq, UInt32.le_iff_toNat_le] at h
  change ((65 ≤ c.toNat ∧ c.toNat ≤ 90) ∨ (97 ≤ c.toNat ∧ c.toNat ≤ 122)) ∨
    (48 ≤ c.toNat ∧ c.toNat ≤ 57) at h
  simp only [isWhite, Bool.or_eq_false_iff, Bool.and_eq_false_iff, decide_eq_false_iff_not,
    beq_eq_false_iff_ne]
  omega

/-! ### Cutting -/

section Cut

variable {α : Type} {separator : α → Bool}

lemma cut_cons (separator : α → Bool) (a : α) (rest : List α) : cut separator (a :: rest) =
    if separator a = true then ([], (a, (cut separator rest).1) :: (cut separator rest).2)
    else (a :: (cut separator rest).1, (cut separator rest).2) := rfl

/-- What has no separator in it is not cut. -/
lemma cut_append_of_forall {front : List α} (h : ∀ a ∈ front, separator a = false)
    (rest : List α) : cut separator (front ++ rest) =
      (front ++ (cut separator rest).1, (cut separator rest).2) := by
  induction front with
  | nil => rfl
  | cons a front ih =>
      have ha := h a List.mem_cons_self
      rw [List.cons_append, cut_cons, ih fun b hb => h b (List.mem_cons_of_mem a hb), ha]
      rfl

/-- What is in front of a separator is cut in the same way without what comes after it. -/
lemma cut_append_separator {c : α} (hc : separator c = true) (front rest : List α) :
    cut separator (front ++ c :: rest) = ((cut separator front).1,
      (cut separator front).2 ++ (c, (cut separator rest).1) :: (cut separator rest).2) := by
  induction front with
  | nil => rw [List.nil_append, cut_cons, if_pos hc, cut, List.nil_append]
  | cons a front ih =>
      rw [List.cons_append, cut_cons, ih, cut_cons]
      split <;> rfl

/-- The pieces behind the first one stand behind separators. -/
lemma separator_of_mem_cut (cs : List α) :
    ∀ piece ∈ (cut separator cs).2, separator piece.1 = true := by
  induction cs with
  | nil => exact fun _ h => nomatch h
  | cons c cs ih =>
      rw [cut_cons]
      split
      · rename_i hc
        exact List.forall_mem_cons.mpr ⟨hc, ih⟩
      · exact ih

lemma glue_append_head (front head : List α) (rest : List (α × List α)) :
    glue (front ++ head) rest = front ++ glue head rest := by
  cases rest with
  | nil => rfl
  | cons p rest => rw [glue, glue, List.append_assoc]

/-- Later pieces are glued behind what the earlier ones make up. -/
lemma glue_append (head : List α) (front : List (α × List α)) (c : α) (piece : List α)
    (rest : List (α × List α)) :
    glue head (front ++ (c, piece) :: rest) = glue head front ++ c :: glue piece rest := by
  induction front generalizing head with
  | nil => rfl
  | cons p front ih =>
      obtain ⟨d, middle⟩ := p
      rw [List.cons_append, glue, ih, glue, List.append_assoc]
      rfl

/-- What is glued together comes from the pieces and from the separators between them. -/
lemma mem_of_mem_glue {a : α} {head : List α} {rest : List (α × List α)} (h : a ∈ glue head rest) :
    a ∈ head ∨ ∃ piece ∈ rest, a = piece.1 ∨ a ∈ piece.2 := by
  induction rest generalizing head with
  | nil => exact .inl h
  | cons first rest ih =>
      rw [glue, List.mem_append, List.mem_cons] at h
      rcases h with h | h | h
      · exact .inl h
      · exact .inr ⟨first, List.mem_cons_self, .inl h⟩
      · rcases ih h with h | ⟨piece, hpiece, h⟩
        · exact .inr ⟨first, List.mem_cons_self, .inr h⟩
        · exact .inr ⟨piece, List.mem_cons_of_mem first hpiece, h⟩

/-- The pieces of a list between its separators are what the library splits the list into. -/
lemma pieces_eq_splitOnP (cs : List α) : pieces separator cs = cs.splitOnP separator := by
  induction cs with
  | nil => rfl
  | cons c cs ih =>
      rw [List.splitOnP_cons_eq_if_modifyHead, ← ih]
      simp only [pieces, cut_cons]
      split <;> rfl

end Cut

end MessageCatalog.Text
