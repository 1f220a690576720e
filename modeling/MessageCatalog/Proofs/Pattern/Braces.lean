/-
Matching braces.

Braces switch between literal text and the words of a block, and only in literal text a backslash
takes the character behind it. So whether a brace is one depends on how many are open in front of
it, and so does which brace closes which.

* `Braced`: characters in which every brace has its match;
* `IsBlock`: a left brace, with all characters up to its match;
* `Braced.eq_of_append`, `IsBlock.eq_of_append`: there is only one brace that matches.
-/
import Mathlib
import MessageCatalog.Text.Blank

namespace MessageCatalog.Pattern

/-- Characters of literal text, or of the words of a block, in which every brace has its match. In
literal text a backslash takes the character behind it. -/
inductive Braced : Bool → List Char → Prop where
  | nil {literal} : Braced literal []
  | char {literal c cs} : c ≠ '{' → c ≠ '}' → (literal = true → c ≠ '\\') → Braced literal cs →
      Braced literal (c :: cs)
  | escape {c cs} : Braced true cs → Braced true ('\\' :: c :: cs)
  | block {literal inner cs} : Braced (!literal) inner → Braced literal cs →
      Braced literal ('{' :: (inner ++ '}' :: cs))

/-- A left brace in literal text, with all characters up to its match. -/
def IsBlock (piece : List Char) : Prop :=
  ∃ inner, Braced false inner ∧ piece = '{' :: (inner ++ ['}'])

lemma Braced.append {literal : Bool} {cs ds : List Char} (hcs : Braced literal cs)
    (hds : Braced literal ds) : Braced literal (cs ++ ds) := by
  induction hcs with
  | nil => exact hds
  | char hleft hright hbackslash _ ih => exact .char hleft hright hbackslash (ih hds)
  | escape _ ih => exact .escape (ih hds)
  | block hinner _ _ ih =>
      rw [List.cons_append, List.append_assoc, List.cons_append]
      exact .block hinner (ih hds)

lemma IsBlock.braced {piece : List Char} (h : IsBlock piece) : Braced true piece := by
  obtain ⟨inner, hinner, rfl⟩ := h
  exact .block hinner .nil

/-- The words of a block may have any characters but braces between them. -/
lemma braced_of_forall {cs : List Char} (h : ∀ c ∈ cs, c ≠ '{' ∧ c ≠ '}') : Braced false cs := by
  induction cs with
  | nil => exact .nil
  | cons c cs ih =>
      obtain ⟨⟨hleft, hright⟩, hrest⟩ := List.forall_mem_cons.mp h
      exact .char hleft hright (by simp) (ih hrest)

lemma braced_blank {c : Char} (h : Text.isSpace c = true) : Braced false [c] := by
  refine braced_of_forall fun d hd => ?_
  obtain rfl := List.mem_singleton.mp hd
  constructor
  · rintro rfl
    cases h
  · rintro rfl
    cases h

/-- Characters that all have their match end at the first right brace that has none. -/
theorem Braced.eq_of_append {literal : Bool} {cs ds more rest : List Char}
    (hcs : Braced literal cs) (hds : Braced literal ds)
    (h : cs ++ '}' :: more = ds ++ '}' :: rest) : cs = ds ∧ more = rest := by
  -- Both texts are taken apart in the same way: their first characters decide which rule it is, and
  -- a right brace that closes nothing ends both.
  induction hcs generalizing ds more rest with
  | nil =>
      cases hds with
      | nil => exact ⟨rfl, (List.cons.inj h).2⟩
      | char _ hright _ _ => exact absurd (List.cons.inj h).1.symm hright
      | escape _ => exact absurd (List.cons.inj h).1 (by decide)
      | block _ _ => exact absurd (List.cons.inj h).1 (by decide)
  | char hleft hright hbackslash _ ih =>
      cases hds with
      | nil => exact absurd (List.cons.inj h).1 hright
      | char _ _ _ hds =>
          obtain ⟨rfl, htail⟩ := List.cons.inj h
          obtain ⟨rfl, rfl⟩ := ih hds htail
          exact ⟨rfl, rfl⟩
      | escape _ => exact absurd (List.cons.inj h).1 (hbackslash rfl)
      | block _ _ => exact absurd (List.cons.inj h).1 hleft
  | escape _ ih =>
      cases hds with
      | nil => exact absurd (List.cons.inj h).1 (by decide)
      | char _ _ hbackslash _ => exact absurd (List.cons.inj h).1.symm (hbackslash rfl)
      | escape hds =>
          obtain ⟨rfl, htail⟩ := List.cons.inj (List.cons.inj h).2
          obtain ⟨rfl, rfl⟩ := ih hds htail
          exact ⟨rfl, rfl⟩
      | block _ _ => exact absurd (List.cons.inj h).1 (by decide)
  | block _ _ ihinner ih =>
      cases hds with
      | nil => exact absurd (List.cons.inj h).1 (by decide)
      | char hleft _ _ _ => exact absurd (List.cons.inj h).1.symm hleft
      | escape _ => exact absurd (List.cons.inj h).1 (by decide)
      | block hinner hds =>
          simp only [List.cons_append, List.append_assoc, List.cons.injEq, true_and] at h
          obtain ⟨rfl, htail⟩ := ihinner hinner h
          obtain ⟨rfl, rfl⟩ := ih hds htail
          exact ⟨rfl, rfl⟩

/-- **The brace that matches the first one is unique**: a text starts with one block at most. -/
theorem IsBlock.eq_of_append {first second more rest : List Char} (hfirst : IsBlock first)
    (hsecond : IsBlock second) (h : first ++ more = second ++ rest) : first = second := by
  obtain ⟨inner, hinner, rfl⟩ := hfirst
  obtain ⟨other, hother, rfl⟩ := hsecond
  simp only [List.cons_append, List.append_assoc, List.cons.injEq, true_and,
    List.nil_append] at h
  rw [(hinner.eq_of_append hother h).1]

end MessageCatalog.Pattern
