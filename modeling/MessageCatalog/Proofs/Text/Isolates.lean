/-
Marks around stretches of text.

* `Unmarked`, `withoutMarks`: texts without marks, and texts whose marks are left out;
* `Balanced`: whatever is started is ended, and nothing is ended before it is started;
* `Isolates`: a text, and the same text with marks around some of its stretches;
* `Inside`: a place between two marks.
-/
import MessageCatalog.Message.Render
import MessageCatalog.Proofs.Json.Scalar

namespace MessageCatalog

/-! ### Texts without marks -/

/-- A mark starts or ends a stretch of text with a direction of its own. -/
def isMark (c : Char) : Bool :=
  c == isolateStart || c == isolateEnd

/-- A text without any marks. -/
def Unmarked (cs : List Char) : Prop :=
  ∀ c ∈ cs, isMark c = false

-- Only the characters of the text are looked at; an instance that is searched for may go through
-- all characters that there are.
instance (cs : List Char) : Decidable (Unmarked cs) :=
  List.decidableBAll (fun c => isMark c = false) cs

/-- A text whose marks are left out. -/
def withoutMarks (cs : List Char) : List Char :=
  cs.filter fun c => !isMark c

section Unmarked

variable {cs ds : List Char}

lemma unmarked_append : Unmarked (cs ++ ds) ↔ Unmarked cs ∧ Unmarked ds :=
  List.forall_mem_append

lemma withoutMarks_append : withoutMarks (cs ++ ds) = withoutMarks cs ++ withoutMarks ds :=
  List.filter_append ..

lemma Unmarked.withoutMarks_eq (h : Unmarked cs) : withoutMarks cs = cs := by
  rw [withoutMarks, List.filter_eq_self]
  intro c hc
  rw [h c hc]
  rfl

lemma Unmarked.count_start (h : Unmarked cs) : cs.count isolateStart = 0 := by
  rw [List.count_eq_zero]
  intro hmem
  exact absurd (h _ hmem) (by decide)

lemma Unmarked.count_end (h : Unmarked cs) : cs.count isolateEnd = 0 := by
  rw [List.count_eq_zero]
  intro hmem
  exact absurd (h _ hmem) (by decide)

lemma Unmarked.take (h : Unmarked cs) (n : Nat) : Unmarked (cs.take n) :=
  fun c hc => h c (List.mem_of_mem_take hc)

/-- What numbers are written in is no mark. -/
lemma isMark_of_isWordChar {c : Char} (h : Json.isWordChar c = true) : isMark c = false := by
  rw [isMark, Bool.or_eq_false_iff, beq_eq_false_iff_ne, beq_eq_false_iff_ne]
  constructor
  · rintro rfl
    exact absurd h (by decide)
  · rintro rfl
    exact absurd h (by decide)

/-- A number is written without marks. -/
theorem unmarked_numberText (x : Float) : Unmarked (Number.numberText x).toList := by
  rw [Number.numberText]
  split
  · decide
  rw [String.toList_ofList]
  cases hview : Number.view x with
  | nan =>
      rw [Number.Layout.text, hview]
      decide
  | infinite negative =>
      rw [Number.Layout.text, hview]
      cases negative <;> decide
  | finite e =>
      rw [Number.Layout.text_eq _ hview]
      intro c hc
      exact isMark_of_isWordChar
        (Json.isWordChar_of_mem_text (Number.Layout.literal_wellFormed _) c hc)

end Unmarked

/-! ### Balance -/

/-- Whatever is started is ended, and nothing is ended before it is started. -/
structure Balanced (cs : List Char) : Prop where
  started : ∀ before after, cs = before ++ after →
    before.count isolateEnd ≤ before.count isolateStart
  ended : cs.count isolateStart = cs.count isolateEnd

section Balanced

variable {cs ds : List Char}

lemma Unmarked.balanced (h : Unmarked cs) : Balanced cs where
  started before after heq := by
    obtain ⟨hbefore, _⟩ := unmarked_append.mp (heq ▸ h)
    rw [hbefore.count_end]
    exact Nat.zero_le _
  ended := by rw [h.count_start, h.count_end]

lemma Balanced.append (h : Balanced cs) (hd : Balanced ds) : Balanced (cs ++ ds) where
  started before after heq := by
    rcases List.append_eq_append_iff.mp heq with ⟨rest, rfl, hds⟩ | ⟨rest, hcs, _⟩
    · -- The place is in the second text.
      rw [List.count_append, List.count_append, h.ended]
      exact Nat.add_le_add_left (hd.started rest after hds) _
    · exact h.started before rest hcs
  ended := by rw [List.count_append, List.count_append, h.ended, hd.ended]

lemma count_apart_start (cs : List Char) :
    (isolateStart :: (cs ++ [isolateEnd])).count isolateStart = cs.count isolateStart + 1 := by
  rw [List.count_cons_self, List.count_append, List.count_singleton, if_neg (by decide), add_zero]

lemma count_apart_end (cs : List Char) :
    (isolateStart :: (cs ++ [isolateEnd])).count isolateEnd = cs.count isolateEnd + 1 := by
  rw [List.count_cons_of_ne (by decide), List.count_append, List.count_singleton_self]

/-- Marks around a balanced text leave it balanced. -/
lemma Balanced.apart (h : Balanced cs) : Balanced (isolateStart :: (cs ++ [isolateEnd])) where
  started before after heq := by
    cases before with
    | nil => exact le_rfl
    | cons c before =>
        obtain ⟨rfl, hcs⟩ := List.cons.inj heq
        rw [List.count_cons_self, List.count_cons_of_ne (by decide)]
        rcases List.append_eq_append_iff.mp hcs with ⟨rest, rfl, hrest⟩ | ⟨rest, hcs, _⟩
        · -- At most the last mark is added to what is ended before.
          have hlast : rest.count isolateEnd ≤ 1 := by
            calc rest.count isolateEnd ≤ (rest ++ after).count isolateEnd := by
                  rw [List.count_append]
                  exact Nat.le_add_right _ _
              _ = 1 := by rw [← hrest, List.count_singleton_self]
          rw [List.count_append, List.count_append, h.ended]
          omega
        · exact Nat.le_succ_of_le (h.started before rest hcs)
  ended := by rw [count_apart_start, count_apart_end, h.ended]

end Balanced

/-! ### Stretches that are kept apart -/

/-- The second text is the first one with marks around some of its stretches. -/
inductive Isolates : List Char → List Char → Prop where
  | refl (cs : List Char) : Isolates cs cs
  | append {cs cs' ds ds' : List Char} : Isolates cs cs' → Isolates ds ds' →
    Isolates (cs ++ ds) (cs' ++ ds')
  | apart {cs cs' : List Char} : Isolates cs cs' →
    Isolates cs (isolateStart :: (cs' ++ [isolateEnd]))

/-- Without its marks, a text with isolates is as it was. -/
theorem Isolates.withoutMarks_eq {cs cs' : List Char} (h : Isolates cs cs') (hcs : Unmarked cs) :
    withoutMarks cs' = cs := by
  induction h with
  | refl cs => exact hcs.withoutMarks_eq
  | append _ _ ih ihd =>
      obtain ⟨hfirst, hrest⟩ := unmarked_append.mp hcs
      rw [withoutMarks_append, ih hfirst, ihd hrest]
  | apart _ ih =>
      have hmarks (ds : List Char) :
          withoutMarks (isolateStart :: (ds ++ [isolateEnd])) = withoutMarks ds := by
        rw [← List.singleton_append, withoutMarks_append, withoutMarks_append]
        exact List.append_nil _
      rw [hmarks, ih hcs]

/-- The isolates of a text are balanced. -/
theorem Isolates.balanced {cs cs' : List Char} (h : Isolates cs cs') (hcs : Unmarked cs) :
    Balanced cs' := by
  induction h with
  | refl cs => exact hcs.balanced
  | append _ _ ih ihd =>
      obtain ⟨hfirst, hrest⟩ := unmarked_append.mp hcs
      exact (ih hfirst).append (ihd hrest)
  | apart _ ih => exact (ih hcs).apart

/-! ### Places -/

/-- A place in a text is inside an isolate if more of them start before it than end. -/
def Inside (cs : List Char) (place : Nat) : Prop :=
  (cs.take place).count isolateEnd < (cs.take place).count isolateStart

/-- What comes after a balanced text and has no marks itself is not inside an isolate. -/
lemma Balanced.not_inside {cs ds after : List Char} (h : Balanced cs) (hds : Unmarked ds)
    {place : Nat} (hplace : place ≤ ds.length) :
    ¬Inside (cs ++ (ds ++ after)) (cs.length + place) := by
  rw [Inside, List.take_length_add_append, List.take_append_of_le_length hplace]
  rw [List.count_append, List.count_append, h.ended, (hds.take place).balanced.ended]
  exact lt_irrefl _

end MessageCatalog
