/-
Computations that may fail.

* `bind_eq_ok`, `bind_eq_error`: two computations in a row succeed if and only if both do;
* `map_eq_ok`, `mapError_eq_ok`, `map_eq_error`, `mapError_eq_error`: a change of the result or of
  the error does not change whether there is one;
* `forIn_eq_ok`: what a loop of checks has checked;
* `Raises`: all errors that a computation may have are of a kind;
* `Yields`: and the only result that it may have is a given one;
* `passes`, `fails`: tests of the result and of the error, which can be evaluated.
-/
import Mathlib

namespace MessageCatalog

variable {ε ε' α β : Type}

lemma bind_eq_ok {x : Except ε α} {f : α → Except ε β} {b : β} :
    (x >>= f) = .ok b ↔ ∃ a, x = .ok a ∧ f a = .ok b := by
  constructor
  · intro h
    cases x with
    | error e => cases h
    | ok a => exact ⟨a, rfl, h⟩
  · rintro ⟨a, rfl, h⟩
    exact h

lemma bind_eq_error {x : Except ε α} {f : α → Except ε β} {e : ε} :
    (x >>= f) = .error e ↔ x = .error e ∨ ∃ a, x = .ok a ∧ f a = .error e := by
  constructor
  · intro h
    cases x with
    | error e' =>
        obtain rfl := Except.error.inj h
        exact .inl rfl
    | ok a => exact .inr ⟨a, rfl, h⟩
  · rintro (rfl | ⟨a, rfl, h⟩)
    · rfl
    · exact h

lemma map_eq_ok {x : Except ε α} {f : α → β} {b : β} :
    x.map f = .ok b ↔ ∃ a, x = .ok a ∧ f a = b := by
  constructor
  · intro h
    cases x with
    | error e => cases h
    | ok a => exact ⟨a, rfl, Except.ok.inj h⟩
  · rintro ⟨a, rfl, rfl⟩
    rfl

lemma map_eq_error {x : Except ε α} {f : α → β} {e : ε} : x.map f = .error e ↔ x = .error e := by
  constructor
  · intro h
    cases x with
    | error e' =>
        obtain rfl := Except.error.inj h
        rfl
    | ok a => cases h
  · rintro rfl
    rfl

lemma mapError_eq_ok {x : Except ε α} {f : ε → ε'} {a : α} :
    x.mapError f = .ok a ↔ x = .ok a := by
  constructor
  · intro h
    cases x with
    | error e => cases h
    | ok a' =>
        obtain rfl := Except.ok.inj h
        rfl
  · rintro rfl
    rfl

lemma mapError_eq_error {x : Except ε α} {f : ε → ε'} {e : ε'} :
    x.mapError f = .error e ↔ ∃ e', x = .error e' ∧ f e' = e := by
  constructor
  · intro h
    cases x with
    | error e' => exact ⟨e', rfl, Except.error.inj h⟩
    | ok a => cases h
  · rintro ⟨e', rfl, rfl⟩
    rfl

/-- A loop that checks all items fails if one of the checks does. -/
lemma forIn_eq_ok {check : α → Except ε β} {items : List α} {u : PUnit}
    (h : (forIn items PUnit.unit fun a _ => do
      let _ ← check a
      pure (ForInStep.yield PUnit.unit)) = .ok u) : ∀ a ∈ items, ∃ b, check a = .ok b := by
  induction items with
  | nil => exact fun _ ha => nomatch ha
  | cons a rest ih =>
      rw [List.forIn_cons] at h
      obtain ⟨step, hstep, h⟩ := bind_eq_ok.mp h
      obtain ⟨b, hb, hstep⟩ := bind_eq_ok.mp hstep
      obtain rfl := Except.ok.inj hstep
      exact List.forall_mem_cons.mpr ⟨⟨b, hb⟩, ih h⟩

/-! ### Kinds of errors -/

/-- All errors that a computation may have are of a kind. -/
def Raises (kind : ε → Prop) (x : Except ε α) : Prop :=
  ∀ e, x = .error e → kind e

variable {kind : ε → Prop} {x : Except ε α}

lemma Raises.ok (a : α) : Raises kind (.ok a : Except ε α) := fun _ h => nomatch h

lemma Raises.error {e : ε} (h : kind e) : Raises kind (.error e : Except ε α) := by
  intro e' he
  obtain rfl := Except.error.inj he
  exact h

lemma Raises.imp {kind' : ε → Prop} (h : Raises kind x) (hk : ∀ e, kind e → kind' e) :
    Raises kind' x :=
  fun e he => hk e (h e he)

lemma Raises.bind {k : α → Except ε β} (h : Raises kind x) (hk : ∀ a, Raises kind (k a)) :
    Raises kind (x >>= k) := by
  intro e he
  rcases bind_eq_error.mp he with hx | ⟨a, _, ha⟩
  · exact h e hx
  · exact hk a e ha

lemma Raises.map (h : Raises kind x) (f : α → β) : Raises kind (x.map f) :=
  fun e he => h e (map_eq_error.mp he)

lemma Raises.mapError {kind' : ε' → Prop} {g : ε → ε'} (h : Raises kind x)
    (hg : ∀ e, kind e → kind' (g e)) : Raises kind' (x.mapError g) := by
  intro e' he
  obtain ⟨e, hx, rfl⟩ := mapError_eq_error.mp he
  exact hg e (h e hx)

/-- A computation has a given result, unless it has an error of a kind. -/
def Yields (kind : ε → Prop) (a : α) (x : Except ε α) : Prop :=
  x = .ok a ∨ ∃ e, x = .error e ∧ kind e

lemma Yields.ok (a : α) : Yields kind a (.ok a : Except ε α) := .inl rfl

lemma Yields.error {e : ε} (a : α) (h : kind e) : Yields kind a (.error e : Except ε α) :=
  .inr ⟨e, rfl, h⟩

lemma Yields.bind {a : α} {k : α → Except ε β} {b : β} (h : Yields kind a x)
    (hk : Yields kind b (k a)) : Yields kind b (x >>= k) := by
  rcases h with rfl | ⟨e, rfl, he⟩
  · exact hk
  · exact .error b he

lemma Yields.map {a : α} (h : Yields kind a x) (f : α → β) : Yields kind (f a) (x.map f) := by
  rcases h with rfl | ⟨e, rfl, he⟩
  · exact .ok (f a)
  · exact .error (f a) he

/-- Without any errors there is the result. -/
lemma yields_false_iff {a : α} : Yields (fun _ => False) a x ↔ x = .ok a :=
  or_iff_left fun ⟨_, _, h⟩ => h

/-! ### Tests -/

/-- Whether there is a result that passes a test. -/
def passes (test : α → Bool) : Except ε α → Bool
  | .ok a => test a
  | .error _ => false

lemma passes_eq_true {test : α → Bool} {x : Except ε α} (h : passes test x = true) :
    ∃ a, x = .ok a ∧ test a = true := by
  cases x with
  | error e => cases h
  | ok a => exact ⟨a, rfl, h⟩

/-- Whether there is an error that passes a test. -/
def fails (test : ε → Bool) : Except ε α → Bool
  | .ok _ => false
  | .error e => test e

lemma fails_eq_true {test : ε → Bool} {x : Except ε α} (h : fails test x = true) :
    ∃ e, x = .error e ∧ test e = true := by
  cases x with
  | ok a => cases h
  | error e => exact ⟨e, rfl, h⟩

end MessageCatalog
