/-
The numbers in a text are finite.

A number that no float is near to follows the grammar of JSON, but it has no value.

* `Json.Finite`, `Form.Finite`: values and forms whose numbers are finite as floats;
* `finite_numberValue?`: the value of a number text is of this kind;
* `finite_lex`, `finite_step`, `finite_run`: the reader makes no other numbers;
* `finite_value?`, `finite_record`, `finite_table`: nor does what is done with a form;
* `finite_parse?`: so the form of a text has finite numbers only.
-/
import MessageCatalog.Json.Reader
import MessageCatalog.Proofs.Number.Literal

namespace MessageCatalog

/-! ### Number texts -/

namespace Number

/-- The digits of a number text are digits. -/
lemma allDigits_of_scan? {cs : List Char} {l : Literal} (h : Literal.scan? cs = some l) :
    AllDigits l.whole := by
  simp only [Literal.scan?] at h
  obtain ⟨_, h⟩ := Option.ite_none_right_eq_some.mp h
  obtain rfl := Option.some.inj h
  exact fun c hc => List.all_eq_true.mp List.all_takeWhile c hc

/-- The digits of an integer are those of its coefficient and the zeros at their end. -/
lemma ofDigits?_integer {l : Literal} (hdigits : AllDigits l.whole) (h : l.isInteger = true) :
    ∃ zeros : Nat, l.decimal.exponent = zeros ∧
      (ofDigits? l.whole).getD 0 = l.decimal.coefficient * 10 ^ zeros := by
  obtain ⟨sign, whole, fraction, exponent⟩ := l
  obtain ⟨hfraction, hexponent⟩ := Bool.and_eq_true_iff.mp h
  obtain rfl := Option.isNone_iff_eq_none.mp hfraction
  obtain rfl := Option.isNone_iff_eq_none.mp hexponent
  have hmagnitude : (ofDigits? whole).getD 0 = Nat.ofDigitChars 10 whole 0 := by
    cases whole with
    | nil => rfl
    | cons c cs => exact getD_accumulate hdigits
  have hkept : (accumulate 0 (whole.take (whole.length -
      (whole.reverse.takeWhile (· == '0')).length))).getD 0 = Nat.ofDigitChars 10 (whole.take
        (whole.length - (whole.reverse.takeWhile (· == '0')).length)) 0 :=
    getD_accumulate fun c hc => hdigits c (List.mem_of_mem_take hc)
  refine ⟨(whole.reverse.takeWhile (· == '0')).length, ?_, ?_⟩
  · simp [Literal.decimal]
  · simp only [Literal.decimal, Option.getD_none, List.append_nil]
    rw [hmagnitude, hkept]
    conv_lhs => rw [← take_append_zeros whole]
    rw [Nat.ofDigitChars_append, Nat.ofDigitChars_replicate_zero, Nat.mul_comm]

/-- Whether there is a float near to a ratio does not depend on its sign. -/
lemma isFinite_nearest_iff (negative : Bool) (num den : Nat) :
    isFinite (nearest negative num den) = true ↔ nearestBits num den < 2047 * 2 ^ 52 := by
  refine ⟨fun h => ?_, isFinite_ofBits negative⟩
  by_contra hge
  have hbits : nearestBits num den = 2047 * 2 ^ 52 :=
    Nat.le_antisymm (Nat.min_le_right _ _) (Nat.not_lt.mp hge)
  rw [nearest, hbits] at h
  cases negative <;> exact absurd h (by decide +kernel)

/-- An integer is near to a float if its text is. -/
lemma isFinite_ofInt {l : Literal} {n : Int} (hdigits : AllDigits l.whole)
    (hinteger : l.isInteger = true) (hn : n.natAbs = (ofDigits? l.whole).getD 0)
    (hfinite : isFinite l.decimal.toFloat = true) : isFinite (ofInt n) = true := by
  obtain ⟨zeros, hexponent, hmagnitude⟩ := ofDigits?_integer hdigits hinteger
  rw [ofInt, isFinite_nearest_iff, hn, hmagnitude]
  rw [Decimal.toFloat, hexponent] at hfinite
  split at hfinite
  · rename_i hzero
    rw [hzero, Nat.zero_mul]
    exact (isFinite_nearest_iff _ 0 1).mp hfinite
  · split at hfinite
    -- A large power of ten stands for a number that is beyond all floats.
    · generalize l.decimal.negative = negative at hfinite
      cases negative <;> exact absurd hfinite (by decide +kernel)
    · split at hfinite
      · omega
      · rw [if_pos (Int.natCast_nonneg zeros)] at hfinite
        exact (isFinite_nearest_iff _ _ _).mp hfinite

end Number

namespace Json

/-! ### Values, forms and tokens -/

mutual

/-- A value whose numbers are finite as floats. -/
def Finite : Json → Prop
  | .integer n => Number.isFinite (Number.ofInt n) = true
  | .real x => Number.isFinite x = true
  | .array items => FiniteItems items
  | .object members => FiniteMembers members
  | _ => True

/-- Items whose numbers are finite as floats. -/
def FiniteItems : List Json → Prop
  | [] => True
  | item :: rest => Finite item ∧ FiniteItems rest

/-- Members whose numbers are finite as floats. -/
def FiniteMembers : List (String × Json) → Prop
  | [] => True
  | (_, value) :: rest => Finite value ∧ FiniteMembers rest

end

lemma finiteItems_iff {items : List Json} : FiniteItems items ↔ ∀ j ∈ items, j.Finite := by
  induction items with
  | nil => exact ⟨fun _ _ hj => (nomatch hj), fun _ => trivial⟩
  | cons item rest ih => rw [FiniteItems, ih, List.forall_mem_cons]

lemma finiteMembers_iff {members : List (String × Json)} :
    FiniteMembers members ↔ ∀ e ∈ members, e.2.Finite := by
  induction members with
  | nil => exact ⟨fun _ _ he => (nomatch he), fun _ => trivial⟩
  | cons member rest ih => rw [FiniteMembers, ih, List.forall_mem_cons]

/-- A form whose numbers are finite as floats. -/
inductive Form.Finite : Form → Prop where
  | leaf {value : Option Json} (h : ∀ j ∈ value, j.Finite) : Finite (.leaf value)
  | array {items : List Form} (h : ∀ item ∈ items, Finite item) : Finite (.array items)
  | object {members : List (Option String × Form)} (h : ∀ e ∈ members, Finite e.2) :
      Finite (.object members)

/-- A token whose number, if it is one, is finite as a float. -/
def Token.Finite : Token → Prop
  | .scalar value => ∀ j ∈ value, j.Finite
  | _ => True

/-- Containers with finite numbers in what has been read. -/
def Container.Finite : Container → Prop
  | .array items => ∀ item ∈ items, Form.Finite item
  | .object members _ => ∀ e ∈ members, Form.Finite e.2

/-- A state with finite numbers in what has been read. -/
def State.Finite : State → Prop
  | .value stack _ => ∀ c ∈ stack, Container.Finite c
  | .key members stack _ => (∀ e ∈ members, Form.Finite e.2) ∧ ∀ c ∈ stack, Container.Finite c
  | .colon members _ stack => (∀ e ∈ members, Form.Finite e.2) ∧ ∀ c ∈ stack, Container.Finite c
  | .complete form stack => form.Finite ∧ ∀ c ∈ stack, Container.Finite c

/-! ### Tokens of a text -/

/-- **The value of a number text is finite as a float.** -/
theorem finite_numberValue? {l : Number.Literal} (hdigits : Number.AllDigits l.whole) {j : Json}
    (h : numberValue? l = some j) : j.Finite := by
  simp only [numberValue?] at h
  split at h
  · cases h
  rename_i hvalue
  have hfinite : Number.isFinite l.decimal.toFloat = true := by simpa using hvalue
  split at h
  · rename_i hinteger
    obtain rfl := Option.some.inj h
    refine Number.isFinite_ofInt hdigits (Bool.and_eq_true_iff.mp hinteger).1 ?_ hfinite
    split
    · rw [Int.natAbs_neg, Int.natAbs_natCast]
    · rw [Int.natAbs_natCast]
  · obtain rfl := Option.some.inj h
    exact hfinite

lemma finite_ofWord? {word : List Char} {token : Token} (h : ofWord? word = some token) :
    token.Finite := by
  rw [ofWord?] at h
  split at h
  · obtain rfl := Option.some.inj h
    rintro j ⟨⟩
    trivial
  split at h
  · obtain rfl := Option.some.inj h
    rintro j ⟨⟩
    trivial
  split at h
  · obtain rfl := Option.some.inj h
    rintro j ⟨⟩
    trivial
  split at h
  · cases h
  · rename_i l hscan
    split at h
    · obtain rfl := Option.some.inj h
      exact fun j hj => finite_numberValue? (Number.allDigits_of_scan? hscan) hj
    · cases h

lemma finite_punctuation? {c : Char} {token : Token} (h : punctuation? c = some token) :
    token.Finite := by
  rw [punctuation?.eq_def] at h
  split at h
  case h_7 => cases h
  all_goals
    obtain rfl := Option.some.inj h
    trivial

lemma finite_cons {token : Token} {tokens : List Token} {read : Option (List Token)}
    (htoken : token.Finite) (hread : ∀ ts, read = some ts → ∀ t ∈ ts, t.Finite)
    (h : read.map (token :: ·) = some tokens) : ∀ t ∈ tokens, t.Finite := by
  obtain ⟨ts, hts, rfl⟩ := Option.map_eq_some_iff.mp h
  exact List.forall_mem_cons.mpr ⟨htoken, hread ts hts⟩

mutual

/-- **The numbers among the tokens of a text are finite.** -/
theorem finite_lex (cs : List Char) {tokens : List Token} (h : lex cs = some tokens) :
    ∀ t ∈ tokens, t.Finite := by
  rw [lex.eq_def] at h
  split at h
  · obtain rfl := Option.some.inj h
    exact fun t ht => nomatch ht
  rename_i c cs
  split at h
  · exact finite_lex cs h
  split at h
  · exact finite_lexText (some .start) cs h
  split at h
  · exact finite_lexWord [c] cs h
  split at h
  · rename_i token htoken
    exact finite_cons (finite_punctuation? htoken) (fun ts => finite_lex cs) h
  · cases h
termination_by cs.length

theorem finite_lexText (before : Option OpenText) (cs : List Char) {tokens : List Token}
    (h : lexText before cs = some tokens) : ∀ t ∈ tokens, t.Finite := by
  rw [lexText.eq_def] at h
  split at h
  · cases h
  · split at h
    · exact finite_lexText _ _ h
    · cases h
  · split at h
    · exact finite_lexText _ _ h
    · cases h
  · rename_i c cs _ _
    split at h
    · have hstring : (Token.text (before.bind OpenText.text?)).Finite := trivial
      exact finite_cons hstring (fun ts => finite_lex cs) h
    split at h
    · cases h
    · exact finite_lexText _ cs h
termination_by cs.length

theorem finite_lexWord (word : List Char) (cs : List Char) {tokens : List Token}
    (h : lexWord word cs = some tokens) : ∀ t ∈ tokens, t.Finite := by
  rw [lexWord.eq_def] at h
  split at h
  · obtain ⟨token, htoken, rfl⟩ := Option.map_eq_some_iff.mp h
    exact List.forall_mem_singleton.mpr (finite_ofWord? htoken)
  rename_i c cs
  split at h
  · exact finite_lexWord (c :: word) cs h
  split at h
  · cases h
  rename_i scalar hscalar
  split at h
  · exact finite_cons (finite_ofWord? hscalar) (fun ts => finite_lex cs) h
  split at h
  · rename_i token htoken
    obtain ⟨ts, hts, rfl⟩ := Option.map_eq_some_iff.mp h
    exact List.forall_mem_cons.mpr ⟨finite_ofWord? hscalar,
      List.forall_mem_cons.mpr ⟨finite_punctuation? htoken, finite_lex cs hts⟩⟩
  · cases h
termination_by cs.length

end

/-! ### Forms of a text -/

/-- An array or an object that is closed has what was read of it. -/
lemma Form.Finite.reverse {items : List Form} (h : ∀ item ∈ items, Form.Finite item) :
    Form.Finite (.array items.reverse) :=
  .array fun item hitem => h item (List.mem_reverse.mp hitem)

lemma Form.Finite.reverseMembers {members : List (Option String × Form)}
    (h : ∀ e ∈ members, Form.Finite e.2) : Form.Finite (.object members.reverse) :=
  .object fun e he => h e (List.mem_reverse.mp he)

/-- One token adds no other numbers. -/
lemma finite_step {state next : State} {token : Token} (hstate : state.Finite)
    (htoken : token.Finite) (h : state.step token = some next) : next.Finite := by
  have hnone {α : Type} {p : α → Prop} : ∀ a ∈ ([] : List α), p a := fun _ ha => nomatch ha
  rw [State.step.eq_def] at h
  split at h
  case h_13 => cases h
  all_goals obtain rfl := Option.some.inj h
  -- A value begins, or is a scalar.
  case h_1 => exact ⟨.leaf htoken, hstate⟩
  case h_2 =>
    refine ⟨.leaf fun j hj => ?_, hstate⟩
    obtain ⟨text, _, rfl⟩ := Option.map_eq_some_iff.mp hj
    trivial
  case h_3 => exact List.forall_mem_cons.mpr ⟨hnone, hstate⟩
  case h_4 => exact ⟨hnone, hstate⟩
  case h_5 => exact ⟨.array hnone, (List.forall_mem_cons.mp hstate).2⟩
  -- A member begins, or the object is empty.
  case h_6 => exact hstate
  case h_7 => exact ⟨.object hnone, hstate.2⟩
  case h_8 => exact List.forall_mem_cons.mpr hstate
  -- A value is complete in the innermost container.
  all_goals
    obtain ⟨hform, hstack⟩ := hstate
    obtain ⟨hinner, hstack⟩ := List.forall_mem_cons.mp hstack
  case h_9 => exact List.forall_mem_cons.mpr ⟨List.forall_mem_cons.mpr ⟨hform, hinner⟩, hstack⟩
  case h_10 => exact ⟨.reverse (List.forall_mem_cons.mpr ⟨hform, hinner⟩), hstack⟩
  case h_11 => exact ⟨List.forall_mem_cons.mpr ⟨hform, hinner⟩, hstack⟩
  case h_12 => exact ⟨.reverseMembers (List.forall_mem_cons.mpr ⟨hform, hinner⟩), hstack⟩

/-- Tokens with finite numbers are read as what has finite numbers. -/
theorem finite_run {state last : State} {tokens : List Token} (hstate : state.Finite)
    (htokens : ∀ t ∈ tokens, t.Finite) (h : state.run tokens = some last) : last.Finite := by
  induction tokens generalizing state with
  | nil =>
      obtain rfl := Option.some.inj h
      exact hstate
  | cons token rest ih =>
      rw [State.run] at h
      split at h
      · rename_i next hnext
        obtain ⟨htoken, hrest⟩ := List.forall_mem_cons.mp htokens
        exact ih (finite_step hstate htoken hnext) hrest h
      · cases h

/-- **The form of a text has finite numbers only.** -/
theorem finite_parse? {text : String} {form : Form} (h : Form.parse? text = some form) :
    form.Finite := by
  rw [Form.parse?] at h
  split at h
  · cases h
  rename_i tokens htokens
  split at h
  · rename_i last hrun
    obtain rfl := Option.some.inj h
    have hstart : (State.value [] false).Finite := fun _ hc => nomatch hc
    exact (finite_run hstart (finite_lex _ htokens) hrun).1
  · cases h

/-! ### Parts and values of a form -/

namespace Form

lemma finite_each {parts : List (Form → Form)} {items : List Form}
    (hparts : ∀ part ∈ parts, ∀ form, form.Finite → (part form).Finite)
    (hitems : ∀ item ∈ items, item.Finite) : ∀ item ∈ each parts items, item.Finite := by
  induction items generalizing parts with
  | nil => cases parts <;> exact hitems
  | cons item rest ih =>
      cases parts with
      | nil => exact hitems
      | cons part parts =>
          obtain ⟨hpart, hparts⟩ := List.forall_mem_cons.mp hparts
          obtain ⟨hitem, hrest⟩ := List.forall_mem_cons.mp hitems
          rw [each]
          exact List.forall_mem_cons.mpr ⟨hpart item hitem, ih hparts hrest⟩

/-- A record has no other numbers than what it is a part of. -/
lemma finite_record {fields : List (String × (Form → Form))}
    (hfields : ∀ field ∈ fields, ∀ form, form.Finite → (field.2 form).Finite) {form : Form}
    (h : form.Finite) : (record fields form).Finite := by
  cases h with
  | leaf h => exact .leaf h
  | array h =>
      refine .array (finite_each (fun part hpart => ?_) h)
      obtain ⟨field, hfield, rfl⟩ := List.mem_map.mp hpart
      exact hfields field hfield
  | object h =>
      refine .object fun e he => ?_
      obtain ⟨⟨key, item⟩, hmember, heq⟩ := List.mem_filterMap.mp he
      have hitem : item.Finite := h _ hmember
      cases key with
      | none =>
          obtain rfl := Option.some.inj heq
          exact hitem
      | some name =>
          obtain ⟨part, hpart, rfl⟩ := Option.map_eq_some_iff.mp heq
          obtain ⟨before, after, hfound, _⟩ := List.lookup_eq_some_iff.mp hpart
          have hmem : (name, part) ∈ fields := hfound ▸ List.mem_append_right _ List.mem_cons_self
          exact hfields (name, part) hmem item hitem

/-- A table has no other numbers than what it is a part of. -/
lemma finite_table {part : Form → Form} (hpart : ∀ form, form.Finite → (part form).Finite)
    {form : Form} (h : form.Finite) : (table part form).Finite := by
  cases h with
  | leaf h => exact .leaf h
  | array h => exact .array h
  | object h =>
      refine .object fun e he => ?_
      obtain ⟨member, hmember, rfl⟩ := List.mem_map.mp he
      exact hpart _ (h member hmember)

mutual

/-- **The value of a form has no other numbers than the form.** -/
theorem finite_value? : ∀ {form : Form} {limit : Nat} {j : Json}, form.Finite →
    form.value? limit = some j → j.Finite
  | .leaf value, limit, j, .leaf hvalue, h => by
      rw [value?] at h
      exact hvalue j h
  | .array items, 0, j, _, h => by
      rw [value?] at h
      cases h
  | .array items, limit + 1, j, .array hitems, h => by
      rw [value?] at h
      obtain ⟨values, hvalues, rfl⟩ := Option.map_eq_some_iff.mp h
      exact finite_itemValues? hitems hvalues
  | .object members, 0, j, _, h => by
      rw [value?] at h
      cases h
  | .object members, limit + 1, j, .object hmembers, h => by
      rw [value?] at h
      obtain ⟨values, hvalues, rfl⟩ := Option.map_eq_some_iff.mp h
      exact finite_memberValues? hmembers hvalues

theorem finite_itemValues? : ∀ {items : List Form} {limit : Nat} {values : List Json},
    (∀ item ∈ items, item.Finite) → itemValues? limit items = some values → FiniteItems values
  | [], limit, values, _, h => by
      rw [itemValues?] at h
      obtain rfl := Option.some.inj h
      trivial
  | item :: rest, limit, values, hitems, h => by
      obtain ⟨hitem, hrest⟩ := List.forall_mem_cons.mp hitems
      rw [itemValues?] at h
      split at h
      · rename_i value others hvalue hothers
        obtain rfl := Option.some.inj h
        exact ⟨finite_value? hitem hvalue, finite_itemValues? hrest hothers⟩
      · cases h

theorem finite_memberValues? : ∀ {members : List (Option String × Form)} {limit : Nat}
    {values : List (String × Json)}, (∀ e ∈ members, e.2.Finite) →
    memberValues? limit members = some values → FiniteMembers values
  | [], limit, values, _, h => by
      rw [memberValues?] at h
      obtain rfl := Option.some.inj h
      trivial
  | (key, item) :: rest, limit, values, hmembers, h => by
      obtain ⟨hitem, hrest⟩ := List.forall_mem_cons.mp hmembers
      rw [memberValues?.eq_def] at h
      simp only at h
      split at h
      · rename_i name value others _ hvalue hothers
        obtain rfl := Option.some.inj h
        exact ⟨finite_value? hitem hvalue, finite_memberValues? hrest hothers⟩
      · cases h

end

end Form

end Json

end MessageCatalog
