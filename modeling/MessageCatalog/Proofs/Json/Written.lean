/-
Written JSON is read back.

The text of a value is read as the tokens of the value, and the tokens as the form of the value.

* `Storable`: the values that a text can hold: all floats are finite, all integers are natural
  numbers of 64 bits;
* `tokens`: the tokens of a value;
* `spells_prettyAt`: the text of a value has these tokens;
* `run_tokens`: the tokens of a value are read as its form;
* `parse?_pretty`: so the form of a value is found in its text;
* `eq_of_value?_ofJson`: and this form has no other value.
-/
import MessageCatalog.Json.Reader
import MessageCatalog.Proofs.Json.Scalar

namespace MessageCatalog.Json

/-! ### Values and their tokens -/

mutual

/-- The values that a text can hold. -/
def Storable : Json → Prop
  | .integer n => 0 ≤ n ∧ n < 2 ^ 64
  | .real x => Number.isFinite x = true
  | .array items => StorableItems items
  | .object members => StorableMembers members
  | _ => True

/-- The items that a text can hold. -/
def StorableItems : List Json → Prop
  | [] => True
  | item :: rest => Storable item ∧ StorableItems rest

/-- The members that a text can hold. -/
def StorableMembers : List (String × Json) → Prop
  | [] => True
  | (_, value) :: rest => Storable value ∧ StorableMembers rest

end

mutual

/-- The tokens of a value. -/
def tokens : Json → List Token
  | .string text => [.text (some text)]
  | .array items => .leftBracket :: (itemTokens items ++ [.rightBracket])
  | .object members => .leftBrace :: (memberTokens members ++ [.rightBrace])
  | j => [.scalar (some j)]

/-- The tokens of the items of an array, with commas between them. -/
def itemTokens : List Json → List Token
  | [] => []
  | [item] => item.tokens
  | item :: rest => item.tokens ++ .comma :: itemTokens rest

/-- The tokens of the members of an object, with commas between them. -/
def memberTokens : List (String × Json) → List Token
  | [] => []
  | [(key, value)] => .text (some key) :: .colon :: value.tokens
  | (key, value) :: rest =>
    .text (some key) :: .colon :: (value.tokens ++ .comma :: memberTokens rest)

end

/-! ### From texts to tokens -/

lemma isSpace_of_mem_newline {level : Nat} {c : Char} (h : c ∈ newline level) :
    isSpace c = true := by
  rcases List.mem_cons.mp h with rfl | h
  · decide
  · rw [List.eq_of_mem_replicate h]
    decide

lemma stops_newline (level : Nat) (cs : List Char) : Stops (newline level ++ cs) :=
  stops_cons (.inl (by decide))

/-- A container is closed on a line of its own. -/
lemma spells_close {c : Char} {token : Token} (h : punctuation? c = some token) (level : Nat) :
    Spells (newline level ++ [c]) [token] :=
  (spells_nil.punctuation h).spaces fun _ => isSpace_of_mem_newline

/-- Something in a container is written between the two signs of the container. -/
lemma Spells.enclosed {opening closing : Char} {left right : Token} {cs : List Char}
    {ts : List Token} (h : Spells cs ts) (hleft : punctuation? opening = some left)
    (hright : punctuation? closing = some right) (level : Nat) :
    Spells (opening :: (cs ++ newline level ++ [closing])) (left :: (ts ++ [right])) := by
  rw [List.append_assoc]
  exact (h.append (spells_close hright level) (stops_newline level _)).punctuation hleft

/-- A member is written as its key, a colon and its value. -/
lemma Spells.member {cs : List Char} {ts : List Token} (h : Spells cs ts) (level : Nat)
    (key : String) :
    Spells (newline level ++ (quoted key ++ ':' :: ' ' :: cs))
      (.text (some key) :: .colon :: ts) := by
  have hvalue : Spells (':' :: ' ' :: cs) (.colon :: ts) :=
    (h.space (by decide)).punctuation rfl
  have hstops : Stops (':' :: ' ' :: cs) := stops_cons (.inr rfl)
  exact ((spells_quoted key).append hvalue hstops).spaces fun _ => isSpace_of_mem_newline

lemma Spells.comma {cs ds : List Char} {ts us : List Token} (h : Spells cs ts)
    (hds : Spells ds us) : Spells (cs ++ ',' :: ds) (ts ++ .comma :: us) :=
  h.append (hds.punctuation rfl) (stops_cons (.inr rfl))

lemma spells_null : Spells ['n', 'u', 'l', 'l'] [.scalar (some .null)] :=
  spells_word (by decide) (List.all_eq_true.mp (by decide)) rfl

lemma spells_true : Spells ['t', 'r', 'u', 'e'] [.scalar (some (.bool true))] :=
  spells_word (by decide) (List.all_eq_true.mp (by decide)) rfl

lemma spells_false : Spells ['f', 'a', 'l', 's', 'e'] [.scalar (some (.bool false))] :=
  spells_word (by decide) (List.all_eq_true.mp (by decide)) rfl

mutual

/-- **The text of a value has the tokens of the value.** -/
theorem spells_prettyAt (level : Nat) : ∀ j : Json, j.Storable → Spells (j.prettyAt level) j.tokens
  | .null, _ => spells_null
  | .bool true, _ => spells_true
  | .bool false, _ => spells_false
  | .integer n, h => by
      obtain ⟨k, rfl⟩ := Int.eq_ofNat_of_zero_le h.1
      have hlt := h.2
      exact spells_intText (by omega)
  | .real x, h => spells_realText h
  | .string text, _ => spells_quoted text
  | .array [], _ => (spells_nil.punctuation rfl).punctuation rfl
  | .array (item :: rest), h => by
      have hitems := spells_prettyItems (level + 1) (item :: rest) (List.cons_ne_nil _ _) h
      exact hitems.enclosed rfl rfl level
  | .object [], _ => (spells_nil.punctuation rfl).punctuation rfl
  | .object (member :: rest), h => by
      have hmembers := spells_prettyMembers (level + 1) (member :: rest) (List.cons_ne_nil _ _) h
      exact hmembers.enclosed rfl rfl level

/-- The text of items has the tokens of the items. -/
theorem spells_prettyItems (level : Nat) : ∀ items : List Json, items ≠ [] →
    StorableItems items → Spells (prettyItems level items) (itemTokens items)
  | [], hne, _ => absurd rfl hne
  | [item], _, h => by
      have hitem := spells_prettyAt level item h.1
      exact hitem.spaces fun _ => isSpace_of_mem_newline
  | item :: next :: rest, _, h => by
      have hitem := spells_prettyAt level item h.1
      have hrest := spells_prettyItems level (next :: rest) (List.cons_ne_nil _ _) h.2
      exact (hitem.comma hrest).spaces fun _ => isSpace_of_mem_newline

/-- The text of members has the tokens of the members. -/
theorem spells_prettyMembers (level : Nat) : ∀ members : List (String × Json), members ≠ [] →
    StorableMembers members → Spells (prettyMembers level members) (memberTokens members)
  | [], hne, _ => absurd rfl hne
  | [(key, value)], _, h => by
      have hvalue := spells_prettyAt level value h.1
      exact hvalue.member level key
  | (key, value) :: next :: rest, _, h => by
      have hvalue := spells_prettyAt level value h.1
      have hrest := spells_prettyMembers level (next :: rest) (List.cons_ne_nil _ _) h.2
      exact (hvalue.comma hrest).member level key

end

/-! ### From tokens to forms -/

open State (run)

lemma run_cons {state next : State} {token : Token} (h : state.step token = some next)
    (rest : List Token) : run state (token :: rest) = run next rest := by
  rw [run, h]

mutual

/-- **The tokens of a value are read as its form**, wherever a value may stand. -/
theorem run_tokens (stack : List Container) (first : Bool) (rest : List Token) : ∀ j : Json,
    run (.value stack first) (j.tokens ++ rest) = run (.complete (Form.ofJson j) stack) rest
  | .null => rfl
  | .bool _ => rfl
  | .integer _ => rfl
  | .real _ => rfl
  | .string _ => rfl
  | .array [] => rfl
  | .array (item :: items) => by
      have hitems := run_itemTokens [] stack true rest (item :: items) (List.cons_ne_nil _ _)
      rw [tokens, List.cons_append, List.append_assoc, run_cons rfl]
      exact hitems
  | .object [] => rfl
  | .object (member :: members) => by
      have hmembers := run_memberTokens [] stack true rest (member :: members)
        (List.cons_ne_nil _ _)
      rw [tokens, List.cons_append, List.append_assoc, run_cons rfl]
      exact hmembers

/-- The tokens of items are read as their forms, after the items that have been read. -/
theorem run_itemTokens (done : List Form) (stack : List Container) (first : Bool)
    (rest : List Token) : ∀ items : List Json, items ≠ [] →
    run (.value (.array done :: stack) first) (itemTokens items ++ ([.rightBracket] ++ rest)) =
      run (.complete (.array (done.reverse ++ Form.ofItems items)) stack) rest
  | [], hne => absurd rfl hne
  | [item], _ => by
      rw [itemTokens, run_tokens, List.singleton_append, run_cons rfl, List.reverse_cons]
      rfl
  | item :: next :: items, _ => by
      have hitems := run_itemTokens (Form.ofJson item :: done) stack false rest (next :: items)
        (List.cons_ne_nil _ _)
      rw [itemTokens, List.append_assoc, run_tokens, List.cons_append, run_cons rfl, hitems]
      · simp [Form.ofItems]
      · exact fun h => nomatch h

/-- The tokens of members are read as their forms, after the members that have been read. -/
theorem run_memberTokens (done : List (Option String × Form)) (stack : List Container)
    (first : Bool) (rest : List Token) : ∀ members : List (String × Json), members ≠ [] →
    run (.key done stack first) (memberTokens members ++ ([.rightBrace] ++ rest)) =
      run (.complete (.object (done.reverse ++ Form.ofMembers members)) stack) rest
  | [], hne => absurd rfl hne
  | [(key, value)], _ => by
      rw [memberTokens, List.cons_append, run_cons rfl, List.cons_append, run_cons rfl, run_tokens,
        List.singleton_append, run_cons rfl, List.reverse_cons]
      rfl
  | (key, value) :: next :: members, _ => by
      have hmembers := run_memberTokens ((some key, Form.ofJson value) :: done) stack false rest
        (next :: members) (List.cons_ne_nil _ _)
      rw [memberTokens, List.cons_append, run_cons rfl, List.cons_append, run_cons rfl,
        List.append_assoc, run_tokens, List.cons_append, run_cons rfl, hmembers]
      · simp [Form.ofMembers]
      · exact fun h => nomatch h

end

/-- **The form of a value is found in its text.** -/
theorem parse?_pretty {j : Json} (h : j.Storable) :
    Form.parse? j.pretty = some (Form.ofJson j) := by
  have hlex : lex (j.prettyAt 0) = some j.tokens := by
    have hspells := spells_prettyAt 0 j h [] stops_nil
    rw [List.append_nil, lex, Option.map_some, List.append_nil] at hspells
    exact hspells
  have hrun := run_tokens [] false [] j
  rw [List.append_nil] at hrun
  rw [Form.parse?, pretty, String.toList_ofList, hlex]
  simp only [hrun, run]

/-! ### Values of forms -/

open Form in
mutual

/-- The form of a value has no other value. -/
theorem eq_of_value?_ofJson : ∀ {j j' : Json} {limit : Nat},
    (ofJson j).value? limit = some j' → j' = j
  | .array items, j', limit, h => by
      cases limit with
      | zero => cases h
      | succ limit =>
          rw [ofJson, value?] at h
          obtain ⟨values, hvalues, rfl⟩ := Option.map_eq_some_iff.mp h
          rw [eq_of_itemValues?_ofItems hvalues]
  | .object members, j', limit, h => by
      cases limit with
      | zero => cases h
      | succ limit =>
          rw [ofJson, value?] at h
          obtain ⟨values, hvalues, rfl⟩ := Option.map_eq_some_iff.mp h
          rw [eq_of_memberValues?_ofMembers hvalues]
  | .null, j', limit, h | .bool _, j', limit, h | .integer _, j', limit, h
  | .real _, j', limit, h | .string _, j', limit, h => by
      simpa [ofJson, value?] using h.symm

theorem eq_of_itemValues?_ofItems : ∀ {items values : List Json} {limit : Nat},
    itemValues? limit (ofItems items) = some values → values = items
  | [], values, limit, h => (Option.some.inj h).symm
  | item :: rest, values, limit, h => by
      rw [ofItems, itemValues?] at h
      split at h
      · rename_i value others hvalue hothers
        obtain rfl := Option.some.inj h
        rw [eq_of_value?_ofJson hvalue, eq_of_itemValues?_ofItems hothers]
      · cases h

theorem eq_of_memberValues?_ofMembers : ∀ {members values : List (String × Json)} {limit : Nat},
    memberValues? limit (ofMembers members) = some values → values = members
  | [], values, limit, h => (Option.some.inj h).symm
  | (key, item) :: rest, values, limit, h => by
      simp only [ofMembers, memberValues?] at h
      split at h
      · rename_i hkey hvalue hothers
        obtain rfl := Option.some.inj h
        obtain rfl := Option.some.inj hkey
        rw [eq_of_value?_ofJson hvalue, eq_of_memberValues?_ofMembers hothers]
      · cases h

end

end MessageCatalog.Json
