/-
Values are told apart by their text without blanks.

* `spells_compact`: the text of a value without blanks has the tokens of the value;
* `compact_injective`: values that a text can hold have different texts;
* `written`, `compact_written`: what the text of any value holds: floats that are not finite are
  null;
* `Plain`, `eq_of_compact`: a value without nulls and integers that a text can hold shares its text
  with no other value without them, whether a text can hold that one or not.
-/
import MessageCatalog.Proofs.Json.Written

namespace MessageCatalog.Json

/-! ### From texts to tokens -/

lemma Spells.between {opening closing : Char} {left right : Token} {cs : List Char}
    {ts : List Token} (h : Spells cs ts) (hleft : punctuation? opening = some left)
    (hright : punctuation? closing = some right) :
    Spells (opening :: (cs ++ [closing])) (left :: (ts ++ [right])) := by
  have hstops : Stops [closing] := stops_cons (.inr (by rw [hright]; rfl))
  exact (h.append (spells_nil.punctuation hright) hstops).punctuation hleft

lemma Spells.keyed {cs : List Char} {ts : List Token} (h : Spells cs ts) (key : String) :
    Spells (quoted key ++ ':' :: cs) (.text (some key) :: .colon :: ts) :=
  (spells_quoted key).append (h.punctuation rfl) (stops_cons (.inr rfl))

mutual

/-- **The text of a value without blanks has the tokens of the value.** -/
theorem spells_compact : ∀ j : Json, j.Storable → Spells j.compact j.tokens
  | .null, _ => spells_null
  | .bool true, _ => spells_true
  | .bool false, _ => spells_false
  | .integer n, h => by
      obtain ⟨k, rfl⟩ := Int.eq_ofNat_of_zero_le h.1
      have hlt := h.2
      exact spells_intText (by omega)
  | .real _, h => spells_realText h
  | .string text, _ => spells_quoted text
  | .array items, h => (spells_compactItems items h).between rfl rfl
  | .object members, h => (spells_compactMembers members h).between rfl rfl

/-- The text of items has the tokens of the items. -/
theorem spells_compactItems : ∀ items : List Json, StorableItems items →
    Spells (compactItems items) (itemTokens items)
  | [], _ => spells_nil
  | [item], h => spells_compact item h.1
  | item :: next :: rest, h =>
      (spells_compact item h.1).comma (spells_compactItems (next :: rest) h.2)

/-- The text of members has the tokens of the members. -/
theorem spells_compactMembers : ∀ members : List (String × Json), StorableMembers members →
    Spells (compactMembers members) (memberTokens members)
  | [], _ => spells_nil
  | [(key, value)], h => (spells_compact value h.1).keyed key
  | (key, value) :: next :: rest, h => by
      have hrest := spells_compactMembers (next :: rest) h.2
      exact ((spells_compact value h.1).comma hrest).keyed key

end

/-! ### Values apart -/

lemma lex_compact {j : Json} (h : j.Storable) : lex j.compact = some j.tokens := by
  have hspells := spells_compact j h [] stops_nil
  rwa [List.append_nil, lex, Option.map_some, List.append_nil] at hspells

/-- Values have different forms. -/
lemma ofJson_injective {i j : Json} (h : Form.ofJson i = Form.ofJson j) : i = j := by
  have hi := Form.value?_ofJson i (max i.depth j.depth) (Nat.le_max_left _ _)
  have hj := Form.value?_ofJson j (max i.depth j.depth) (Nat.le_max_right _ _)
  rw [h, hj] at hi
  exact (Option.some.inj hi).symm

/-- Values have different tokens. -/
lemma tokens_injective {i j : Json} (h : i.tokens = j.tokens) : i = j := by
  have hi := run_tokens [] false [] i
  have hj := run_tokens [] false [] j
  rw [h, hj, State.run, State.run] at hi
  injection hi with hi
  injection hi with hi
  exact ofJson_injective hi.symm

/-- **Values that a text can hold have different texts.** -/
theorem compact_injective {i j : Json} (hi : i.Storable) (hj : j.Storable)
    (h : i.compact = j.compact) : i = j := by
  have htokens := lex_compact hi
  rw [h, lex_compact hj] at htokens
  exact tokens_injective (Option.some.inj htokens).symm

/-! ### What a text holds of a value -/

mutual

/-- A value with null in place of the floats that no text can hold. -/
def written : Json → Json
  | .real x => if Number.isFinite x then .real x else .null
  | .array items => .array (writtenItems items)
  | .object members => .object (writtenMembers members)
  | j => j

/-- Items with null in place of the floats that no text can hold. -/
def writtenItems : List Json → List Json
  | [] => []
  | item :: rest => item.written :: writtenItems rest

/-- Members with null in place of the floats that no text can hold. -/
def writtenMembers : List (String × Json) → List (String × Json)
  | [] => []
  | (key, value) :: rest => (key, value.written) :: writtenMembers rest

end

lemma compactItems_comma (item next : Json) (rest : List Json) :
    compactItems (item :: next :: rest) = item.compact ++ ',' :: compactItems (next :: rest) :=
  rfl

lemma compactMembers_comma (key : String) (value : Json) (next : String × Json)
    (rest : List (String × Json)) :
    compactMembers ((key, value) :: next :: rest) =
      quoted key ++ ':' :: (value.compact ++ ',' :: compactMembers (next :: rest)) :=
  rfl

mutual

/-- A value has the text of what the text holds of it. -/
theorem compact_written : ∀ j : Json, j.written.compact = j.compact
  | .null => rfl
  | .bool _ => rfl
  | .integer _ => rfl
  | .real x => by
      by_cases hfinite : Number.isFinite x = true
      · rw [written, if_pos hfinite]
      · rw [written, if_neg hfinite, compact, compact, realText, if_neg hfinite]
  | .string _ => rfl
  | .array items => by rw [written, compact, compact, compactItems_written items]
  | .object members => by rw [written, compact, compact, compactMembers_written members]

theorem compactItems_written : ∀ items : List Json,
    compactItems (writtenItems items) = compactItems items
  | [] => rfl
  | [item] => compact_written item
  | item :: next :: rest => by
      have hrest := compactItems_written (next :: rest)
      rw [writtenItems] at hrest
      rw [writtenItems, writtenItems, compactItems_comma, compactItems_comma, compact_written item,
        hrest]

theorem compactMembers_written : ∀ members : List (String × Json),
    compactMembers (writtenMembers members) = compactMembers members
  | [] => rfl
  | [(key, value)] => by
      rw [writtenMembers, writtenMembers, compactMembers, compactMembers, compact_written value]
  | (key, value) :: (key', value') :: rest => by
      have hrest := compactMembers_written ((key', value') :: rest)
      rw [writtenMembers] at hrest
      rw [writtenMembers, writtenMembers, compactMembers_comma, compactMembers_comma,
        compact_written value, hrest]

end

/-! ### Values without nulls and integers -/

mutual

/-- A value without nulls and integers. -/
def Plain : Json → Prop
  | .null => False
  | .integer _ => False
  | .array items => PlainItems items
  | .object members => PlainMembers members
  | _ => True

/-- Items without nulls and integers. -/
def PlainItems : List Json → Prop
  | [] => True
  | item :: rest => Plain item ∧ PlainItems rest

/-- Members without nulls and integers. -/
def PlainMembers : List (String × Json) → Prop
  | [] => True
  | (_, value) :: rest => Plain value ∧ PlainMembers rest

end

mutual

/-- A text can hold a value without integers once its floats are null. -/
theorem storable_written : ∀ j : Json, j.Plain → j.written.Storable
  | .bool _, _ => trivial
  | .real x, _ => by
      by_cases hfinite : Number.isFinite x = true
      · rw [written, if_pos hfinite]
        exact hfinite
      · rw [written, if_neg hfinite]
        trivial
  | .string _, _ => trivial
  | .array items, h => storableItems_written items h
  | .object members, h => storableMembers_written members h

theorem storableItems_written : ∀ items : List Json, PlainItems items →
    StorableItems (writtenItems items)
  | [], _ => trivial
  | item :: rest, h => ⟨storable_written item h.1, storableItems_written rest h.2⟩

theorem storableMembers_written : ∀ members : List (String × Json), PlainMembers members →
    StorableMembers (writtenMembers members)
  | [], _ => trivial
  | (_, value) :: rest, h => ⟨storable_written value h.1, storableMembers_written rest h.2⟩

end

mutual

/-- If a text holds no null for a value, it holds the value. -/
theorem written_eq_of_plain : ∀ j : Json, j.written.Plain → j.written = j
  | .null, _ => rfl
  | .bool _, _ => rfl
  | .integer _, _ => rfl
  | .real x, h => by
      by_cases hfinite : Number.isFinite x = true
      · rw [written, if_pos hfinite]
      · rw [written, if_neg hfinite] at h
        exact absurd h id
  | .string _, _ => rfl
  | .array items, h => congrArg Json.array (writtenItems_eq_of_plain items h)
  | .object members, h => congrArg Json.object (writtenMembers_eq_of_plain members h)

theorem writtenItems_eq_of_plain : ∀ items : List Json, PlainItems (writtenItems items) →
    writtenItems items = items
  | [], _ => rfl
  | item :: rest, h => by
      rw [writtenItems, written_eq_of_plain item h.1, writtenItems_eq_of_plain rest h.2]

theorem writtenMembers_eq_of_plain : ∀ members : List (String × Json),
    PlainMembers (writtenMembers members) → writtenMembers members = members
  | [], _ => rfl
  | (key, value) :: rest, h => by
      rw [writtenMembers, written_eq_of_plain value h.1, writtenMembers_eq_of_plain rest h.2]

end

/-- **A value that a text can hold shares its text with no other value**, as far as there are no
nulls and integers in either. -/
theorem eq_of_compact {i j : Json} (hi : i.Plain) (hj : j.Plain) (hstorable : j.Storable)
    (h : i.compact = j.compact) : i = j := by
  have heq : i.written = j :=
    compact_injective (storable_written i hi) hstorable ((compact_written i).trans h)
  have hplain : i.written.Plain := heq ▸ hj
  exact (written_eq_of_plain i hplain).symm.trans heq

end MessageCatalog.Json
