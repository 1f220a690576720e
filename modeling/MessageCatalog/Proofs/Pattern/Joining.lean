/-
Literal text that is put behind literal text.

The parser keeps the elements of a message with the last one first, and a message never has two
literals next to each other: what is put behind a literal becomes part of it. Here this is looked at
without marks, on rows with the last element first, so that what is put behind a row does not depend
on how it was cut into pieces.

* `putLiteral`, `put`, `putAll`: literal text, an element, or a whole row, put behind a row;
* `putLiteral_putLiteral`, `putLiteral_putAll`: pieces may be put together before they are put
  behind a row;
* `Shows`: elements that are one literal, or nothing;
* `joined`: the elements of a message and of another one behind it; `putAll_reverse` makes it of the
  two rows.
-/
import MessageCatalog.Pattern.Parser
import MessageCatalog.Proofs.Pattern.WellFormed

namespace MessageCatalog.Pattern

/-- Puts literal text behind a row. It becomes part of a literal that is there. -/
def putLiteral (value : String) : List (Element Unit) → List (Element Unit)
  | .literal before () :: rest => .literal (before ++ value) () :: rest
  | row => .literal value () :: row

/-- Puts an element behind a row. -/
def put (e : Element Unit) (row : List (Element Unit)) : List (Element Unit) :=
  match e with
  | .literal value () => putLiteral value row
  | e => e :: row

/-- Puts one row behind another. -/
def putAll (row base : List (Element Unit)) : List (Element Unit) :=
  row.foldr put base

/-- The elements of a message and of another one behind it. Where two literals meet, they become one
literal. -/
def joined (front back : List (Element Unit)) : List (Element Unit) :=
  match front.reverse, back with
  | .literal before () :: rest, .literal value () :: more =>
    rest.reverse ++ .literal (before ++ value) () :: more
  | _, _ => front ++ back

/-! ### Pieces -/

lemma eq_literal_of_isLiteral {e : Element Unit} (h : e.isLiteral = true) :
    ∃ value, e = .literal value () := by
  cases e with
  | literal value mark => exact ⟨value, rfl⟩
  | _ => cases h

/-- An element is not joined unless it is literal text behind literal text. -/
lemma put_of_apart {e : Element Unit} {row : List (Element Unit)}
    (h : ∀ last ∈ row.head?, ¬(last.isLiteral = true ∧ e.isLiteral = true)) :
    put e row = e :: row := by
  cases e with
  | literal value mark =>
      cases row with
      | nil => rfl
      | cons last rest =>
          cases last with
          | literal before mark' => exact absurd ⟨rfl, rfl⟩ (h (.literal before mark') rfl)
          | _ => rfl
  | _ => rfl

/-- Two pieces of literal text may as well be put behind a row at once. -/
lemma putLiteral_putLiteral (before value : String) (row : List (Element Unit)) :
    putLiteral value (putLiteral before row) = putLiteral (before ++ value) row := by
  cases row with
  | nil => rfl
  | cons last rest =>
      cases last with
      | literal first mark => simp only [putLiteral, String.append_assoc]
      | _ => rfl

/-- Literal text may be put behind a row before the row is put behind another. -/
lemma putLiteral_putAll (value : String) (row base : List (Element Unit)) :
    putLiteral value (putAll row base) = putAll (putLiteral value row) base := by
  cases row with
  | nil => rfl
  | cons last rest =>
      cases last with
      | literal before mark => exact putLiteral_putLiteral before value (putAll rest base)
      | _ => rfl

/-- The parser puts literal text behind elements in the same way. -/
lemma stripAll_pushLiteral (value : String) (span : Span) (es : List (Element Span)) :
    Element.stripAll (pushLiteral value span es) = putLiteral value (Element.stripAll es) := by
  cases es with
  | nil => rfl
  | cons last rest => cases last <;> rfl

lemma stripAll_eq_map {σ : Type} (es : List (Element σ)) :
    Element.stripAll es = es.map Element.strip := by
  induction es with
  | nil => rfl
  | cons e rest ih => rw [Element.stripAll, ih, List.map_cons]

lemma stripAll_reverse {σ : Type} (es : List (Element σ)) :
    Element.stripAll es.reverse = (Element.stripAll es).reverse := by
  rw [stripAll_eq_map, stripAll_eq_map, List.map_reverse]

/-! ### One literal -/

/-- Elements that show a text as it is, in one literal at most. -/
inductive Shows : String → List (Element Span) → Prop where
  | nothing : Shows "" []
  | literal {value span} : Shows value [.literal value span]

lemma Shows.pushLiteral {shown : String} {es : List (Element Span)} (h : Shows shown es)
    (value : String) (span : Span) : Shows (shown ++ value) (pushLiteral value span es) := by
  cases h with
  | nothing =>
      rw [String.empty_append]
      exact .literal
  | literal => exact .literal

/-- Literal text behind literal text may be put there at once. -/
lemma Shows.putAll_putLiteral {more : String} {es : List (Element Span)} (h : Shows more es)
    (value : String) (row : List (Element Unit)) :
    putAll (Element.stripAll es) (putLiteral value row) = putLiteral (value ++ more) row := by
  cases h with
  | nothing =>
      rw [String.append_empty]
      rfl
  | literal => exact putLiteral_putLiteral value more row

lemma Shows.reverse {shown : String} {es : List (Element Span)} (h : Shows shown es) :
    Shows shown es.reverse := by
  cases h with
  | nothing => exact .nothing
  | literal => exact .literal

/-! ### Messages -/

/-- Behind an element, the elements of a message stay as they are, unless the element is literal
text and the message starts with literal text. -/
lemma foldl_put_cons {last : Element Unit} {es : List (Element Unit)} (h : Separated (last :: es))
    (row : List (Element Unit)) :
    es.foldl (fun row e => put e row) (last :: row) = es.reverse ++ last :: row := by
  induction es generalizing last row with
  | nil => rfl
  | cons e rest ih =>
      obtain ⟨hneighbours, hrest⟩ := List.isChain_cons_cons.mp h
      have hput : put e (last :: row) = e :: last :: row :=
        put_of_apart fun a ha => Option.some.inj ha ▸ hneighbours
      rw [List.foldl_cons, hput, ih hrest, List.reverse_cons, List.append_assoc]
      rfl

/-- Nothing is joined to nothing. -/
lemma joined_nil (front : List (Element Unit)) : joined front [] = front := by
  rw [joined.eq_def]
  cases front.reverse with
  | nil => exact List.append_nil front
  | cons last others => cases last <;> exact List.append_nil front

/-- Where no two literals meet, messages are joined by standing one behind the other. -/
lemma joined_of_apart {front rest : List (Element Unit)} {e : Element Unit}
    (h : ∀ last ∈ front.reverse.head?, ¬(last.isLiteral = true ∧ e.isLiteral = true)) :
    joined front (e :: rest) = front ++ e :: rest := by
  rw [joined.eq_def]
  cases hfront : front.reverse with
  | nil => rfl
  | cons last others =>
      have hneighbours := h last (by rw [hfront]; rfl)
      cases last with
      | literal =>
          cases e with
          | literal => exact absurd ⟨rfl, rfl⟩ hneighbours
          | _ => rfl
      | _ => rfl

/-- Where two literals meet, they become one. -/
lemma joined_of_literals {front others : List (Element Unit)} {before : String}
    (h : front.reverse = .literal before () :: others) (value : String)
    (rest : List (Element Unit)) : joined front (.literal value () :: rest) =
      others.reverse ++ .literal (before ++ value) () :: rest := by
  rw [joined.eq_def, h]

/-- Messages are joined by standing one behind the other, or two literals meet. -/
lemma joined_cases (front back : List (Element Unit)) : joined front back = front ++ back ∨
    ∃ others before value rest, front = others ++ [.literal before ()] ∧
      back = .literal value () :: rest ∧
      joined front back = others ++ .literal (before ++ value) () :: rest := by
  rw [joined.eq_def]
  split
  · rename_i before others value rest hfront
    refine .inr ⟨others.reverse, before, value, rest, ?_, rfl, rfl⟩
    rw [← List.reverse_cons, ← hfront, List.reverse_reverse]
  · exact .inl rfl

/-- **A message that is put behind another one is joined to it.** -/
theorem putAll_reverse {back : List (Element Unit)} (h : Separated back)
    (front : List (Element Unit)) :
    putAll back.reverse front.reverse = (joined front back).reverse := by
  rw [putAll, List.foldr_reverse]
  cases back with
  | nil => rw [joined_nil, List.foldl_nil]
  | cons e rest =>
      rw [List.foldl_cons]
      -- Where two literals meet they become one; from there on the rest is put down as it is.
      by_cases hmeet : ∃ last ∈ front.reverse.head?, last.isLiteral = true ∧ e.isLiteral = true
      · obtain ⟨last, hlast, hlit, he⟩ := hmeet
        obtain ⟨before, rfl⟩ := eq_literal_of_isLiteral hlit
        obtain ⟨value, rfl⟩ := eq_literal_of_isLiteral he
        obtain ⟨others, hfront⟩ := List.head?_eq_some_iff.mp hlast
        have hrest : Separated (.literal (before ++ value) () :: rest) :=
          List.isChain_cons.mpr (List.isChain_cons.mp h)
        rw [joined_of_literals hfront, hfront, put, putLiteral, foldl_put_cons hrest]
        simp
      · have hapart : ∀ last ∈ front.reverse.head?,
            ¬(last.isLiteral = true ∧ e.isLiteral = true) :=
          fun last hlast hlit => hmeet ⟨last, hlast, hlit⟩
        rw [joined_of_apart hapart, put_of_apart hapart, foldl_put_cons h]
        simp

end MessageCatalog.Pattern
