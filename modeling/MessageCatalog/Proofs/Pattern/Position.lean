/-
Positions, counted anew.

A reader of a text carries its place along and moves it over one character after the other. Here a
place is counted from all that is in front of it, and a span from what is in front of it and in it,
so that it is no matter how a reader got there.

* `lineAfter`, `columnAfter`: the line and the column behind some characters;
* `Cursor.behind`: the place behind some characters, in bytes, lines and columns;
  `behind_advance` is what the readers rely on;
* `spanOf`: the span of some characters that stand behind others;
* `Span.Within`: spans of some part of a text; both ends of them are between characters of the text
  (`Span.Within.isValid`), and their lines and columns fit 32 bits unless the text has about as many
  characters as there are such numbers (`Span.Within.fits`).
-/
import Mathlib
import MessageCatalog.Pattern.Span

namespace MessageCatalog.Pattern

open String (utf8Len utf8Len_append utf8Len_cons utf8Len_nil)

/-! ### Places -/

/-- The line behind some characters: one more than there are line ends among them. -/
def lineAfter (front : List Char) : Nat :=
  1 + front.count '\n'

/-- The column behind some characters: one more than there are characters behind the last line end
among them. -/
def columnAfter (front : List Char) : Nat :=
  1 + (front.rtakeWhile (· ≠ '\n')).length

/-- The place behind some characters. -/
def Cursor.behind (front : List Char) : Cursor :=
  ⟨utf8Len front, lineAfter front, columnAfter front⟩

lemma behind_nil : Cursor.behind [] = .start := rfl

lemma lineAfter_concat (front : List Char) (c : Char) :
    lineAfter (front ++ [c]) = if c = '\n' then lineAfter front + 1 else lineAfter front := by
  rw [lineAfter, List.count_append, List.count_singleton]
  split <;> simp_all [lineAfter, Nat.add_assoc]

lemma columnAfter_concat (front : List Char) (c : Char) :
    columnAfter (front ++ [c]) = if c = '\n' then 1 else columnAfter front + 1 := by
  rw [columnAfter, List.rtakeWhile_concat]
  split <;> simp_all [columnAfter, Nat.add_assoc]

lemma lineAfter_le (front : List Char) : lineAfter front ≤ front.length + 1 := by
  have hcount : front.count '\n' ≤ front.length := List.count_le_length
  rw [lineAfter]
  omega

lemma columnAfter_le (front : List Char) : columnAfter front ≤ front.length + 1 := by
  have hlast : (front.rtakeWhile (· ≠ '\n')).length ≤ front.length :=
    (List.rtakeWhile_suffix _ front).length_le
  rw [columnAfter]
  omega

/-- A step over a character leads behind it. -/
lemma behind_advance (front : List Char) (c : Char) :
    (Cursor.behind front).advance c = .behind (front ++ [c]) := by
  have hsize : utf8Len (front ++ [c]) = utf8Len front + c.utf8Size := by
    rw [utf8Len_append, utf8Len_cons, utf8Len_nil, Nat.zero_add]
  rw [Cursor.behind, Cursor.behind, hsize, lineAfter_concat, columnAfter_concat, Cursor.advance]
  by_cases hc : c = '\n'
  · simp only [hc, beq_self_eq_true, if_true]
  · simp only [hc, beq_iff_eq, if_false]

/-! ### Spans -/

/-- The span of some characters behind others. -/
def spanOf (front piece : List Char) : Span :=
  (Cursor.behind front).to (utf8Len (front ++ piece))

/-- A character that is written in one byte ends one byte behind its start. -/
lemma to_succ_eq_spanOf {c : Char} (hc : c.utf8Size = 1) (front : List Char) :
    (Cursor.behind front).to ((Cursor.behind front).offset + 1) = spanOf front [c] := by
  simp [spanOf, Cursor.behind, utf8Len_append, hc]

/-- The spans of two pieces make up the span from the start of one to the end of the other. -/
lemma spanOf_merge (front first middle last : List Char) :
    (spanOf front first).merge (spanOf (front ++ first ++ middle) last) =
      spanOf front (first ++ middle ++ last) := by
  simp [spanOf, Span.merge, Cursor.to, List.append_assoc]

/-- A span of some part of a text: it starts and ends between characters of the text, and its line
and column are those of its start. -/
def Span.Within (span : Span) (text : List Char) : Prop :=
  ∃ front piece back, text = front ++ piece ++ back ∧ span = spanOf front piece

lemma within_spanOf (front piece : List Char) : (spanOf front piece).Within (front ++ piece) :=
  ⟨front, piece, [], by simp, rfl⟩

/-- A part of a text is a part of every longer one. -/
lemma Span.Within.append {span : Span} {text : List Char} (h : span.Within text)
    (more : List Char) : span.Within (text ++ more) := by
  obtain ⟨front, piece, back, rfl, rfl⟩ := h
  exact ⟨front, piece, back ++ more, by simp, rfl⟩

/-- The line and the column of a span fit 32 bits if the characters of the text can be counted with
as many, and one more. -/
theorem Span.Within.fits {span : Span} {text : List Char} (h : span.Within text)
    (hlength : text.length + 1 < 2 ^ 32) : span.line < 2 ^ 32 ∧ span.column < 2 ^ 32 := by
  obtain ⟨front, piece, back, rfl, rfl⟩ := h
  have hfront : front.length + 1 < 2 ^ 32 := by
    rw [List.length_append, List.length_append] at hlength
    omega
  exact ⟨(lineAfter_le front).trans_lt hfront, (columnAfter_le front).trans_lt hfront⟩

/-- The ends of a span of some part of a text are places between characters of it, in order. -/
theorem Span.Within.isValid {span : Span} {text : String} (h : span.Within text.toList) :
    span.start ≤ span.stop ∧ span.stop ≤ text.utf8ByteSize ∧
      String.Pos.Raw.IsValid text ⟨span.start⟩ ∧ String.Pos.Raw.IsValid text ⟨span.stop⟩ := by
  obtain ⟨front, piece, back, htext, rfl⟩ := h
  obtain rfl : text = String.ofList (front ++ piece ++ back) := by
    rw [← htext, String.ofList_toList]
  simp only [spanOf, Cursor.to, Cursor.behind, String.Pos.Raw.isValid_iff_exists_append]
  refine ⟨?_, ?_, ⟨.ofList front, .ofList (piece ++ back), ?_, ?_⟩,
    ⟨.ofList (front ++ piece), .ofList back, ?_, ?_⟩⟩
  · rw [utf8Len_append]
    omega
  · rw [String.utf8ByteSize_ofList, utf8Len_append (front ++ piece)]
    omega
  · rw [← String.ofList_append, List.append_assoc]
  · rw [String.rawEndPos, String.utf8ByteSize_ofList]
  · rw [← String.ofList_append]
  · rw [String.rawEndPos, String.utf8ByteSize_ofList]

end MessageCatalog.Pattern
