/-
The spans of a pattern, and of what is wrong with it.

The parser never looks at the text. It only has the spans of tokens, and of those it keeps few: the
left brace of every open statement, the key of every open case, and the elements that are done. The
invariant says on which characters all of these stand, so that whatever is made of them, an element
or an error, has the span of a part of the text.

* `Row`: the elements of a message that is being read, on the characters read so far;
* `Choice.At`, `Place.At`, `Rows`: the same for a statement, a place in a block and all open cases;
* `State.Stands`: the invariant; `State.Stands.step`, `State.Stands.run`: along one token and along
  many;
* `parse_exact`: the elements of a text tile it;
* `parse_error_exact`: errors point into the text, but for the one at its end.
-/
import MessageCatalog.Proofs.Pattern.Located
import MessageCatalog.Proofs.Pattern.Tiling

namespace MessageCatalog.Pattern

open Plural (Key Kind)
open String (utf8Len)

/-! ### Messages -/

/-- The elements of a message that is being read, the last one first, on the characters read so far.
Literal text that has been read may still become longer. -/
inductive Row (start : List Char) : List (Element Span) → List Char → Prop where
  | nil : Row start [] []
  | literal {es read piece value} : Row start es read → IsText piece value →
      Row start (.literal value (spanOf (start ++ read) piece) :: es) (read ++ piece)
  | element {es e read piece} : Row start es read → e.isLiteral = false →
      e.Covers (start ++ read) piece → Braced true piece → Row start (e :: es) (read ++ piece)

namespace Row

variable {start read piece : List Char} {es : List (Element Span)}

lemma tiles (h : Row start es read) : Tiles start read es.reverse := by
  induction h with
  | nil => exact .nil
  | literal _ htext ih =>
      rw [List.reverse_cons, htext.eq_unescape]
      exact ih.concat .literal
  | element _ _ hcovers _ ih =>
      rw [List.reverse_cons]
      exact ih.concat hcovers

lemma braced (h : Row start es read) : Braced true read := by
  induction h with
  | nil => exact .nil
  | literal _ htext ih => exact ih.append htext.braced
  | element _ _ _ hpiece ih => exact ih.append hpiece

/-- What the elements end with when literal text is put behind them: a literal that starts with the
literal text that was there, if there was any. -/
lemma pushLiteral_eq (h : Row start es read) : ∃ rest first before value, Row start rest first ∧
    IsText before value ∧ read = first ++ before ∧ ∀ added piece,
      Pattern.pushLiteral added (spanOf (start ++ read) piece) es =
        .literal (value ++ added) (spanOf (start ++ first) (before ++ piece)) :: rest := by
  cases h with
  | nil =>
      refine ⟨[], [], [], "", .nil, isText_nil, rfl, fun added piece => ?_⟩
      simp [Pattern.pushLiteral]
  | @literal rest first before value hrest hbefore =>
      refine ⟨rest, first, before, value, hrest, hbefore, rfl, fun added piece => ?_⟩
      have hmerge := spanOf_merge (start ++ first) before [] piece
      simp only [List.append_nil] at hmerge
      rw [Pattern.pushLiteral, ← List.append_assoc, hmerge]
  -- An element that is no literal stays as it is, and the new literal joins an empty one.
  | @element es e first more hes hlit hcovers hmore =>
      refine ⟨e :: es, first ++ more, [], "", .element hes hlit hcovers hmore, isText_nil, by simp,
        fun added piece => ?_⟩
      rw [Pattern.pushLiteral, String.empty_append, List.nil_append]
      rintro _ _ _ hcons
      rw [(List.cons.inj hcons).1] at hlit
      cases hlit

lemma pushLiteral {value : String} (h : Row start es read) (htext : IsText piece value) :
    Row start (Pattern.pushLiteral value (spanOf (start ++ read) piece) es) (read ++ piece) := by
  obtain ⟨rest, first, before, _, hrest, hbefore, rfl, heq⟩ := h.pushLiteral_eq
  rw [heq, List.append_assoc]
  exact .literal hrest (hbefore.append htext)

/-- The last literal text of a pattern may be any characters: nothing stands behind them. -/
lemma tiles_pushLiteral (h : Row start es read) (piece : List Char) :
    Tiles start (read ++ piece) (Pattern.pushLiteral (unescape (.ofList piece))
      (spanOf (start ++ read) piece) es).reverse := by
  obtain ⟨rest, first, before, value, hrest, hbefore, rfl, heq⟩ := h.pushLiteral_eq
  rw [heq, hbefore.append_unescape, List.append_assoc, List.reverse_cons]
  exact hrest.tiles.concat .literal

end Row

/-! ### Errors -/

/-- An error that points into a text: it is not about its end, and its span is that of some part. -/
def ParseError.Points (text : List Char) (e : ParseError) : Prop :=
  e.cause ≠ .unclosedBrace ∧ e.span.Within text

lemma ParseError.Points.append {text : List Char} {e : ParseError} (h : e.Points text)
    (more : List Char) : e.Points (text ++ more) :=
  ⟨h.1, h.2.append more⟩

/-! ### Cases -/

/-- Cases with their keys as they are written, on the text of a statement. -/
abbrev WrittenCasesTile (front text : List Char) (cases : List (Case String Span (Element Span))) :
    Prop :=
  CasesTile (fun word key => String.ofList word = key) front text cases

/-- Reading the keys of plural cases leaves the cases where they are. -/
lemma CasesTile.of_readsAs : ∀ {front text written cases},
    WrittenCasesTile front text written → List.Forall₂ (ReadsAs Key.ofText?) written cases →
      CasesTile (fun word key => Key.ofText? (.ofList word) = some key) front text cases
  | _, _, _, _, .nil hblanks, .nil => .nil hblanks
  | _, _, _, ⟨_, _, _⟩ :: _, .cons hblanks hkey hgap hbody htiles hrest, .cons hfirst hothers => by
      obtain ⟨hread, hsame, hmark⟩ := hfirst
      cases hmark
      cases hsame
      rw [← hkey] at hread
      exact .cons hblanks hread hgap hbody htiles (hrest.of_readsAs hothers)

lemma mem_marksOfSelect {σ : Type} {c : Case String σ (Element σ)} {cases} (h : c ∈ cases) :
    c.mark ∈ Element.marksOfSelect cases := by
  induction cases with
  | nil => cases h
  | cons first rest ih =>
      rw [Element.marksOfSelect]
      rcases List.mem_cons.mp h with rfl | h
      · exact List.mem_cons_self
      · exact List.mem_cons_of_mem _ (List.mem_append_right _ (ih h))

/-- The spans of cases are spans of parts of the text. -/
lemma CasesTile.points {front text : List Char} {cases : List (Case String Span (Element Span))}
    (h : WrittenCasesTile front text cases) {e : ParseError} (he : e.IsAtKey cases) :
    e.Points (front ++ text) := by
  obtain ⟨hcause, hspan⟩ := he
  obtain ⟨c, hc, hmark⟩ := List.mem_map.mp hspan
  exact ⟨by rcases hcause with h | h <;> simp [h], hmark ▸ h.within_select _ (mem_marksOfSelect hc)⟩

/-! ### Statements -/

/-- A statement whose cases are being read, on the characters from its left brace on. -/
def Choice.At (choice : Choice) (start front : List Char) : Prop :=
  ∃ head text, front = start ++ '{' :: (head ++ text) ∧ choice.brace = spanOf start ['{'] ∧
    Braced false (head ++ text) ∧
    WrittenCasesTile (start ++ '{' :: head) text choice.cases.reverse

/-- What comes out when an element is made of the characters behind some others, up to a place. -/
def Makes (start front : List Char) : Except ParseError (Element Span) → Prop
  | .ok e => e.isLiteral = false ∧
    ∃ piece, front = start ++ piece ∧ e.Covers start piece ∧ Braced true piece
  | .error e => e.Points front

/-- The span of a block goes from its left brace to its right one. -/
lemma merge_braces (start inner : List Char) :
    (spanOf start ['{']).merge (spanOf (start ++ '{' :: inner) ['}']) =
      spanOf start ('{' :: (inner ++ ['}'])) := by
  have hmerge := spanOf_merge start ['{'] inner ['}']
  simpa using hmerge

/-- **Closing a statement** makes an element of all its characters, or says what is wrong with one
of its cases or with all of it. -/
lemma Choice.At.close {choice : Choice} {start front : List Char} (h : choice.At start front) :
    Makes start (front ++ ['}']) (choice.close (spanOf front ['}'])) := by
  obtain ⟨head, text, rfl, hbrace, hbraced, hcases⟩ := h
  have hblock : IsBlock ('{' :: (head ++ text ++ ['}'])) := ⟨head ++ text, hbraced, rfl⟩
  have hend : start ++ '{' :: (head ++ text) ++ ['}'] =
      start ++ '{' :: (head ++ text ++ ['}']) := by
    simp
  -- Whatever is wrong, it is wrong with the key of a case or with the whole statement.
  have hcase : ∀ e : ParseError, e.IsAtKey choice.cases.reverse →
      e.Points (start ++ '{' :: (head ++ text ++ ['}'])) := by
    intro e he
    have hpoints := (hcases.points he).append ['}']
    simpa using hpoints
  have hother : ParseError.Points (start ++ '{' :: (head ++ text ++ ['}']))
      ⟨.missingOther, spanOf start ('{' :: (head ++ text ++ ['}']))⟩ :=
    ⟨by simp, within_spanOf _ _⟩
  rw [Choice.close, hbrace, merge_braces, hend]
  cases choice.selector with
  | plural kind offset =>
      rw [pluralCases_eq_readKeys]
      cases hread : readKeys Key.ofText? Key.text [] choice.cases.reverse with
      | error e => exact hcase e (raises_readKeys _ _ e hread)
      | ok cases =>
          simp only [bind, Except.bind]
          split
          · have htile := hcases.of_readsAs (readKeys_eq_ok_iff.mp hread).1
            exact ⟨rfl, _, rfl, .plural hblock rfl htile, hblock.braced⟩
          · exact hother
  | select =>
      cases hread : selectCases [] choice.cases.reverse with
      | error e =>
          rw [selectCases_eq_readKeys] at hread
          exact hcase e (raises_readKeys _ _ e hread)
      | ok cases =>
          obtain ⟨rfl, -, -⟩ := selectCases_eq_ok_iff.mp hread
          simp only [bind, Except.bind]
          split
          · exact ⟨rfl, _, rfl, .select hblock rfl hcases, hblock.braced⟩
          · exact hother

/-! ### Blocks -/

/-- The words of a block, on the characters from its left brace on. -/
def InBlock (brace : Span) (start front : List Char) : Prop :=
  ∃ inner, front = start ++ '{' :: inner ∧ brace = spanOf start ['{'] ∧ Braced false inner

lemma inBlock_start (start : List Char) : InBlock (spanOf start ['{']) start (start ++ ['{']) :=
  ⟨[], rfl, rfl, .nil⟩

lemma InBlock.append {brace : Span} {start front piece : List Char} (h : InBlock brace start front)
    (hpiece : Braced false piece) : InBlock brace start (front ++ piece) := by
  obtain ⟨inner, rfl, hbrace, hinner⟩ := h
  exact ⟨inner ++ piece, by simp, hbrace, hinner.append hpiece⟩

/-- A block that ends is a piece of its own. -/
lemma InBlock.close {brace : Span} {start front : List Char} (h : InBlock brace start front) :
    ∃ piece, front ++ ['}'] = start ++ piece ∧
      brace.merge (spanOf front ['}']) = spanOf start piece ∧ IsBlock piece := by
  obtain ⟨inner, rfl, rfl, hinner⟩ := h
  exact ⟨'{' :: (inner ++ ['}']), by simp, merge_braces start inner, inner, hinner, rfl⟩

/-- A statement starts behind any words. -/
lemma InBlock.choice {brace : Span} {start front : List Char} (h : InBlock brace start front)
    (arg : String) (selector : Selector) : Choice.At ⟨brace, arg, selector, []⟩ start front := by
  obtain ⟨inner, rfl, hbrace, hinner⟩ := h
  exact ⟨inner, [], by simp, hbrace, by simpa using hinner, .nil areBlanks_nil⟩

/-- The key of a case, behind the cases in front of it. -/
def KeyAt (choice : Choice) (key : String) (span : Span) (start front : List Char) : Prop :=
  ∃ before gap, front = before ++ key.toList ++ gap ∧ span = spanOf before key.toList ∧
    Braced false key.toList ∧ AreBlanks gap ∧ choice.At start before

/-- A place in a message or a block, on the characters from the start of the block on. -/
def Place.At (start front : List Char) : Place → Prop
  | .message => front = start
  | .name brace | .named brace _ | .type brace _ | .call brace _ _ | .style brace _ _ _ _
  | .plural brace _ _ | .offset brace _ _ | .select brace _ => InBlock brace start front
  | .offsetNumber brace _ _ word => InBlock brace start front ∧ word.Within front
  | .cases choice => choice.At start front
  | .body choice key span => KeyAt choice key span start front

lemma Choice.At.blank {choice : Choice} {start front : List Char} (h : choice.At start front)
    {c : Char} (hc : Text.isSpace c = true) : choice.At start (front ++ [c]) := by
  obtain ⟨head, text, rfl, hbrace, hbraced, hcases⟩ := h
  refine ⟨head, text ++ [c], by simp, hbrace, ?_, hcases.blank hc⟩
  rw [← List.append_assoc]
  exact hbraced.append (braced_blank hc)

/-- Blanks between words change nothing. -/
lemma Place.At.blank {place : Place} {start front : List Char} (h : place.At start front)
    (hplace : place ≠ .message) {c : Char} (hc : Text.isSpace c = true) :
    place.At start (front ++ [c]) := by
  cases place with
  | message => exact absurd rfl hplace
  | name | named | type | call | style | plural | offset | select =>
      exact InBlock.append h (braced_blank hc)
  | offsetNumber brace arg kind word => exact ⟨h.1.append (braced_blank hc), h.2.append [c]⟩
  | cases choice => exact Choice.At.blank h hc
  | body choice key span =>
      obtain ⟨before, gap, rfl, hspan, hkey, hgap, hchoice⟩ := h
      exact ⟨before, gap ++ [c], by simp, hspan, hkey, hgap.concat hc, hchoice⟩

lemma braced_caseText {key gap body : List Char} (hkey : Braced false key) (hgap : AreBlanks gap)
    (hbody : Braced true body) : Braced false (caseText key gap body) :=
  (hkey.append hgap.braced).append (.block hbody .nil)

/-! ### States -/

/-- The elements in front of a place, and those in front of each open case around it. -/
def Rows : List (Element Span) → List OpenCase → List Char → Prop
  | es, [], front => Row [] es front
  | es, c :: outer, front => ∃ start before body, front = before ++ '{' :: body ∧
    KeyAt c.choice c.key c.span start before ∧ Row (before ++ ['{']) es body ∧
    Rows c.before outer start

/-- **The invariant of the parser**: how the elements, the place and the open cases of a state stand
on the characters read so far. -/
def State.Stands (s : State) (front : List Char) : Prop :=
  ∃ start, s.place.At start front ∧ Rows s.elements s.outer start

/-- How many braces are open in a state. -/
def State.depth (s : State) : Nat :=
  match s.place with
  | .message => 2 * s.outer.length
  | _ => 2 * s.outer.length + 1

lemma Rows.pushLiteral {es : List (Element Span)} {outer : List OpenCase} {front piece : List Char}
    {value : String} (h : Rows es outer front) (htext : IsText piece value) :
    Rows (Pattern.pushLiteral value (spanOf front piece) es) outer (front ++ piece) := by
  cases outer with
  | nil => exact Row.pushLiteral h htext
  | cons c outer =>
      obtain ⟨start, before, body, rfl, hkey, hrow, hrows⟩ := h
      refine ⟨start, before, body ++ piece, by simp, hkey, ?_, hrows⟩
      have hpush := hrow.pushLiteral htext
      simpa using hpush

lemma Rows.push {es : List (Element Span)} {outer : List OpenCase} {front piece : List Char}
    {e : Element Span} (h : Rows es outer front) (hlit : e.isLiteral = false)
    (hcovers : e.Covers front piece) (hpiece : Braced true piece) :
    Rows (e :: es) outer (front ++ piece) := by
  cases outer with
  | nil => exact Row.element h hlit hcovers hpiece
  | cons c outer =>
      obtain ⟨start, before, body, rfl, hkey, hrow, hrows⟩ := h
      refine ⟨start, before, body ++ piece, by simp, hkey, ?_, hrows⟩
      exact .element hrow hlit (by simpa using hcovers) hpiece

/-- **The right brace of a case** puts it behind the others of its statement. -/
lemma Rows.closeCase {es : List (Element Span)} {c : OpenCase} {outer : List OpenCase}
    {front : List Char} (h : Rows es (c :: outer) front) :
    ∃ start, Rows c.before outer start ∧
      Choice.At { c.choice with
        cases := ⟨c.key, es.reverse, c.span.merge (spanOf front ['}'])⟩ :: c.choice.cases }
        start (front ++ ['}']) := by
  obtain ⟨start, _, body, rfl, ⟨before, gap, rfl, hspan, hkey, hgap, hchoice⟩, hrow, hrows⟩ := h
  obtain ⟨head, text, rfl, hbrace, hbraced, hcases⟩ := hchoice
  -- The span of the case goes from its key to the brace, over the blanks and the body between them.
  have hmark : c.span.merge
      (spanOf (start ++ '{' :: (head ++ text) ++ c.key.toList ++ gap ++ '{' :: body) ['}']) =
        spanOf (start ++ '{' :: head ++ text) (caseText c.key.toList gap body) := by
    have hmerge :=
      spanOf_merge (start ++ '{' :: head ++ text) c.key.toList (gap ++ '{' :: body) ['}']
    rw [hspan]
    simpa [caseText] using hmerge
  refine ⟨start, hrows, head, text ++ caseText c.key.toList gap body, ?_, hbrace, ?_, ?_⟩
  · simp [caseText]
  · rw [← List.append_assoc]
    exact hbraced.append (braced_caseText hkey hgap hrow.braced)
  · rw [List.reverse_cons, hmark]
    exact hcases.concat String.ofList_toList hgap hrow.braced (by simpa using hrow.tiles)

/-! ### Steps -/

/-- What comes out of a step up to a place: a state that stands on the characters up to there, with
so many open braces, or an error that points into them. -/
def Lands (depth : Nat) (front : List Char) : Except ParseError State → Prop
  | .ok s => s.depth = depth ∧ s.Stands front
  | .error e => e.Points front

/-- What is said about a token points at it. -/
lemma lands_error {depth : Nat} {front piece : List Char} {cause : Cause}
    (h : cause ≠ .unclosedBrace) :
    Lands depth (front ++ piece) (.error ⟨cause, spanOf front piece⟩) :=
  ⟨h, within_spanOf front piece⟩

lemma isLiteral_even (n : Nat) : isLiteral (2 * n) = true := by
  simp [isLiteral]

lemma isLiteral_odd (n : Nat) : isLiteral (2 * n + 1) = false := by
  simp [isLiteral]

/-- The tokens inside a block of a state with so many open cases: braces, and tokens that leave all
braces open. -/
inductive Inner (opened : Nat) : List Char → Symbol → Nat → Prop where
  | leftBrace : Inner opened ['{'] .leftBrace (2 * (opened + 1))
  | rightBrace : Inner opened ['}'] .rightBrace (2 * opened)
  | comma : Inner opened [','] .comma (2 * opened + 1)
  | word {w} : Braced false w.toList → Inner opened w.toList (.word w) (2 * opened + 1)

lemma Sits.inner {opened depth : Nat} {piece : List Char} {symbol : Symbol}
    (h : Sits (2 * opened + 1) piece symbol depth) : Inner opened piece symbol depth := by
  generalize hdepth : 2 * opened + 1 = braces at h
  cases h with
  | text hlit | hash hlit =>
      rw [← hdepth, isLiteral_odd] at hlit
      cases hlit
  | leftBrace =>
      rw [← hdepth]
      exact .leftBrace
  | rightBrace =>
      rw [← Nat.succ.inj hdepth]
      exact .rightBrace
  | comma =>
      rw [← hdepth]
      exact .comma
  | word _ hw =>
      rw [← hdepth]
      exact .word (braced_of_forall fun c hc => (hw c hc).2.2)

lemma braced_comma : Braced false [','] := braced_of_forall (by simp)

section Steps

variable {es : List (Element Span)} {outer : List OpenCase} {start front piece : List Char}
  {symbol : Symbol} {depth : Nat} {brace : Span} (place : Place)

/-- A token inside a message. -/
lemma lands_inMessage (hrows : Rows es outer front)
    (h : Sits (2 * outer.length) piece symbol depth) :
    Lands depth (front ++ piece)
      (State.inMessage ⟨es, .message, outer⟩ ⟨symbol, spanOf front piece⟩) := by
  generalize hdepth : 2 * outer.length = braces at h
  cases h with
  | text _ htext => exact ⟨hdepth, front ++ piece, rfl, hrows.pushLiteral htext⟩
  | hash =>
      simp only [State.inMessage]
      split
      · exact ⟨hdepth, _, rfl, hrows.push rfl .numberSign isText_hash.braced⟩
      · exact ⟨hdepth, _, rfl, hrows.pushLiteral isText_hash⟩
  | leftBrace => exact ⟨congrArg (· + 1) hdepth, front, inBlock_start front, hrows⟩
  -- Behind the brace the parser is in the block of the innermost case again, one brace less deep.
  | rightBrace =>
      cases outer with
      | nil => cases hdepth
      | cons c outer =>
          obtain ⟨start, hbefore, hchoice⟩ := hrows.closeCase
          refine ⟨?_, start, hchoice, hbefore⟩
          rw [List.length_cons] at hdepth
          simp only [State.depth]
          omega
  | comma => exact lands_error (by simp)
  | word => exact lands_error (by simp)

/-- The right brace of a block that has no cases. -/
lemma lands_closeBlock (hrows : Rows es outer start) (hblock : InBlock brace start front)
    {e : Span → Element Span} (hlit : ∀ span, (e span).isLiteral = false)
    (hcovers : ∀ piece, IsBlock piece → (e (spanOf start piece)).Covers start piece) :
    Lands (2 * outer.length) (front ++ ['}'])
      (.ok (State.push ⟨es, place, outer⟩ (e (brace.merge (spanOf front ['}']))))) := by
  obtain ⟨piece, hfront, hspan, hpiece⟩ := hblock.close
  rw [hfront, hspan]
  exact ⟨rfl, _, rfl, hrows.push (hlit _) (hcovers piece hpiece) hpiece.braced⟩

/-- A key or the right brace of a statement. -/
lemma lands_inCases (hrows : Rows es outer start) {choice : Choice}
    (hchoice : choice.At start front) (h : Sits (2 * outer.length + 1) piece symbol depth) :
    Lands depth (front ++ piece)
      (State.inCases ⟨es, place, outer⟩ choice ⟨symbol, spanOf front piece⟩) := by
  cases h.inner with
  | leftBrace | comma => exact lands_error (by simp)
  | rightBrace =>
      have hmakes := hchoice.close
      simp only [State.inCases]
      cases hclose : choice.close (spanOf front ['}']) with
      | error e =>
          rw [hclose] at hmakes
          exact hmakes
      | ok e =>
          rw [hclose] at hmakes
          obtain ⟨hlit, piece, hfront, hcovers, hbraced⟩ := hmakes
          rw [hfront]
          exact ⟨rfl, _, rfl, hrows.push hlit hcovers hbraced⟩
  | word hw => exact ⟨rfl, start, ⟨front, [], by simp, rfl, hw, areBlanks_nil, hchoice⟩, hrows⟩

/-- The number of an offset. -/
lemma lands_setOffset (hrows : Rows es outer start) (hblock : InBlock brace start front)
    {word : Span} (hword : word.Within front) (arg : String) (kind : Kind) (number : List Char) :
    Lands (2 * outer.length + 1) front
      (State.setOffset ⟨es, place, outer⟩ brace arg kind number word) := by
  rw [State.setOffset]
  split
  · exact ⟨rfl, start, hblock.choice arg _, hrows⟩
  · exact ⟨by simp, hword⟩

/-- The type of a block. -/
lemma lands_setType (hrows : Rows es outer start) (hblock : InBlock brace start front)
    (arg name : String) :
    Lands (2 * outer.length + 1) front (.ok (State.setType ⟨es, place, outer⟩ brace arg name)) := by
  unfold State.setType
  split <;> exact ⟨rfl, start, hblock, hrows⟩

/-- **A step keeps the invariant**, or its error points into the text. -/
theorem State.Stands.step {s : State} (hs : s.Stands front) (h : Sits s.depth piece symbol depth) :
    Lands depth (front ++ piece) (s.step ⟨symbol, spanOf front piece⟩) := by
  obtain ⟨es, place, outer⟩ := s
  obtain ⟨start, hplace, hrows⟩ := hs
  -- One case for each place. Inside a block a token is one of those of `Inner`: a word or a comma
  -- makes the block longer, and a brace ends it or opens a case. What the place does not expect is
  -- an error at the token.
  cases place with
  | message =>
      obtain rfl := hplace
      exact lands_inMessage hrows h
  | name brace =>
      cases h.inner with
      | leftBrace | rightBrace | comma => exact lands_error (by simp)
      | word hw => exact ⟨rfl, start, InBlock.append hplace hw, hrows⟩
  | named brace arg =>
      cases h.inner with
      | leftBrace | word => exact lands_error (by simp)
      | rightBrace => exact lands_closeBlock _ hrows hplace (fun _ => rfl) fun _ => .argument
      | comma => exact ⟨rfl, start, InBlock.append hplace braced_comma, hrows⟩
  | type brace arg =>
      cases h.inner with
      | leftBrace | rightBrace | comma => exact lands_error (by simp)
      | word hw => exact lands_setType _ hrows (InBlock.append hplace hw) arg _
  | call brace arg name =>
      cases h.inner with
      | leftBrace | word => exact lands_error (by simp)
      | rightBrace => exact lands_closeBlock _ hrows hplace (fun _ => rfl) fun _ => .call
      | comma => exact ⟨rfl, start, InBlock.append hplace braced_comma, hrows⟩
  | style brace arg name part parts =>
      cases h.inner with
      | leftBrace => exact lands_error (by simp)
      | rightBrace => exact lands_closeBlock _ hrows hplace (fun _ => rfl) fun _ => .call
      | comma => exact ⟨rfl, start, InBlock.append hplace braced_comma, hrows⟩
      | word hw => exact ⟨rfl, start, InBlock.append hplace hw, hrows⟩
  | plural brace arg kind =>
      cases h.inner with
      | leftBrace | rightBrace | word => exact lands_error (by simp)
      | comma => exact ⟨rfl, start, InBlock.append hplace braced_comma, hrows⟩
  -- A token that is no offset belongs to the cases already.
  | offset brace arg kind =>
      have hcases := lands_inCases (.offset brace arg kind) hrows
        (InBlock.choice hplace arg (.plural kind 0)) h
      cases h.inner with
      | leftBrace | rightBrace | comma => exact hcases
      | word hw =>
          have hblock := InBlock.append hplace hw
          simp only [State.step]
          split
          · exact hcases
          · exact ⟨rfl, start, ⟨hblock, within_spanOf _ _⟩, hrows⟩
          · exact lands_setOffset _ hrows hblock (within_spanOf _ _) _ _ _
  | offsetNumber brace arg kind word =>
      obtain ⟨hblock, hword⟩ := hplace
      cases h.inner with
      | leftBrace | rightBrace | comma => exact lands_error (by simp)
      | word hw => exact lands_setOffset _ hrows (hblock.append hw) (hword.append _) _ _ _
  | select brace arg =>
      cases h.inner with
      | leftBrace | rightBrace | word => exact lands_error (by simp)
      | comma => exact ⟨rfl, start, InBlock.choice (hplace.append braced_comma) arg .select, hrows⟩
  | cases choice => exact lands_inCases _ hrows hplace h
  -- The elements so far stand in front of the case that opens, and the row inside it is empty.
  | body choice key span =>
      cases h.inner with
      | leftBrace => exact ⟨rfl, _, rfl, start, front, [], rfl, hplace, .nil, hrows⟩
      | rightBrace | comma | word => exact lands_error (by simp)

/-- Blanks between words keep the invariant. -/
lemma State.Stands.blank {s : State} (hs : s.Stands front) (hdepth : isLiteral s.depth = false)
    {c : Char} (hc : Text.isSpace c = true) : s.Stands (front ++ [c]) := by
  obtain ⟨es, place, outer⟩ := s
  obtain ⟨start, hplace, hrows⟩ := hs
  refine ⟨start, hplace.blank ?_ hc, hrows⟩
  rintro rfl
  rw [State.depth, isLiteral_even] at hdepth
  cases hdepth

end Steps

/-! ### Runs -/

/-- What comes out of all tokens of a text: a message whose elements tile it, with no case open, or
an error that points into it. -/
def Ends (text : List Char) : Except ParseError State → Prop
  | .ok s => s.place = .message ∧ s.outer = [] ∧ Tiles [] text s.elements.reverse
  | .error e => e.Points text

/-- With no brace open, all elements stand at the top. -/
lemma State.Stands.row {s : State} {front : List Char} (hs : s.Stands front)
    (hdepth : s.depth = 0) : s.place = .message ∧ s.outer = [] ∧ Row [] s.elements front := by
  obtain ⟨es, place, outer⟩ := s
  obtain ⟨start, hplace, hrows⟩ := hs
  cases place with
  | message =>
      obtain rfl : front = start := hplace
      have houter : outer = [] := List.length_eq_zero_iff.mp (by simpa [State.depth] using hdepth)
      subst houter
      exact ⟨rfl, rfl, hrows⟩
  | _ => cases hdepth

/-- **A run keeps the invariant** up to the end of the text, as every step does. -/
theorem State.Stands.run {front cs : List Char} {depth : Nat} {tokens : List Token}
    (h : Laid front depth cs tokens) :
    ∀ {s : State}, s.depth = depth → s.Stands front → Ends (front ++ cs) (s.run tokens) := by
  -- By induction on how the tokens are laid: that says where each of them stands, and how many
  -- braces are open there.
  induction h with
  | @done front =>
      intro s hdepth hs
      obtain ⟨hplace, houter, hrow⟩ := hs.row hdepth
      rw [List.append_nil]
      exact ⟨hplace, houter, hrow.tiles⟩
  | @tail front piece =>
      rintro ⟨es, place, outer⟩ hdepth hs
      obtain ⟨rfl, rfl, hrow⟩ := hs.row hdepth
      exact ⟨rfl, rfl, by simpa using hrow.tiles_pushLiteral piece⟩
  | @token front depth depth' piece symbol rest tokens hsits _ ih =>
      intro s hdepth hs
      subst hdepth
      have hlands := hs.step hsits
      rw [State.run, ← List.append_assoc]
      cases hstep : s.step ⟨symbol, spanOf front piece⟩ with
      | error e =>
          rw [hstep] at hlands
          exact hlands.append rest
      | ok next =>
          rw [hstep] at hlands
          exact ih hlands.1 hlands.2
  | @blank front depth c rest tokens hdepth hc _ ih =>
      intro s hs hstands
      subst hs
      rw [List.append_cons]
      exact ih rfl (hstands.blank hdepth hc)

lemma State.stands_start : State.start.Stands [] := ⟨[], rfl, .nil⟩

/-- What comes out of a text: elements that tile it, or an error that points into it or is about its
end. -/
lemma parse_cases (text : String) :
    (∃ es, parse text = .ok es ∧ Tiles [] text.toList es) ∨
      ∃ e, parse text = .error e ∧ (e.Points text.toList ∨ e.IsLexical text.toList) := by
  rw [parse]
  cases hlex : lex text with
  | error e => exact .inr ⟨e, rfl, .inr (isLexical_of_lexFrom behind_nil.symm e hlex)⟩
  | ok tokens =>
      have hparse : (.ok tokens >>= parseTokens) =
          State.start.run tokens >>= fun s => s.finish (endSpan tokens) := rfl
      have hlaid : Laid [] 0 text.toList tokens := laid_of_lexFrom .none behind_nil.symm hlex
      have hends := State.Stands.run hlaid rfl State.stands_start
      rw [hparse]
      cases hrun : State.start.run tokens with
      | error e =>
          rw [hrun] at hends
          exact .inr ⟨e, rfl, .inl hends⟩
      | ok s =>
          rw [hrun] at hends
          obtain ⟨hplace, houter, htiles⟩ := hends
          -- No case is open any more, so that the end of the tokens is no error.
          have hfinish : s.finish (endSpan tokens) = .ok s.elements.reverse := by
            rw [State.finish, hplace, houter]
          exact .inl ⟨s.elements.reverse, hfinish, htiles⟩

/-! ### Texts -/

/-- **Source positions are exact and lose nothing**: the elements of a pattern tile its text, and
all spans in them, at every depth, are spans of parts of it. -/
theorem parse_exact {text : String} {es : List (Element Span)} (h : parse text = .ok es) :
    Tiles [] text.toList es ∧ AllWithin text.toList (Element.marksOf es) := by
  rcases parse_cases text with ⟨es', hparse, htiles⟩ | ⟨e, hparse, -⟩
  · obtain rfl := Except.ok.inj (h.symm.trans hparse)
    exact ⟨htiles, htiles.within⟩
  · rw [h] at hparse
    cases hparse

/-- The spans of a text with a character of two bytes, an escape, a line end, and a case in which a
number sign stands behind literal text. -/
theorem parse_exact_nested : ∃ es, parse "é\\#\n{n, plural, =1{{g}} other{a#}}" = .ok es ∧
    Element.marksOf es = [⟨0, 5, 1, 1⟩, ⟨5, 35, 2, 1⟩, ⟨17, 24, 2, 13⟩, ⟨20, 23, 2, 16⟩,
      ⟨25, 34, 2, 21⟩, ⟨31, 32, 2, 27⟩, ⟨32, 33, 2, 28⟩] ∧
    Tiles [] "é\\#\n{n, plural, =1{{g}} other{a#}}".toList es ∧
    AllWithin "é\\#\n{n, plural, =1{{g}} other{a#}}".toList (Element.marksOf es) := by
  have htest : passes (fun es => decide (Element.marksOf es = [⟨0, 5, 1, 1⟩, ⟨5, 35, 2, 1⟩,
      ⟨17, 24, 2, 13⟩, ⟨20, 23, 2, 16⟩, ⟨25, 34, 2, 21⟩, ⟨31, 32, 2, 27⟩, ⟨32, 33, 2, 28⟩]))
      (parse "é\\#\n{n, plural, =1{{g}} other{a#}}") = true := by
    decide +kernel
  obtain ⟨es, hparse, hmarks⟩ := passes_eq_true htest
  exact ⟨es, hparse, of_decide_eq_true hmarks, parse_exact hparse⟩

/-- **Errors point into the text**, but for the one about braces that are open at its end: that one
is one byte long and starts at the end of the text. -/
theorem parse_error_exact {text : String} {e : ParseError} (h : parse text = .error e) :
    (e.cause ≠ .unclosedBrace → e.span.Within text.toList) ∧
      (e.cause = .unclosedBrace →
        e.span = (Cursor.behind text.toList).to (text.utf8ByteSize + 1)) := by
  rcases parse_cases text with ⟨es, hparse, -⟩ | ⟨e', hparse, he⟩
  · rw [h] at hparse
    cases hparse
  · obtain rfl := Except.error.inj (h.symm.trans hparse)
    rcases he with ⟨hcause, hspan⟩ | ⟨hspan⟩ | _
    · exact ⟨fun _ => hspan, fun hclosed => absurd hclosed hcause⟩
    · exact ⟨fun _ => hspan, fun hclosed => nomatch hclosed⟩
    · have hsize : utf8Len text.toList = text.utf8ByteSize := by
        rw [← String.utf8ByteSize_ofList, String.ofList_toList]
      rw [hsize]
      exact ⟨fun hcause => absurd rfl hcause, fun _ => rfl⟩

/-- The error of a statement without a case for all other values is all of the statement. -/
theorem parse_error_exact_missingOther : ∃ e, parse "é\n{n, plural, one{x}}" = .error e ∧
    e = ⟨.missingOther, ⟨3, 22, 2, 1⟩⟩ ∧
    (e.cause ≠ .unclosedBrace → e.span.Within "é\n{n, plural, one{x}}".toList) ∧
      (e.cause = .unclosedBrace →
        e.span = (Cursor.behind "é\n{n, plural, one{x}}".toList).to
          ("é\n{n, plural, one{x}}".utf8ByteSize + 1)) := by
  have htest : fails (· = ⟨.missingOther, ⟨3, 22, 2, 1⟩⟩)
      (parse "é\n{n, plural, one{x}}") = true := by
    decide +kernel
  obtain ⟨e, hparse, he⟩ := fails_eq_true htest
  exact ⟨e, hparse, of_decide_eq_true he, parse_error_exact hparse⟩

/-- The error at the end of a text does not point into it: its range ends behind all bytes. -/
theorem parse_error_behind : ∃ e, parse "\x7b" = .error e ∧ e.span = ⟨1, 2, 1, 2⟩ ∧
    ¬ e.span.stop ≤ "\x7b".utf8ByteSize := by
  have htest : fails (fun e => e.span = ⟨1, 2, 1, 2⟩) (parse "\x7b") = true := by
    decide +kernel
  obtain ⟨e, hparse, he⟩ := fails_eq_true htest
  have hspan : e.span = ⟨1, 2, 1, 2⟩ := of_decide_eq_true he
  refine ⟨e, hparse, hspan, ?_⟩
  rw [hspan]
  decide

end MessageCatalog.Pattern
