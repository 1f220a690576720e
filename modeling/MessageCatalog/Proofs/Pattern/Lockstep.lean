/-
The parser and the modes of the lexer stay in step.

The lexer knows nothing of the parser: braces alone tell it whether to make literal text or words.
But whenever the parser is in a message, the next token was made as literal text, and whenever it is
in a block, the next token was made among words; and it never runs out of tokens where it needs one.

* `State.modes`: the stack of modes that belongs to a state of the parser;
* `Mode.Reads`: the symbols that are made in a mode;
* `ParseError.Foreseen`: errors other than those for tokens that cannot come, or are missing;
* `State.follows_step`, `State.follows_run`: the parser goes along with the braces of its tokens;
* `InStep`, `inStep_of_run`: a state of the parser, and the tokens that are left;
* `parse_inStep`: what holds for every text.
-/
import MessageCatalog.Proofs.Pattern.Modes
import MessageCatalog.Proofs.Pattern.Spans

namespace MessageCatalog.Pattern

open Plural (Key Kind)

/-! ### Modes of the parser -/

/-- The mode that belongs to the place of a state. -/
def State.mode (s : State) : Mode :=
  match s.place with
  | .message => .literal
  | _ => .block

/-- The stack of modes that belongs to a state: there is literal text at the bottom, each open case
stands in a block and is literal text again, and the place may be in one more block. -/
def State.modes (s : State) : List Mode :=
  let messages := s.outer.flatMap (fun _ => [Mode.literal, .block]) ++ [.literal]
  match s.place with
  | .message => messages
  | _ => .block :: messages

lemma modesAt_two_mul {α : Type} (opened : List α) :
    opened.flatMap (fun _ => [Mode.literal, .block]) ++ [.literal] =
      modesAt (2 * opened.length) := by
  induction opened with
  | nil => rfl
  | cons _ rest ih =>
      have hblock := modesAt_succ_of_isLiteral (isLiteral_even rest.length)
      have hcase := modesAt_succ_of_not_isLiteral (isLiteral_odd rest.length)
      rw [List.flatMap_cons, List.append_assoc, ih, List.length_cons, Nat.mul_add, hcase, hblock]
      rfl

/-- The stack of a state is that inside its open braces. -/
lemma State.modes_eq (s : State) : s.modes = modesAt s.depth := by
  obtain ⟨es, place, outer⟩ := s
  rw [modes, depth, modesAt_two_mul]
  cases place with
  | message => rfl
  | _ => exact (modesAt_succ_of_isLiteral (isLiteral_even _)).symm

lemma State.head?_modes (s : State) : s.modes.head? = some s.mode := by
  obtain ⟨es, place, outer⟩ := s
  cases place with
  | message => cases outer <;> rfl
  | _ => rfl

/-- The symbols that are made in a mode. -/
def Mode.Reads : Mode → Symbol → Prop
  | .literal, .text _ | .literal, .hash | _, .leftBrace | _, .rightBrace | .block, .comma
  | .block, .word _ => True
  | _, _ => False

/-! ### Errors -/

/-- An error that is neither about a token that is missing at the end nor about one that is not made
in literal text. -/
def ParseError.Foreseen (e : ParseError) : Prop :=
  e.cause ≠ .unexpectedEnd ∧ e.cause ≠ .unexpectedInMessage

lemma raises_close_foreseen (choice : Choice) (brace : Span) :
    Raises ParseError.Foreseen (choice.close brace) := by
  refine (choice.raises_close brace).imp ?_
  rintro e (⟨hcause | hcause, -⟩ | rfl)
  · simp [ParseError.Foreseen, hcause]
  · simp [ParseError.Foreseen, hcause]
  · simp [ParseError.Foreseen]

/-! ### Steps -/

/-- What comes out of the parser: a state with so many open braces, or a foreseen error. -/
def Follows (depth : ℕ) : Except ParseError State → Prop
  | .ok s => s.depth = depth
  | .error e => e.Foreseen

section Steps

variable {es : List (Element Span)} {outer : List OpenCase} {symbol : Symbol} {depth : ℕ}
  (place : Place) (span : Span)

/-- The symbols that are made in a block. -/
lemma Turns.inner {opened : ℕ} (h : Turns (2 * opened + 1) symbol depth) :
    (symbol = .leftBrace ∧ depth = 2 * (opened + 1)) ∨ (symbol = .rightBrace ∧ depth = 2 * opened) ∨
      (symbol = .comma ∧ depth = 2 * opened + 1) ∨
        ∃ w, symbol = .word w ∧ depth = 2 * opened + 1 := by
  generalize hdepth : 2 * opened + 1 = braces at h
  cases h with
  | text hlit | hash hlit =>
      rw [← hdepth, isLiteral_odd] at hlit
      cases hlit
  | leftBrace => exact .inl ⟨rfl, by omega⟩
  | rightBrace => exact .inr (.inl ⟨rfl, by omega⟩)
  | comma => exact .inr (.inr (.inl ⟨rfl, by omega⟩))
  | word => exact .inr (.inr (.inr ⟨_, rfl, by omega⟩))

lemma follows_inMessage (h : Turns (2 * outer.length) symbol depth) :
    Follows depth (State.inMessage ⟨es, .message, outer⟩ ⟨symbol, span⟩) := by
  generalize hdepth : 2 * outer.length = braces at h
  cases h with
  | text => exact hdepth
  | hash =>
      simp only [State.inMessage]
      split <;> exact hdepth
  | leftBrace => exact congrArg (· + 1) hdepth
  | rightBrace =>
      cases outer with
      | nil => cases hdepth
      | cons c outer =>
          rw [List.length_cons] at hdepth
          simp only [State.inMessage, Follows, State.depth]
          omega
  | comma hlit | word hlit =>
      rw [← hdepth, isLiteral_even] at hlit
      cases hlit

lemma follows_inCases (choice : Choice) (h : Turns (2 * outer.length + 1) symbol depth) :
    Follows depth (State.inCases ⟨es, place, outer⟩ choice ⟨symbol, span⟩) := by
  rcases h.inner with ⟨rfl, rfl⟩ | ⟨rfl, rfl⟩ | ⟨rfl, rfl⟩ | ⟨w, rfl, rfl⟩
  · exact ⟨by simp, by simp⟩
  · have hraises := raises_close_foreseen choice span
    simp only [State.inCases]
    cases hclose : choice.close span with
    | error e => exact hraises e hclose
    | ok e => rfl
  · exact ⟨by simp, by simp⟩
  · rfl

lemma follows_setOffset (brace : Span) (arg : String) (kind : Kind) (number : List Char) :
    Follows (2 * outer.length + 1)
      (State.setOffset ⟨es, place, outer⟩ brace arg kind number span) := by
  rw [State.setOffset]
  split
  · rfl
  · exact ⟨by simp, by simp⟩

lemma follows_setType (brace : Span) (arg name : String) :
    Follows (2 * outer.length + 1) (.ok (State.setType ⟨es, place, outer⟩ brace arg name)) := by
  unfold State.setType
  split <;> rfl

end Steps

/-- **A step goes along with the braces** that its token leaves open. -/
theorem State.follows_step {s : State} {token : Token} {depth : ℕ}
    (h : Turns s.depth token.symbol depth) : Follows depth (s.step token) := by
  obtain ⟨es, place, outer⟩ := s
  obtain ⟨symbol, span⟩ := token
  cases place with
  | message => exact follows_inMessage span h
  | cases choice => exact follows_inCases _ span choice h
  -- A token that is no offset belongs to the cases already.
  | offset brace arg kind =>
      have hcases : Follows depth (State.inCases ⟨es, .offset brace arg kind, outer⟩
          ⟨brace, arg, .plural kind 0, []⟩ ⟨symbol, span⟩) :=
        follows_inCases _ span _ h
      rcases h.inner with ⟨rfl, rfl⟩ | ⟨rfl, rfl⟩ | ⟨rfl, rfl⟩ | ⟨w, rfl, rfl⟩
      · exact hcases
      · exact hcases
      · exact hcases
      · simp only [State.step]
        split
        · exact hcases
        · rfl
        · exact follows_setOffset _ _ _ _ _ _
  | _ =>
      -- Each symbol either goes on inside the block, ends it, or is not expected at this place.
      rcases h.inner with ⟨rfl, rfl⟩ | ⟨rfl, rfl⟩ | ⟨rfl, rfl⟩ | ⟨w, rfl, rfl⟩ <;> first
        | rfl
        | exact ⟨by simp, by simp⟩
        | exact follows_setType _ _ _ _
        | exact follows_setOffset _ _ _ _ _ _

/-! ### Runs -/

/-- **A run goes along with the braces** that its tokens leave open. -/
theorem State.follows_run {s : State} {made : List Marked} {last : ℕ}
    (h : Leads s.depth made last) : Follows last (s.run (made.map Marked.token)) := by
  induction made generalizing s with
  | nil =>
      cases h
      rfl
  | cons marked rest ih =>
      cases h with
      | cons _ hturns hrest =>
          have hstep := State.follows_step hturns
          rw [List.map_cons, State.run]
          cases hnext : s.step marked.token with
          | error e =>
              rw [hnext] at hstep
              exact hstep
          | ok next =>
              rw [hnext] at hstep
              obtain rfl : next.depth = _ := hstep
              exact ih hrest

/-- A state of the parser and the tokens that are left: the next one was made with the stack of the
state, in the mode of its place. Only at the end of the outermost message there is none. -/
def InStep (s : State) : List Marked → Prop
  | [] => s.place = .message ∧ s.outer = []
  | next :: _ => next.modes = s.modes ∧ next.modes.head? = some s.mode ∧
    s.mode.Reads next.token.symbol

lemma Turns.reads {depth last : ℕ} {symbol : Symbol} {mode : Mode} (h : Turns depth symbol last)
    (hmode : (modesAt depth).head? = some mode) : mode.Reads symbol := by
  rw [head?_modesAt] at hmode
  obtain rfl := Option.some.inj hmode
  cases h with
  | text hlit | hash hlit => rw [if_pos hlit]; trivial
  | comma hlit | word hlit => rw [hlit]; trivial
  | leftBrace | rightBrace => split <;> trivial

/-- With no brace open, the parser is in the outermost message. -/
lemma State.outermost_of_depth {s : State} (h : s.depth = 0) :
    s.place = .message ∧ s.outer = [] := by
  obtain ⟨es, place, outer⟩ := s
  cases place with
  | message => exact ⟨rfl, List.length_eq_zero_iff.mp (by simpa [State.depth] using h)⟩
  | _ => cases h

/-- Tokens that are left behind a state with as many open braces are in step with it. -/
lemma inStep_of_leads {s : State} {rest : List Marked} (h : Leads s.depth rest 0) :
    InStep s rest := by
  generalize hdepth : s.depth = depth at h
  cases h with
  | nil => exact s.outermost_of_depth hdepth
  | cons hmodes hturns =>
      rw [← hdepth, ← s.modes_eq] at hmodes
      rw [← hdepth] at hturns
      have hmode := s.head?_modes
      exact ⟨hmodes, hmodes ▸ hmode, hturns.reads (s.modes_eq ▸ hmode)⟩

/-- **The parser is in step with the lexer** at each token of a text. -/
theorem inStep_of_run {front rest : List Marked} {s : State} (h : Leads 0 (front ++ rest) 0)
    (hrun : State.start.run (front.map Marked.token) = .ok s) : InStep s rest := by
  obtain ⟨depth, hfront, hrest⟩ := h.split
  have hfollows : Follows depth (State.start.run (front.map Marked.token)) :=
    State.follows_run (s := State.start) hfront
  rw [hrun] at hfollows
  obtain rfl : s.depth = depth := hfollows
  exact inStep_of_leads hrest

/-- The lexer reports nothing but braces that do not match. -/
lemma raises_lex_foreseen (text : String) : Raises ParseError.Foreseen (lex text) := by
  intro e he
  cases isLexical_of_lexFrom behind_nil.symm e he <;> exact ⟨by simp, by simp⟩

/-- The parser reports only foreseen errors on tokens that lead from no open brace to none. -/
lemma raises_parseTokens_foreseen {made : List Marked} (h : Leads 0 made 0) :
    Raises ParseError.Foreseen (parseTokens (made.map Marked.token)) := by
  have hfollows : Follows 0 (State.start.run (made.map Marked.token)) :=
    State.follows_run (s := State.start) h
  intro e he
  rcases bind_eq_error.mp he with hrun | ⟨s, hrun, hfinish⟩
  · rw [hrun] at hfollows
    exact hfollows
  · rw [hrun] at hfollows
    obtain ⟨hplace, houter⟩ := s.outermost_of_depth hfollows
    rw [State.finish, hplace, houter] at hfinish
    cases hfinish

/-! ### Texts -/

/-- The tokens of a text, with the stacks in which they are made. -/
def scanned (text : String) : Except ParseError (List Marked) :=
  Scan.start.scan text.toList

/-- A lexer with a stack makes the same tokens of a text, or reports the same error. -/
lemma map_scanned (text : String) : (scanned text).map (List.map Marked.token) = lex text := by
  have hagrees := scan_eq_lexFrom 0 none .start text.toList []
  rw [Agrees] at hagrees
  rw [scanned, lex, Scan.start, ← modesAt, hagrees]
  cases lexFrom 0 none .start text.toList <;> rfl

lemma leads_of_scanned {text : String} {made : List Marked} (h : scanned text = .ok made) :
    Leads 0 made 0 :=
  Scan.balanced_start.leads_of_scan h

/-- **The lexer and the parser never fall out of step.** A lexer that keeps a stack of modes makes
the tokens of every text, and this stack is not empty in any of its states, whether it fails in the
end or not. Whenever the parser has gone through some of the tokens of a text, it is at the end of
the outermost message, or there is a next token, which was made with the stack of the open
cases and blocks of the parser: as literal text if it is in a message, and among words if it is at
any place in a block. No text is rejected for a token that is missing at its end, or that is not
made in literal text. -/
theorem parse_inStep (text : String) :
    (scanned text).map (List.map Marked.token) = lex text ∧
    (∀ s left, Scan.start.Reaches text.toList s left → s.modes ≠ []) ∧
    (∀ front rest s, scanned text = .ok (front ++ rest) →
      State.start.run (front.map Marked.token) = .ok s → InStep s rest) ∧
    ∀ e, parse text = .error e → e.cause ≠ .unexpectedEnd ∧ e.cause ≠ .unexpectedInMessage := by
  refine ⟨map_scanned text, fun s left h => ?_, fun front rest s h hrun => ?_, fun e he => ?_⟩
  · obtain ⟨depth, hbalanced⟩ := h.balanced Scan.balanced_start
    exact hbalanced.modes_eq ▸ modesAt_ne_nil depth
  · exact inStep_of_run (leads_of_scanned h) hrun
  · rcases bind_eq_error.mp he with hlex | ⟨tokens, hlex, hparse⟩
    · exact raises_lex_foreseen text e hlex
    · rw [← map_scanned] at hlex
      obtain ⟨made, hscanned, rfl⟩ := map_eq_ok.mp hlex
      exact raises_parseTokens_foreseen (leads_of_scanned hscanned) e hparse

/-- A number sign in the case of a plural is made inside two open braces. The statement is rejected
in the end, but for its cases and not for its tokens. -/
theorem parse_inStep_plural : ∃ made s e, scanned "{n, plural, one{#}}" = .ok made ∧
    State.start.run ((made.take 7).map Marked.token) = .ok s ∧
    (made.drop 7).head? = some ⟨[.literal, .block, .literal], .hash, ⟨16, 17, 1, 17⟩⟩ ∧
    InStep s (made.drop 7) ∧ parse "{n, plural, one{#}}" = .error e ∧ e.cause = .missingOther ∧
    e.cause ≠ .unexpectedEnd ∧ e.cause ≠ .unexpectedInMessage ∧
    ∃ t left, Scan.start.Reaches "{n, plural, one{#}}".toList t left ∧
      t.modes = [.block, .literal] ∧ t.modes ≠ [] := by
  have hscan : passes (fun made => passes (fun _ =>
      decide ((made.drop 7).head? = some ⟨[.literal, .block, .literal], .hash, ⟨16, 17, 1, 17⟩⟩))
      (State.start.run ((made.take 7).map Marked.token)))
      (scanned "{n, plural, one{#}}") = true := by
    decide +kernel
  have hparse : fails (fun e => e.cause = .missingOther) (parse "{n, plural, one{#}}") = true := by
    decide +kernel
  obtain ⟨made, hmade, hscan⟩ := passes_eq_true hscan
  obtain ⟨s, hrun, hhead⟩ := passes_eq_true hscan
  obtain ⟨e, he, hcause⟩ := fails_eq_true hparse
  obtain ⟨_, hstack, hstep, hforeseen⟩ := parse_inStep "{n, plural, one{#}}"
  have hsplit : scanned "{n, plural, one{#}}" = .ok (made.take 7 ++ made.drop 7) := by
    rw [List.take_append_drop, hmade]
  have hreaches : Scan.start.Reaches "{n, plural, one{#}}".toList
      (Scan.start.stop '{' .leftBrace [.block, .literal]) _ :=
    .next .refl rfl
  exact ⟨made, s, e, hmade, hrun, of_decide_eq_true hhead, hstep _ _ s hsplit hrun, he,
    of_decide_eq_true hcause, (hforeseen e he).1, (hforeseen e he).2, _, _, hreaches, rfl,
    hstack _ _ hreaches⟩

end MessageCatalog.Pattern
