/-
The modes of the lexer.

The number of open braces tells how a character is read. A lexer may as well keep a stack of modes:
each left brace puts the other mode on it, and each right brace takes one off. Both lexers make the
same tokens, and the stack is never empty.

* `Mode`, `modesAt`: the two modes, and the stack inside so many open braces;
* `Marked`: a token with the stack in which it was made;
* `Scan`: the state of a lexer with a stack;
* `Scan.next`, `Scan.scan`: what one character does, and what all of them do;
* `scan_eq_lexFrom`: the tokens are those of the lexer that counts braces;
* `Turns`, `Leads`: tokens that lead from one number of open braces to another;
* `Scan.Balanced`, `Scan.Balanced.next`: what every character keeps;
* `Scan.Reaches.balanced`, `Scan.Balanced.leads_of_scan`: what holds in all states, and for all
  tokens.
-/
import MessageCatalog.Proofs.Pattern.Seam

namespace MessageCatalog.Pattern

/-! ### Stacks of modes -/

/-- How characters are read: as literal text, or as the words of a block. -/
inductive Mode where
  | literal
  | block
deriving DecidableEq

/-- The stack inside so many open braces, with the innermost mode first. -/
def modesAt : ℕ → List Mode
  | 0 => [.literal]
  | depth + 1 => (if isLiteral depth then .block else .literal) :: modesAt depth

lemma modesAt_succ_of_isLiteral {depth : ℕ} (h : isLiteral depth = true) :
    modesAt (depth + 1) = .block :: modesAt depth := by
  rw [modesAt, if_pos h]

lemma modesAt_succ_of_not_isLiteral {depth : ℕ} (h : isLiteral depth = false) :
    modesAt (depth + 1) = .literal :: modesAt depth := by
  rw [modesAt, h]
  rfl

lemma length_modesAt (depth : ℕ) : (modesAt depth).length = depth + 1 := by
  induction depth with
  | zero => rfl
  | succ depth ih => rw [modesAt, List.length_cons, ih]

lemma modesAt_ne_nil (depth : ℕ) : modesAt depth ≠ [] :=
  List.ne_nil_of_length_pos (by rw [length_modesAt]; exact Nat.succ_pos depth)

/-- The mode on top tells how characters are read. -/
lemma head?_modesAt (depth : ℕ) :
    (modesAt depth).head? = some (if isLiteral depth then .literal else .block) := by
  cases depth with
  | zero => rfl
  | succ depth =>
      have hparity : isLiteral (depth + 1) = !isLiteral depth := by
        rcases Nat.mod_two_eq_zero_or_one depth with h | h <;>
          simp [isLiteral, Nat.add_mod, h]
      rw [modesAt, List.head?_cons, hparity]
      cases isLiteral depth <;> rfl

/-! ### A lexer with a stack -/

/-- A token with the stack of modes in which it was made. -/
structure Marked where
  modes : List Mode
  token : Token
deriving DecidableEq

/-- The state of a lexer with a stack: the run that is being read, whether a backslash takes the
next character, the place in the text, and the tokens so far. -/
structure Scan where
  modes : List Mode
  run : Option Run
  taken : Bool
  here : Cursor
  made : List Marked

namespace Scan

/-- Before the first character. -/
def start : Scan := ⟨[.literal], none, false, .start, []⟩

/-- Whether words are read. -/
def inBlock (s : Scan) : Bool :=
  s.modes.head? = some .block

/-- The tokens after the end of a run, if there is one. -/
def flush (s : Scan) : List Marked :=
  match s.run with
  | none => s.made
  | some run =>
    let symbol := if s.inBlock then Symbol.word run.text else .text run.text
    s.made ++ [⟨s.modes, symbol, run.start.to s.here.offset⟩]

/-- Takes a character into the run. -/
def take (s : Scan) (c : Char) : Scan :=
  { s with run := some (Run.push s.run s.here c), taken := false, here := s.here.advance c }

/-- Starts or goes on with a run at a backslash that takes the next character. -/
def escape (s : Scan) (c : Char) : Scan :=
  { s with run := some (s.run.getD ⟨s.here, ""⟩), taken := true, here := s.here.advance c }

/-- Ends the run at a blank. -/
def skip (s : Scan) (c : Char) : Scan :=
  { s with run := none, here := s.here.advance c, made := s.flush }

/-- Ends the run at a punctuation character, and leaves a stack behind. -/
def stop (s : Scan) (c : Char) (symbol : Symbol) (modes : List Mode) : Scan where
  modes := modes
  run := none
  taken := false
  here := s.here.advance c
  made := s.flush ++ [⟨s.modes, symbol, s.here.to (s.here.offset + 1)⟩]

/-- A character of a block. The stack is not looked at before a mode is taken off it. -/
def nextInBlock (s : Scan) (c : Char) : Scan :=
  if c == '}' then s.stop c .rightBrace s.modes.tail
  else if c == '{' then s.stop c .leftBrace (.literal :: s.modes)
  else if c == ',' then s.stop c .comma s.modes
  else if Text.isSpace c then s.skip c
  else s.take c

/-- A character of literal text, in front of another one. -/
def nextInLiteral (s : Scan) (c : Char) (ahead : Option Char) : Except ParseError Scan :=
  if s.taken then .ok (s.take c)
  else if c == '{' then .ok (s.stop c .leftBrace (.block :: s.modes))
  else if c == '}' then
    if s.modes.length ≤ 1 then .error ⟨.unbalancedBrace, s.here.to (s.here.offset + 1)⟩
    else .ok (s.stop c .rightBrace s.modes.tail)
  else if c == '#' then .ok (s.stop c .hash s.modes)
  else if c == '\\' && ahead.any isEscapable then .ok (s.escape c)
  else .ok (s.take c)

/-- One character, in front of another one. -/
def next (s : Scan) (c : Char) (ahead : Option Char) : Except ParseError Scan :=
  if s.inBlock then .ok (s.nextInBlock c) else s.nextInLiteral c ahead

/-- The tokens at the end of the text. -/
def finish (s : Scan) : Except ParseError (List Marked) :=
  if 1 < s.modes.length then .error ⟨.unclosedBrace, s.here.to (s.here.offset + 1)⟩
  else .ok s.flush

/-- The tokens of all characters. -/
def scan (s : Scan) : List Char → Except ParseError (List Marked)
  | [] => s.finish
  | c :: cs => do
    let after ← s.next c cs.head?
    after.scan cs

end Scan

/-! ### The same tokens -/

section Counting

variable {depth : ℕ} {run : Option Run} {here : Cursor} {made : List Marked} {c : Char}
  {cs : List Char} {symbol : Symbol}

/-- The state inside so many open braces. -/
abbrev Scan.inside (depth : ℕ) (run : Option Run) (here : Cursor) (made : List Marked) : Scan :=
  ⟨modesAt depth, run, false, here, made⟩

lemma inBlock_eq {s : Scan} (h : s.modes = modesAt depth) : s.inBlock = !isLiteral depth := by
  rw [Scan.inBlock, h, head?_modesAt]
  cases isLiteral depth <;> rfl

lemma next_of_isLiteral {s : Scan} (hs : s.modes = modesAt depth) (h : isLiteral depth = true)
    (ahead : Option Char) : s.next c ahead = s.nextInLiteral c ahead := by
  rw [Scan.next, inBlock_eq hs, h]
  rfl

lemma next_of_not_isLiteral {s : Scan} (hs : s.modes = modesAt depth) (h : isLiteral depth = false)
    (ahead : Option Char) : s.next c ahead = .ok (s.nextInBlock c) := by
  rw [Scan.next, inBlock_eq hs, h]
  rfl

lemma next_leftBrace (ahead : Option Char) : (Scan.inside depth run here made).next '{' ahead =
    .ok ((Scan.inside depth run here made).stop '{' .leftBrace (modesAt (depth + 1))) := by
  cases h : isLiteral depth with
  | true => rw [next_of_isLiteral rfl h, modesAt_succ_of_isLiteral h]; rfl
  | false => rw [next_of_not_isLiteral rfl h, modesAt_succ_of_not_isLiteral h]; rfl

lemma next_rightBrace (ahead : Option Char) :
    (Scan.inside (depth + 1) run here made).next '}' ahead =
      .ok ((Scan.inside (depth + 1) run here made).stop '}' .rightBrace (modesAt depth)) := by
  have hlength : ¬ (modesAt (depth + 1)).length ≤ 1 := by
    rw [length_modesAt]
    omega
  cases h : isLiteral (depth + 1) with
  | true =>
      rw [next_of_isLiteral rfl h, Scan.nextInLiteral]
      simp only [hlength]
      rfl
  | false => rw [next_of_not_isLiteral rfl h]; rfl

lemma next_blank (h : isLiteral depth = false) (hc : Text.isSpace c = true) (ahead : Option Char) :
    (Scan.inside depth run here made).next c ahead =
      .ok ((Scan.inside depth run here made).skip c) := by
  obtain ⟨hleft, hright, hcomma⟩ := ne_of_isSpace hc
  rw [next_of_not_isLiteral rfl h, Scan.nextInBlock]
  simp only [hc, hleft, hright, hcomma]
  rfl

lemma next_word (h : isLiteral depth = false) (hc : IsWordChar c) (ahead : Option Char) :
    (Scan.inside depth run here made).next c ahead =
      .ok ((Scan.inside depth run here made).take c) := by
  obtain ⟨hspace, hcomma, hleft, hright⟩ := hc
  rw [next_of_not_isLiteral rfl h, Scan.nextInBlock]
  simp only [beq_eq_false_iff_ne.mpr hleft, beq_eq_false_iff_ne.mpr hright,
    beq_eq_false_iff_ne.mpr hcomma, hspace]
  rfl

lemma next_literal (h : isLiteral depth = true) (hc : StandsForItself c cs) :
    (Scan.inside depth run here made).next c cs.head? =
      .ok ((Scan.inside depth run here made).take c) := by
  obtain ⟨hleft, hright, hhash, hbackslash⟩ := hc
  have hescape : (c == '\\' && cs.head?.any isEscapable) = false := by
    by_cases hc : c = '\\'
    · cases hcs : cs.head? with
      | none => rw [Option.any_none, Bool.and_false]
      | some e => rw [Option.any_some, hbackslash hc e hcs, Bool.and_false]
    · rw [beq_eq_false_iff_ne.mpr hc, Bool.false_and]
  rw [next_of_isLiteral rfl h, Scan.nextInLiteral]
  simp only [beq_eq_false_iff_ne.mpr hleft, beq_eq_false_iff_ne.mpr hright,
    beq_eq_false_iff_ne.mpr hhash, hescape]
  rfl

/-- A backslash and the character that it takes are read one after the other. -/
lemma scan_escape (h : isLiteral depth = true) (hc : isEscapable c = true) :
    (Scan.inside depth run here made).scan ('\\' :: c :: cs) =
      (Scan.inside depth (some (Run.push run here c)) ((here.advance '\\').advance c) made).scan
        cs := by
  have hbackslash : (Scan.inside depth run here made).next '\\' (some c) =
      .ok ((Scan.inside depth run here made).escape '\\') := by
    rw [next_of_isLiteral rfl h, Scan.nextInLiteral]
    simp only [Option.any_some, hc]
    rfl
  have htaken : ((Scan.inside depth run here made).escape '\\').next c cs.head? =
      .ok (((Scan.inside depth run here made).escape '\\').take c) :=
    next_of_isLiteral rfl h _
  have hrun : ((Scan.inside depth run here made).escape '\\').take c =
      Scan.inside depth (some (Run.push run here c)) ((here.advance '\\').advance c) made := by
    cases run <;> rfl
  rw [Scan.scan, List.head?_cons, hbackslash]
  simp only [bind, Except.bind]
  rw [Scan.scan, htaken, hrun]
  rfl

/-- Ending a run puts its token behind those that have been made. -/
lemma map_token_flush (rest : List Token) :
    (Scan.inside depth run here made).flush.map Marked.token ++ rest =
      made.map Marked.token ++ Run.flush depth run here rest := by
  cases run with
  | none => rfl
  | some run =>
      have hblock := inBlock_eq (s := Scan.inside depth (some run) here made) rfl
      simp only [Scan.flush, hblock, Run.flush, List.map_append, List.append_assoc]
      cases isLiteral depth <;> rfl

/-- What one lexer makes behind tokens that have been made, the other one makes, too. -/
def Agrees (made : List Marked) (scanned : Except ParseError (List Marked))
    (lexed : Except ParseError (List Token)) : Prop :=
  scanned.map (List.map Marked.token) = lexed.map (made.map Marked.token ++ ·)

/-- More tokens may have been made, if the other lexer puts them in front. -/
lemma Agrees.map {more : List Marked} {scanned : Except ParseError (List Marked)}
    {lexed : Except ParseError (List Token)} {f : List Token → List Token}
    (h : Agrees more scanned lexed)
    (hmore : ∀ tokens, more.map Marked.token ++ tokens = made.map Marked.token ++ f tokens) :
    Agrees made scanned (lexed.map f) := by
  rw [Agrees] at h ⊢
  rw [h]
  cases lexed with
  | error e => rfl
  | ok tokens => exact congrArg Except.ok (hmore tokens)

lemma agrees_stop {modes : List Mode} {lexed : Except ParseError (List Token)}
    (h : Agrees ((Scan.inside depth run here made).stop c symbol modes).made
      (((Scan.inside depth run here made).stop c symbol modes).scan cs) lexed) :
    Agrees made (((Scan.inside depth run here made).stop c symbol modes).scan cs)
      (Run.stop depth run here symbol lexed) := by
  refine h.map fun tokens => ?_
  rw [← map_token_flush, Scan.stop, List.map_append, List.append_assoc]
  rfl

/-- **A stack of modes does the same as a number of braces.** -/
theorem scan_eq_lexFrom (depth : ℕ) (run : Option Run) (here : Cursor) (cs : List Char) :
    ∀ made, Agrees made ((Scan.inside depth run here made).scan cs)
      (lexFrom depth run here cs) := by
  -- The end of the text, braces, literal text, words: in each case both lexers go on with the same
  -- characters, and the stack is again that inside the open braces.
  fun_induction lexFrom depth run here cs with
  | case1 run here =>
      intro made
      have hflush : (Scan.inside 0 run here made).flush.map Marked.token ++ [] =
          made.map Marked.token ++ Run.flush 0 run here [] := map_token_flush []
      rw [List.append_nil] at hflush
      exact congrArg Except.ok hflush
  | case2 depth run here hdepth =>
      intro made
      have hlength : 1 < (modesAt depth).length := by
        rw [length_modesAt]
        omega
      rw [Scan.scan, Scan.finish, if_pos hlength]
      rfl
  | case3 depth run here c cs next hc ih =>
      intro made
      obtain rfl := eq_of_beq hc
      rw [Scan.scan, next_leftBrace]
      exact agrees_stop (ih _)
  | case4 run here c cs _ hc =>
      intro made
      obtain rfl := eq_of_beq hc
      rfl
  | case5 run here c cs next _ hc outer ih =>
      intro made
      obtain rfl := eq_of_beq hc
      rw [Scan.scan, next_rightBrace]
      exact agrees_stop (ih _)
  | case6 depth run here c cs next _ _ hdepth hc ih =>
      intro made
      obtain rfl := eq_of_beq hc
      rw [Scan.scan, next_of_isLiteral rfl hdepth]
      exact agrees_stop (ih _)
  | case7 depth run here hdepth e rest he next _ _ _ ih =>
      intro made
      rw [scan_escape hdepth he]
      exact ih made
  | case8 depth run here hdepth e rest he next _ _ _ ih =>
      intro made
      rw [Scan.scan, next_literal hdepth (standsForItself_backslash he rest)]
      exact ih made
  | case9 depth run here hdepth c cs hsingle next hleft hright hhash ih =>
      intro made
      rw [Scan.scan, next_literal hdepth (standsForItself_of_ne hleft hright hhash hsingle)]
      exact ih made
  | case10 depth run here c cs next _ _ hdepth hc ih =>
      intro made
      obtain rfl := eq_of_beq hc
      rw [Scan.scan, next_of_not_isLiteral rfl (by simpa using hdepth)]
      exact agrees_stop (ih _)
  | case11 depth run here c cs next _ _ hdepth _ hspace ih =>
      intro made
      rw [Scan.scan, next_blank (by simpa using hdepth) hspace]
      exact (ih _).map map_token_flush
  | case12 depth run here c cs next hleft hright hdepth hcomma hspace ih =>
      intro made
      simp only [beq_iff_eq, Bool.not_eq_true] at hleft hright hcomma hspace hdepth
      rw [Scan.scan, next_word hdepth ⟨hspace, hcomma, hleft, hright⟩]
      exact ih made

end Counting

/-! ### Open braces -/

/-- The symbols that are made inside so many open braces, with the number of braces behind them. -/
inductive Turns : ℕ → Symbol → ℕ → Prop where
  | text {depth value} : isLiteral depth = true → Turns depth (.text value) depth
  | hash {depth} : isLiteral depth = true → Turns depth .hash depth
  | leftBrace {depth} : Turns depth .leftBrace (depth + 1)
  | rightBrace {depth} : Turns (depth + 1) .rightBrace depth
  | comma {depth} : isLiteral depth = false → Turns depth .comma depth
  | word {depth w} : isLiteral depth = false → Turns depth (.word w) depth

/-- Tokens that lead from one number of open braces to another. Each of them is made with the stack
inside the braces that are open in front of it. -/
inductive Leads : ℕ → List Marked → ℕ → Prop where
  | nil {depth} : Leads depth [] depth
  | cons {depth between last marked rest} : marked.modes = modesAt depth →
      Turns depth marked.token.symbol between → Leads between rest last →
        Leads depth (marked :: rest) last

variable {first between last depth : ℕ} {front rest : List Marked} {marked : Marked}

lemma Leads.concat (h : Leads first front between) (hmodes : marked.modes = modesAt between)
    (hturns : Turns between marked.token.symbol last) : Leads first (front ++ [marked]) last := by
  induction h with
  | nil => exact .cons hmodes hturns .nil
  | cons hfirst hturn _ ih => exact .cons hfirst hturn (ih hmodes hturns)

lemma Leads.split (h : Leads first (front ++ rest) last) :
    ∃ between, Leads first front between ∧ Leads between rest last := by
  induction front generalizing first with
  | nil => exact ⟨first, .nil, h⟩
  | cons marked front ih =>
      cases h with
      | cons hmodes hturns hpath =>
          obtain ⟨between, hfront, hrest⟩ := ih hpath
          exact ⟨between, .cons hmodes hturns hfront, hrest⟩

/-! ### All states -/

namespace Scan

variable {s t : Scan} {c : Char} {ahead : Option Char}

/-- **The invariant of a lexer with a stack**: the stack is that inside the braces which the tokens
so far leave open, and a backslash takes characters in literal text only. -/
structure Balanced (s : Scan) (depth : ℕ) : Prop where
  modes_eq : s.modes = modesAt depth
  literal_of_taken : s.taken = true → isLiteral depth = true
  leads : Leads 0 s.made depth

lemma balanced_start : start.Balanced 0 :=
  ⟨rfl, (nomatch ·), .nil⟩

namespace Balanced

lemma leads_flush (h : s.Balanced depth) : Leads 0 s.flush depth := by
  rw [flush]
  split
  · exact h.leads
  · refine h.leads.concat h.modes_eq ?_
    rw [inBlock_eq h.modes_eq]
    cases hdepth : isLiteral depth with
    | true => exact .text hdepth
    | false => exact .word hdepth

lemma stop {symbol : Symbol} (h : s.Balanced depth) (hturns : Turns depth symbol last) (c : Char) :
    (s.stop c symbol (modesAt last)).Balanced last :=
  ⟨rfl, (nomatch ·), h.leads_flush.concat h.modes_eq hturns⟩

/-- A right brace takes the innermost mode off the stack. -/
lemma pop (h : s.Balanced (depth + 1)) (c : Char) :
    (s.stop c .rightBrace s.modes.tail).Balanced depth := by
  rw [h.modes_eq]
  exact h.stop .rightBrace c

lemma nextInBlock (h : s.Balanced depth) (hdepth : isLiteral depth = false) (c : Char) :
    ∃ last, (s.nextInBlock c).Balanced last := by
  rw [Scan.nextInBlock]
  split_ifs
  · obtain ⟨outer, rfl⟩ := Nat.exists_eq_succ_of_ne_zero (ne_zero_of_not_isLiteral hdepth)
    exact ⟨outer, h.pop c⟩
  · rw [h.modes_eq, ← modesAt_succ_of_not_isLiteral hdepth]
    exact ⟨depth + 1, h.stop .leftBrace c⟩
  · exact ⟨depth, h.modes_eq ▸ h.stop (.comma hdepth) c⟩
  · exact ⟨depth, h.modes_eq, h.literal_of_taken, h.leads_flush⟩
  · exact ⟨depth, h.modes_eq, (nomatch ·), h.leads⟩

lemma nextInLiteral (h : s.Balanced depth) (hdepth : isLiteral depth = true)
    (hnext : s.nextInLiteral c ahead = .ok t) : ∃ last, t.Balanced last := by
  have htake : (s.take c).Balanced depth := ⟨h.modes_eq, (nomatch ·), h.leads⟩
  rw [Scan.nextInLiteral] at hnext
  split_ifs at hnext with htaken hleft hright hlength hhash hbackslash <;>
    obtain rfl := Except.ok.inj hnext
  · exact ⟨depth, htake⟩
  · rw [h.modes_eq, ← modesAt_succ_of_isLiteral hdepth]
    exact ⟨depth + 1, h.stop .leftBrace c⟩
  · rw [h.modes_eq, length_modesAt] at hlength
    obtain ⟨outer, rfl⟩ := Nat.exists_eq_succ_of_ne_zero (by omega : depth ≠ 0)
    exact ⟨outer, h.pop c⟩
  · exact ⟨depth, h.modes_eq ▸ h.stop (.hash hdepth) c⟩
  · exact ⟨depth, h.modes_eq, fun _ => hdepth, h.leads⟩
  · exact ⟨depth, htake⟩

/-- **A character keeps the invariant.** -/
theorem next (h : s.Balanced depth) (hnext : s.next c ahead = .ok t) :
    ∃ last, t.Balanced last := by
  cases hdepth : isLiteral depth with
  | true =>
      rw [next_of_isLiteral h.modes_eq hdepth] at hnext
      exact h.nextInLiteral hdepth hnext
  | false =>
      rw [next_of_not_isLiteral h.modes_eq hdepth] at hnext
      obtain rfl := Except.ok.inj hnext
      exact h.nextInBlock hdepth c

end Balanced

/-- The states that come up between the characters of a text, with the characters that are left. -/
inductive Reaches (s : Scan) (cs : List Char) : Scan → List Char → Prop where
  | refl : Reaches s cs s cs
  | next {t u c rest} : Reaches s cs t (c :: rest) → t.next c rest.head? = .ok u →
      Reaches s cs u rest

/-- **The invariant holds in all states** of a lexer with a stack. -/
theorem Reaches.balanced {cs left : List Char} (h : s.Balanced depth)
    (hreaches : Reaches s cs t left) : ∃ last, t.Balanced last := by
  induction hreaches with
  | refl => exact ⟨depth, h⟩
  | next _ hnext ih =>
      obtain ⟨between, hbetween⟩ := ih
      exact hbetween.next hnext

/-- **All tokens of a text** lead from no open brace to none. -/
theorem Balanced.leads_of_scan {cs : List Char} {made : List Marked} (h : s.Balanced depth)
    (hscan : s.scan cs = .ok made) : Leads 0 made 0 := by
  induction cs generalizing s depth with
  | nil =>
      rw [scan, finish, h.modes_eq, length_modesAt] at hscan
      split_ifs at hscan with hopen
      obtain rfl := Except.ok.inj hscan
      obtain rfl : depth = 0 := by omega
      exact h.leads_flush
  | cons c cs ih =>
      rw [scan] at hscan
      obtain ⟨t, hnext, hscan⟩ := bind_eq_ok.mp hscan
      obtain ⟨last, hlast⟩ := h.next hnext
      exact ih hlast hscan

end Scan

end MessageCatalog.Pattern
