/-
Where the tokens of a pattern stand.

The lexer carries a place along, and for a run of characters the place where it started. Here each
token is put back on the characters that it was made of: nothing between two tokens is left out but
the blanks between words, and every span is counted anew from the characters in front of it.

* `IsText`: characters of literal text, and the text that they spell;
* `Sits`: the characters of one token, inside so many open braces;
* `Laid`: tokens on the characters of a text;
* `laid_of_lexFrom`: the lexer lays its tokens on the characters that it reads;
* `ParseError.IsLexical`, `isLexical_of_lexFrom`: what its errors point at.
-/
import MessageCatalog.Proofs.Catalog.Verbatim
import MessageCatalog.Proofs.Pattern.Braces
import MessageCatalog.Proofs.Pattern.Lexing
import MessageCatalog.Proofs.Pattern.Position

namespace MessageCatalog.Pattern

open String (utf8Len)

/-! ### Literal text -/

/-- Characters of literal text that spell a text, whatever stands behind them. -/
structure IsText (piece : List Char) (value : String) : Prop where
  unescapes : ∀ rest, unescapeChars (piece ++ rest) = value.toList ++ unescapeChars rest
  braced : Braced true piece

lemma isText_nil : IsText [] "" := ⟨fun _ => rfl, .nil⟩

lemma IsText.append {piece more : List Char} {value added : String} (h : IsText piece value)
    (hmore : IsText more added) : IsText (piece ++ more) (value ++ added) := by
  refine ⟨fun rest => ?_, h.braced.append hmore.braced⟩
  rw [List.append_assoc, h.unescapes, hmore.unescapes, String.toList_append, List.append_assoc]

lemma isText_hash : IsText ['#'] "#" :=
  ⟨fun _ => rfl, .char (by decide) (by decide) (by decide) .nil⟩

/-- A character without a meaning stands for itself. -/
lemma isText_char {c : Char} (hc : isEscapable c = false) : IsText [c] (String.singleton c) := by
  obtain ⟨hbackslash, -, hleft, hright⟩ := ne_of_not_isEscapable hc
  refine ⟨fun rest => ?_, .char hleft hright (fun _ => hbackslash) .nil⟩
  rw [List.singleton_append, unescapeChars_cons fun h => absurd h hbackslash,
    String.toList_singleton, List.singleton_append]

/-- A backslash takes a character with a meaning. -/
lemma isText_escape {c : Char} (hc : isEscapable c = true) :
    IsText ['\\', c] (String.singleton c) := by
  refine ⟨fun rest => ?_, .escape .nil⟩
  rw [List.cons_append, List.singleton_append, unescapeChars, if_pos hc, String.toList_singleton,
    List.singleton_append]

/-- In front of any other character a backslash stands for itself. -/
lemma isText_backslash {c : Char} (hc : isEscapable c = false) :
    IsText ['\\', c] ("\\" ++ String.singleton c) := by
  refine ⟨fun rest => ?_, .escape .nil⟩
  have hrest := (isText_char hc).unescapes rest
  rw [List.singleton_append] at hrest
  rw [List.cons_append, List.singleton_append, unescapeChars, if_neg (by simp [hc]), hrest,
    String.toList_append]
  rfl

/-- The text that is spelt is what the characters say without their escapes, also in front of any
others. -/
lemma IsText.append_unescape {piece : List Char} {value : String} (h : IsText piece value)
    (more : List Char) : value ++ unescape (.ofList more) = unescape (.ofList (piece ++ more)) := by
  rw [unescape, unescape, String.toList_ofList, String.toList_ofList, h.unescapes,
    String.ofList_append, String.ofList_toList]

lemma IsText.eq_unescape {piece : List Char} {value : String} (h : IsText piece value) :
    value = unescape (.ofList piece) := by
  have hvalue := h.append_unescape []
  rw [List.append_nil] at hvalue
  exact (String.append_empty).symm.trans hvalue

/-- Characters of literal text that have been read up to a place, with the text that they spell so
far: the last of them may be a backslash that does not take the next character. -/
inductive Pending : List Char → String → List Char → Prop where
  | text {piece value cs} : IsText piece value → Pending piece value cs
  | backslash {piece value cs} : IsText piece value →
      (∀ e ∈ cs.head?, isEscapable e = false) → Pending (piece ++ ['\\']) (value.push '\\') cs

/-- In front of a character with a meaning, what has been read is literal text. -/
lemma Pending.isText {piece cs : List Char} {value : String} {c : Char}
    (h : Pending piece value (c :: cs)) (hc : isEscapable c = true) : IsText piece value := by
  cases h with
  | text h => exact h
  | backslash _ hnext =>
      rw [hnext c rfl] at hc
      cases hc

/-- What has been read up to the end says what it says without its escapes. -/
lemma Pending.eq_unescape {piece cs : List Char} {value : String} (h : Pending piece value cs) :
    value = unescape (.ofList piece) := by
  cases h with
  | text h => exact h.eq_unescape
  | @backslash piece value _ h _ =>
      rw [unescape, String.toList_ofList, h.unescapes, unescapeChars, unescapeChars]
      · rw [String.ofList_append, String.ofList_toList, String.push_eq_append]
        rfl
      · rintro _ _ _ hcons
        cases hcons

lemma Pending.escape {piece cs : List Char} {value : String} {c : Char}
    (h : Pending piece value ('\\' :: c :: cs)) (hc : isEscapable c = true) :
    Pending (piece ++ ['\\', c]) (value.push c) cs := by
  rw [String.push_eq_append]
  exact .text ((h.isText rfl).append (isText_escape hc))

lemma Pending.literal {piece cs : List Char} {value : String} {c : Char}
    (h : Pending piece value (c :: cs)) (hc : StandsForItself c cs) :
    Pending (piece ++ [c]) (value.push c) cs := by
  obtain ⟨hleft, hright, hhash, hbackslash⟩ := hc
  cases h with
  | text h =>
      by_cases hc : c = '\\'
      · subst hc
        exact .backslash h (hbackslash rfl)
      · rw [String.push_eq_append]
        exact .text (h.append (isText_char (by simp [isEscapable, hc, hleft, hright, hhash])))
  | backslash h hnext =>
      rw [String.push_eq_append, String.push_eq_append, String.append_assoc, List.append_assoc]
      exact .text (h.append (isText_backslash (hnext c rfl)))

/-! ### Tokens -/

/-- The characters of one token, with the number of open braces in front of it and behind it. -/
inductive Sits : Nat → List Char → Symbol → Nat → Prop where
  | text {depth piece value} : isLiteral depth = true → IsText piece value →
      Sits depth piece (.text value) depth
  | hash {depth} : isLiteral depth = true → Sits depth ['#'] .hash depth
  | leftBrace {depth} : Sits depth ['{'] .leftBrace (depth + 1)
  | rightBrace {depth} : Sits (depth + 1) ['}'] .rightBrace depth
  | comma {depth} : isLiteral depth = false → Sits depth [','] .comma depth
  | word {depth w} : isLiteral depth = false → (∀ c ∈ w.toList, IsWordChar c) →
      Sits depth w.toList (.word w) depth

/-- Tokens on the characters of a text, behind other characters and inside so many open braces. Only
blanks between words are left out, and only at the end of a pattern a backslash may be the last
character of literal text. -/
inductive Laid : List Char → Nat → List Char → List Token → Prop where
  | done {front} : Laid front 0 [] []
  | tail {front piece} : Laid front 0 piece [⟨.text (unescape (.ofList piece)), spanOf front piece⟩]
  | token {front depth depth' piece symbol rest tokens} : Sits depth piece symbol depth' →
      Laid (front ++ piece) depth' rest tokens →
      Laid front depth (piece ++ rest) (⟨symbol, spanOf front piece⟩ :: tokens)
  | blank {front depth c rest tokens} : isLiteral depth = false → Text.isSpace c = true →
      Laid (front ++ [c]) depth rest tokens → Laid front depth (c :: rest) tokens

/-! ### Runs -/

/-- A run that is being read: where it started, and the characters that have gone into it. -/
inductive Reading : Nat → List Char → Option Run → List Char → List Char → Prop where
  | none {depth front cs} : Reading depth front none [] cs
  | text {depth front value piece cs} : isLiteral depth = true → Pending piece value cs →
      Reading depth front (some ⟨.behind front, value⟩) piece cs
  | word {depth front value cs} : isLiteral depth = false →
      (∀ c ∈ value.toList, IsWordChar c) →
      Reading depth front (some ⟨.behind front, value⟩) value.toList cs

namespace Reading

variable {depth : Nat} {front piece cs : List Char} {run : Option Run} {c : Char}

lemma literal (h : Reading depth front run piece (c :: cs)) (hdepth : isLiteral depth = true)
    (hc : StandsForItself c cs) :
    Reading depth front (some (Run.push run (.behind (front ++ piece)) c)) (piece ++ [c]) cs := by
  cases h with
  | none =>
      rw [List.append_nil]
      exact .text hdepth (Pending.literal (.text isText_nil) hc)
  | text _ hpending => exact .text hdepth (hpending.literal hc)
  | word hword _ =>
      rw [hdepth] at hword
      cases hword

lemma escape (h : Reading depth front run piece ('\\' :: c :: cs))
    (hdepth : isLiteral depth = true) (hc : isEscapable c = true) :
    Reading depth front (some (Run.push run (.behind (front ++ piece)) c))
      (piece ++ ['\\', c]) cs := by
  cases h with
  | none =>
      rw [List.append_nil]
      exact .text hdepth (Pending.escape (.text isText_nil) hc)
  | text _ hpending => exact .text hdepth (hpending.escape hc)
  | word hword _ =>
      rw [hdepth] at hword
      cases hword

lemma wordChar (h : Reading depth front run piece (c :: cs)) (hdepth : isLiteral depth = false)
    (hc : IsWordChar c) :
    Reading depth front (some (Run.push run (.behind (front ++ piece)) c)) (piece ++ [c]) cs := by
  have hpush : ∀ value : String, (∀ d ∈ value.toList, IsWordChar d) →
      Reading depth front (some ⟨.behind front, value.push c⟩) (value.toList ++ [c]) cs := by
    intro value hvalue
    rw [← String.toList_push]
    refine .word hdepth fun d hd => ?_
    rw [String.toList_push] at hd
    rcases List.mem_append.mp hd with hd | hd
    · exact hvalue d hd
    · rwa [List.mem_singleton.mp hd]
  cases h with
  | none =>
      rw [List.append_nil]
      exact hpush "" fun _ hd => nomatch hd
  | text htext _ =>
      rw [hdepth] at htext
      cases htext
  | word _ hvalue => exact hpush _ hvalue

/-- A run that ends in front of a character becomes a token. -/
lemma flush {tokens : List Token} (h : Reading depth front run piece (c :: cs))
    (hc : isLiteral depth = true → isEscapable c = true)
    (hrest : Laid (front ++ piece) depth (c :: cs) tokens) :
    Laid front depth (piece ++ c :: cs)
      (Run.flush depth run (.behind (front ++ piece)) tokens) := by
  cases h with
  | none => simpa [Run.flush] using hrest
  | text hdepth hpending =>
      rw [Run.flush, hdepth]
      exact .token (.text hdepth (hpending.isText (hc hdepth))) hrest
  | word hdepth hvalue =>
      rw [Run.flush, hdepth]
      exact .token (.word hdepth hvalue) hrest

/-- A run that ends at the end of a pattern becomes the last token. -/
lemma finish (h : Reading 0 front run piece []) :
    Laid front 0 piece (Run.flush 0 run (.behind (front ++ piece)) []) := by
  cases h with
  | none => exact .done
  | text hdepth hpending =>
      rw [Run.flush, hdepth, hpending.eq_unescape]
      exact .tail
  | word hdepth _ => cases hdepth

/-- A run that ends at a punctuation character becomes a token in front of it. -/
lemma stop {depth' : Nat} {symbol : Symbol} {rest : Except ParseError (List Token)}
    {tokens : List Token} (h : Reading depth front run piece (c :: cs))
    (hc : isLiteral depth = true → isEscapable c = true) (hsize : c.utf8Size = 1)
    (hsits : Sits depth [c] symbol depth')
    (hrest : ∀ others, rest = .ok others → Laid (front ++ piece ++ [c]) depth' cs others)
    (htokens : Run.stop depth run (.behind (front ++ piece)) symbol rest = .ok tokens) :
    Laid front depth (piece ++ c :: cs) tokens := by
  obtain ⟨others, hothers, rfl⟩ := map_eq_ok.mp htokens
  refine h.flush hc ?_
  rw [to_succ_eq_spanOf hsize]
  exact .token hsits (hrest others hothers)

end Reading

/-! ### The lexer -/

/-- Behind a character the next token may start. -/
lemma advance_to_start (front : List Char) (c : Char) :
    (Cursor.behind front).advance c = .behind (front ++ [c] ++ []) := by
  rw [List.append_nil]
  exact behind_advance front c

/-- **The lexer lays its tokens on the characters that it reads.** -/
theorem laid_of_lexFrom {depth : Nat} {run : Option Run} {here : Cursor} {cs : List Char} :
    ∀ {front piece tokens}, Reading depth front run piece cs → here = .behind (front ++ piece) →
      lexFrom depth run here cs = .ok tokens → Laid front depth (piece ++ cs) tokens := by
  -- By induction on the lexer, with the run that is being read and the characters it stands on left
  -- open: each case says on which characters the run of the rest stands.
  fun_induction lexFrom depth run here cs
  case case1 =>
    rintro front piece tokens hrun rfl h
    obtain rfl := Except.ok.inj h
    rw [List.append_nil]
    exact hrun.finish
  case case2 =>
    intro front piece tokens _ _ h
    cases h
  -- A brace ends the run and is a token of its own; behind it nothing is being read.
  case case3 depth run here c cs next hc ih =>
    rintro front piece tokens hrun rfl h
    obtain rfl := eq_of_beq hc
    exact hrun.stop (fun _ => rfl) rfl .leftBrace (fun _ => ih .none (advance_to_start _ _)) h
  case case4 =>
    intro front piece tokens _ _ h
    cases h
  case case5 run here c cs next _ hc outer ih =>
    rintro front piece tokens hrun rfl h
    obtain rfl := eq_of_beq hc
    exact hrun.stop (fun _ => rfl) rfl .rightBrace (fun _ => ih .none (advance_to_start _ _)) h
  case case6 depth run here c cs next _ _ hdepth hc ih =>
    rintro front piece tokens hrun rfl h
    obtain rfl := eq_of_beq hc
    exact hrun.stop (fun _ => rfl) rfl (.hash hdepth) (fun _ => ih .none (advance_to_start _ _)) h
  -- In literal text the run takes what is escaped, a backslash that escapes nothing, and any other
  -- character that stands for itself.
  case case7 depth run here hdepth e rest he next _ _ _ ih =>
    rintro front piece tokens hrun rfl h
    have hlaid := ih (hrun.escape hdepth he) (by simp [next, behind_advance]) h
    simpa using hlaid
  case case8 depth run here hdepth e rest he next _ _ _ ih =>
    rintro front piece tokens hrun rfl h
    have hlaid := ih (hrun.literal hdepth (standsForItself_backslash he rest))
      (by simp [next, behind_advance]) h
    simpa using hlaid
  case case9 depth run here hdepth c cs hsingle next hleft hright hhash ih =>
    rintro front piece tokens hrun rfl h
    have hself := standsForItself_of_ne hleft hright hhash hsingle
    have hlaid := ih (hrun.literal hdepth hself) (by simp [next, behind_advance]) h
    simpa using hlaid
  -- Between words a comma is a token, a blank is left out, and other characters join the word.
  case case10 depth run here c cs next _ _ hdepth hc ih =>
    rintro front piece tokens hrun rfl h
    obtain rfl := eq_of_beq hc
    rw [Bool.not_eq_true] at hdepth
    exact hrun.stop (fun hlit => by simp [hdepth] at hlit) rfl (.comma hdepth)
      (fun _ => ih .none (advance_to_start _ _)) h
  case case11 depth run here c cs next _ _ hdepth _ hspace ih =>
    rintro front piece tokens hrun rfl h
    rw [Bool.not_eq_true] at hdepth
    obtain ⟨others, hothers, rfl⟩ := map_eq_ok.mp h
    refine hrun.flush (fun hlit => by simp [hdepth] at hlit) (.blank hdepth hspace ?_)
    exact ih .none (advance_to_start _ _) hothers
  case case12 depth run here c cs next hleft hright hdepth hcomma hspace ih =>
    rintro front piece tokens hrun rfl h
    simp only [beq_iff_eq, Bool.not_eq_true] at hleft hright hcomma hspace hdepth
    have hlaid := ih (hrun.wordChar hdepth ⟨hspace, hcomma, hleft, hright⟩)
      (by simp [next, behind_advance]) h
    simpa using hlaid

/-- What the lexer complains about: a right brace of the text, or that the text ends inside braces,
which it says about one byte behind the end. -/
inductive ParseError.IsLexical (text : List Char) : ParseError → Prop where
  | unbalanced {span} : span.Within text → IsLexical text ⟨.unbalancedBrace, span⟩
  | unclosed : IsLexical text ⟨.unclosedBrace, (Cursor.behind text).to (utf8Len text + 1)⟩

theorem isLexical_of_lexFrom {depth : Nat} {run : Option Run} {here : Cursor} {cs : List Char} :
    ∀ {front}, here = .behind front →
      Raises (ParseError.IsLexical (front ++ cs)) (lexFrom depth run here cs) := by
  -- Errors arise at the end of the text and at a right brace (the second and the fourth case). In
  -- all other cases the error is that of the rest, which has the same characters in front.
  fun_induction lexFrom depth run here cs
  case case1 => exact fun _ => .ok _
  case case2 depth run here hdepth =>
    rintro front rfl
    rw [List.append_nil]
    exact .error .unclosed
  case case3 depth run here c cs next hc ih =>
    rintro front rfl
    rw [List.append_cons]
    exact (ih (behind_advance front c)).map _
  case case4 run here c cs _ hc =>
    rintro front rfl
    obtain rfl := eq_of_beq hc
    have hbrace : '}'.utf8Size = 1 := rfl
    rw [List.append_cons, to_succ_eq_spanOf hbrace]
    exact .error (.unbalanced ((within_spanOf front ['}']).append cs))
  case case5 run here c cs next _ hc outer ih =>
    rintro front rfl
    rw [List.append_cons]
    exact (ih (behind_advance front c)).map _
  case case6 depth run here c cs next _ _ hdepth hc ih =>
    rintro front rfl
    rw [List.append_cons]
    exact (ih (behind_advance front c)).map _
  case case7 depth run here hdepth e rest he next _ _ _ ih =>
    rintro front rfl
    rw [List.append_cons, List.append_cons]
    exact ih (by simp [next, behind_advance])
  case case8 depth run here hdepth e rest he next _ _ _ ih =>
    rintro front rfl
    rw [List.append_cons]
    exact ih (behind_advance front '\\')
  case case9 depth run here hdepth c cs hsingle next hleft hright hhash ih =>
    rintro front rfl
    rw [List.append_cons]
    exact ih (behind_advance front c)
  case case10 depth run here c cs next _ _ hdepth hc ih =>
    rintro front rfl
    rw [List.append_cons]
    exact (ih (behind_advance front c)).map _
  case case11 depth run here c cs next _ _ hdepth _ hspace ih =>
    rintro front rfl
    rw [List.append_cons]
    exact (ih (behind_advance front c)).map _
  case case12 depth run here c cs next hleft hright hdepth hcomma hspace ih =>
    rintro front rfl
    rw [List.append_cons]
    exact ih (behind_advance front c)

end MessageCatalog.Pattern
