/-
Patterns as they are written.

A pattern is written in two steps: its elements are put down as symbols, and the symbols are spelled
out as characters, where a block may have blanks between any two of its symbols. The lexer takes the
second step back.

* `Element.symbols`: the symbols of an element, with no freedom left;
* `Spells`: a spelling of symbols, with all freedom about blanks;
* `Written`: the texts that a pattern may be written as; `exists_written`: there always is one;
* `lexFrom_of_spells`: the lexer finds the symbols of every spelling.
-/
import MessageCatalog.Pattern.Token
import MessageCatalog.Proofs.Pattern.Lexing

namespace MessageCatalog.Pattern

open Formatting (Style)
open Plural (Key Kind)

/-! ### Symbols of elements -/

/-- The words of a phrase. -/
def wordsOf (phrase : String) : List String :=
  ((Text.pieces (· == ' ') phrase.toList).filter (!·.isEmpty)).map String.ofList

/-- A comma and the words of a part of a style. -/
def partSymbols (part : String) : List Symbol :=
  .comma :: (wordsOf part).map .word

/-- The symbols of a style, each part after a comma. -/
def styleSymbols : Option Style → List Symbol
  | none => []
  | some (.single part) => partSymbols part
  | some (.list parts) => parts.flatMap partSymbols

/-- The word that announces a plural. -/
def pluralWord : Kind → String
  | .cardinal => "plural"
  | .ordinal => "selectordinal"

/-- The word that announces an offset, with its number. -/
def offsetWord (offset : Nat) : String :=
  String.ofList ("offset:".toList ++ Number.digits offset)

namespace Element

variable {σ : Type}

mutual

/-- The symbols of an element. -/
def symbols : Element σ → List Symbol
  | .literal value _ => [.text value]
  | .argument name _ => [.leftBrace, .word name, .rightBrace]
  | .call arg name style _ =>
    .leftBrace :: .word arg :: .comma :: .word name :: (styleSymbols style ++ [.rightBrace])
  | .plural arg kind offset cases _ =>
    .leftBrace :: .word arg :: .comma :: .word (pluralWord kind) :: .comma ::
      .word (offsetWord offset) :: (symbolsOfPlural cases ++ [.rightBrace])
  | .select arg cases _ =>
    .leftBrace :: .word arg :: .comma :: .word "select" :: .comma ::
      (symbolsOfSelect cases ++ [.rightBrace])
  | .numberSign _ => [.hash]

/-- The symbols of elements. -/
def symbolsOfAll : List (Element σ) → List Symbol
  | [] => []
  | e :: rest => e.symbols ++ symbolsOfAll rest

/-- The symbols of plural cases: each key, and its message in braces. -/
def symbolsOfPlural : List (Case Key σ (Element σ)) → List Symbol
  | [] => []
  | ⟨key, body, _⟩ :: rest =>
    .word key.text :: .leftBrace :: (symbolsOfAll body ++ .rightBrace :: symbolsOfPlural rest)

/-- The symbols of select cases: each key, and its message in braces. -/
def symbolsOfSelect : List (Case String σ (Element σ)) → List Symbol
  | [] => []
  | ⟨key, body, _⟩ :: rest =>
    .word key :: .leftBrace :: (symbolsOfAll body ++ .rightBrace :: symbolsOfSelect rest)

end

end Element

/-! ### Spellings -/

/-- Whether symbols start with a word. -/
def startsWithWord : List Symbol → Bool
  | .word _ :: _ => true
  | _ => false

/-- Whether characters start with an ASCII space. -/
def startsWithBlank : List Char → Bool
  | c :: _ => Text.isSpace c
  | [] => false

/-- Characters that spell symbols inside so many open braces. Literal text is escaped; a block may
have blanks anywhere between its symbols, and needs one between two words. -/
inductive Spells : Nat → List Symbol → List Char → Prop where
  | done : Spells 0 [] []
  | text {depth value rest cs} : isLiteral depth = true → Spells depth rest cs →
      Spells depth (.text value :: rest) (escapeChars value.toList ++ cs)
  | hash {depth rest cs} : isLiteral depth = true → Spells depth rest cs →
      Spells depth (.hash :: rest) ('#' :: cs)
  | leftBrace {depth rest cs} : Spells (depth + 1) rest cs →
      Spells depth (.leftBrace :: rest) ('{' :: cs)
  | rightBrace {depth rest cs} : Spells depth rest cs →
      Spells (depth + 1) (.rightBrace :: rest) ('}' :: cs)
  | comma {depth rest cs} : isLiteral depth = false → Spells depth rest cs →
      Spells depth (.comma :: rest) (',' :: cs)
  | word {depth w rest cs} : isLiteral depth = false →
      (startsWithWord rest = true → startsWithBlank cs = true) → Spells depth rest cs →
      Spells depth (.word w :: rest) (w.toList ++ cs)
  | blank {depth symbols c cs} : isLiteral depth = false → Text.isSpace c = true →
      Spells depth symbols cs → Spells depth symbols (c :: cs)

/-- A text that elements may be written as. -/
def Written (es : List (Element Unit)) (text : String) : Prop :=
  Spells 0 (Element.symbolsOfAll es) text.toList

/-! ### Symbols that can be told apart -/

/-- Whether a symbol is literal text. -/
def Symbol.isText : Symbol → Bool
  | .text _ => true
  | _ => false

/-- Symbols that the lexer can make of one spelling: each is well-formed, and literal text is not
next to literal text, with which it would run together. -/
structure Lexable (symbols : List Symbol) : Prop where
  wellFormed : ∀ symbol ∈ symbols, symbol.WellFormed
  apart : symbols.IsChain fun a b => ¬(a.isText = true ∧ b.isText = true)

lemma lexable_nil : Lexable [] := ⟨by simp, List.isChain_nil⟩

lemma Lexable.tail {symbol : Symbol} {rest : List Symbol} (h : Lexable (symbol :: rest)) :
    Lexable rest :=
  ⟨fun a ha => h.wellFormed a (List.mem_cons_of_mem symbol ha), h.apart.tail⟩

lemma Lexable.cons {symbol : Symbol} {rest : List Symbol} (h : Lexable rest)
    (hsymbol : symbol.WellFormed) (htext : symbol.isText = false) : Lexable (symbol :: rest) := by
  refine ⟨?_, List.isChain_cons.mpr ⟨fun b _ hb => ?_, h.apart⟩⟩
  · simpa using ⟨hsymbol, h.wellFormed⟩
  · rw [htext] at hb
    exact Bool.false_ne_true hb.1

lemma Lexable.word {w : String} {rest : List Symbol} (h : Lexable rest) (hw : IsWord w) :
    Lexable (.word w :: rest) :=
  h.cons hw rfl

lemma Lexable.comma {rest : List Symbol} (h : Lexable rest) : Lexable (.comma :: rest) :=
  h.cons trivial rfl

lemma Lexable.leftBrace {rest : List Symbol} (h : Lexable rest) : Lexable (.leftBrace :: rest) :=
  h.cons trivial rfl

lemma Lexable.rightBrace {rest : List Symbol} (h : Lexable rest) : Lexable (.rightBrace :: rest) :=
  h.cons trivial rfl

/-- Symbols go behind others if literal text is not on both sides of the seam. -/
lemma Lexable.append {front rest : List Symbol} (hfront : Lexable front) (hrest : Lexable rest)
    (h : (∀ a ∈ front.getLast?, a.isText = false) ∨ ∀ b ∈ rest.head?, b.isText = false) :
    Lexable (front ++ rest) := by
  refine ⟨?_, List.isChain_append.mpr ⟨hfront.apart, hrest.apart, ?_⟩⟩
  · intro a ha
    rcases List.mem_append.mp ha with ha | ha
    · exact hfront.wellFormed a ha
    · exact hrest.wellFormed a ha
  · intro a ha b hb hab
    rcases h with h | h
    · rw [h a ha] at hab
      exact Bool.false_ne_true hab.1
    · rw [h b hb] at hab
      exact Bool.false_ne_true hab.2

/-- Where there is no literal text, none can run together. -/
lemma lexable_of_forall {symbols : List Symbol}
    (h : ∀ a ∈ symbols, a.WellFormed ∧ a.isText = false) : Lexable symbols := by
  induction symbols with
  | nil => exact lexable_nil
  | cons a rest ih =>
      have ha := h a List.mem_cons_self
      exact (ih fun b hb => h b (List.mem_cons_of_mem a hb)).cons ha.1 ha.2

/-! ### The lexer on spellings -/

/-- Characters that end whatever has been read in front of them. -/
def Stops (depth : Nat) : List Char → Prop
  | [] => True
  | c :: _ => c = '{' ∨ c = '}' ∨ (isLiteral depth = true ∧ c = '#') ∨
      (isLiteral depth = false ∧ (c = ',' ∨ Text.isSpace c = true))

/-- Characters in which the lexer finds symbols, wherever they start. -/
def Lexes (depth : Nat) (symbols : List Symbol) (cs : List Char) : Prop :=
  ∀ here, ∃ tokens, lexFrom depth none here cs = .ok tokens ∧ tokens.map (·.symbol) = symbols

/-- Where a run stops, the characters that follow it are read as if there were none. -/
lemma lexFrom_of_stops {depth : Nat} {cs : List Char} (h : Stops depth cs) (run : Option Run)
    (here : Cursor) :
    lexFrom depth run here cs = (lexFrom depth none here cs).map (Run.flush depth run here) := by
  have hstop : ∀ symbol rest, Run.stop depth run here symbol rest =
      (Run.stop depth none here symbol rest).map (Run.flush depth run here) := by
    intro symbol rest
    cases rest <;> rfl
  cases cs with
  | nil =>
      rw [lexFrom, lexFrom]
      split <;> rfl
  | cons c cs =>
      rcases h with rfl | rfl | ⟨hdepth, rfl⟩ | ⟨hdepth, rfl | hc⟩
      · exact hstop _ _
      · cases depth with
        | zero => rfl
        | succ outer => exact hstop _ _
      · rw [lexFrom_hash run here cs hdepth, lexFrom_hash none here cs hdepth]
        exact hstop _ _
      · rw [lexFrom_comma run here cs hdepth, lexFrom_comma none here cs hdepth]
        exact hstop _ _
      · rw [lexFrom_blank run here cs hdepth hc, lexFrom_blank none here cs hdepth hc]
        cases lexFrom depth none (here.advance c) cs <;> rfl

/-- Characters that the lexer takes for one character of a run. -/
def Takes (depth : Nat) (chars : List Char) (c : Char) : Prop :=
  ∀ run here cs, ∃ next,
    lexFrom depth run here (chars ++ cs) = lexFrom depth (some (Run.push run here c)) next cs

lemma takes_wordChar {depth : Nat} (hdepth : isLiteral depth = false) {c : Char}
    (hc : IsWordChar c) : Takes depth [c] c := by
  intro run here cs
  exact ⟨here.advance c, lexFrom_word run here cs hdepth hc⟩

/-- A character with a backslash in front of it, if it has a meaning in literal text. -/
def escapeChar (c : Char) : List Char :=
  if isEscapable c then ['\\', c] else [c]

lemma escapeChars_eq_flatMap (cs : List Char) : escapeChars cs = cs.flatMap escapeChar := by
  induction cs with
  | nil => rfl
  | cons c cs ih =>
      rw [escapeChars, List.flatMap_cons, escapeChar, ← ih]
      split <;> rfl

lemma takes_escapeChar {depth : Nat} (hdepth : isLiteral depth = true) (c : Char) :
    Takes depth (escapeChar c) c := by
  intro run here cs
  by_cases hc : isEscapable c = true
  · refine ⟨(here.advance '\\').advance c, ?_⟩
    rw [escapeChar, if_pos hc]
    exact lexFrom_escape run here cs hdepth hc
  · refine ⟨here.advance c, ?_⟩
    rw [escapeChar, if_neg hc]
    simp only [isEscapable, Bool.or_eq_true, beq_iff_eq, not_or] at hc
    obtain ⟨⟨⟨hbackslash, hhash⟩, hleft⟩, hright⟩ := hc
    exact lexFrom_literal run here hdepth
      ⟨hleft, hright, hhash, fun h => absurd h hbackslash⟩

/-- Characters that are taken one after the other make up a run. -/
lemma exists_run {depth : Nat} {chars : Char → List Char} {value : List Char}
    (h : ∀ c ∈ value, Takes depth (chars c) c) (r : Run) (here : Cursor) (cs : List Char) :
    ∃ next, lexFrom depth (some r) here (value.flatMap chars ++ cs) =
      lexFrom depth (some ⟨r.start, r.text ++ String.ofList value⟩) next cs := by
  induction value generalizing r here with
  | nil =>
      refine ⟨here, ?_⟩
      rw [List.flatMap_nil, List.nil_append, String.ofList_nil, String.append_empty]
  | cons c value ih =>
      obtain ⟨next, hnext⟩ := h c List.mem_cons_self (some r) here (value.flatMap chars ++ cs)
      obtain ⟨last, hlast⟩ := ih (fun d hd => h d (List.mem_cons_of_mem c hd))
        ⟨r.start, r.text.push c⟩ next
      have htext : r.text.push c ++ String.ofList value = r.text ++ String.ofList (c :: value) := by
        apply String.toList_injective
        simp
      refine ⟨last, ?_⟩
      rw [List.flatMap_cons, List.append_assoc, hnext, Run.push, hlast, htext]

/-- A run is found where it stops, in front of what is found after it. -/
lemma Lexes.run {depth : Nat} {chars : Char → List Char} {value : String} (hvalue : value ≠ "")
    (h : ∀ c ∈ value.toList, Takes depth (chars c) c) {symbols : List Symbol} {cs : List Char}
    (hcs : Lexes depth symbols cs) (hstops : Stops depth cs) :
    Lexes depth (runSymbol depth value :: symbols) (value.toList.flatMap chars ++ cs) := by
  intro here
  cases hlist : value.toList with
  | nil => exact absurd (String.toList_eq_nil_iff.mp hlist) hvalue
  | cons c rest =>
      rw [hlist] at h
      obtain ⟨next, hnext⟩ := h c List.mem_cons_self none here (rest.flatMap chars ++ cs)
      obtain ⟨last, hlast⟩ := exists_run (fun d hd => h d (List.mem_cons_of_mem c hd))
        ⟨here, String.singleton c⟩ next cs
      obtain ⟨tokens, htokens, hsymbols⟩ := hcs last
      have hvalue' : String.singleton c ++ String.ofList rest = value := by
        apply String.toList_injective
        simp [hlist]
      rw [List.flatMap_cons, List.append_assoc, hnext, Run.push, hlast, lexFrom_of_stops hstops,
        htokens, hvalue']
      exact ⟨_, rfl, by rw [← hsymbols]; rfl⟩

/-- One character that is a symbol of its own. -/
lemma Lexes.stop {depth depth' : Nat} {symbols : List Symbol} {c : Char} {cs : List Char}
    (hcs : Lexes depth' symbols cs) {symbol : Symbol}
    (h : ∀ here, lexFrom depth none here (c :: cs) =
      Run.stop depth none here symbol (lexFrom depth' none (here.advance c) cs)) :
    Lexes depth (symbol :: symbols) (c :: cs) := by
  intro here
  obtain ⟨tokens, htokens, hsymbols⟩ := hcs (here.advance c)
  rw [h, htokens]
  exact ⟨_, rfl, by rw [← hsymbols]; rfl⟩

/-- What is found after a blank is found with the blank. -/
lemma Lexes.blank {depth : Nat} (hdepth : isLiteral depth = false) {symbols : List Symbol}
    {cs : List Char} (hcs : Lexes depth symbols cs) {c : Char} (hc : Text.isSpace c = true) :
    Lexes depth symbols (c :: cs) := by
  intro here
  obtain ⟨tokens, htokens, hsymbols⟩ := hcs (here.advance c)
  rw [lexFrom_blank none here cs hdepth hc, htokens]
  exact ⟨_, rfl, hsymbols⟩

/-! ### Every spelling is taken back -/

/-- Whether symbols start with literal text. -/
def startsWithText : List Symbol → Bool
  | .text _ :: _ => true
  | _ => false

/-- A spelling stops literal text unless it goes on with literal text. -/
lemma Spells.stops_text {depth : Nat} {symbols : List Symbol} {cs : List Char}
    (h : Spells depth symbols cs) (hdepth : isLiteral depth = true)
    (hsymbols : startsWithText symbols = false) : Stops depth cs := by
  cases h with
  | done => trivial
  | text => cases hsymbols
  | hash => exact .inr (.inr (.inl ⟨hdepth, rfl⟩))
  | leftBrace => exact .inl rfl
  | rightBrace => exact .inr (.inl rfl)
  | comma hdepth' => rw [hdepth] at hdepth'; cases hdepth'
  | word hdepth' => rw [hdepth] at hdepth'; cases hdepth'
  | blank hdepth' => rw [hdepth] at hdepth'; cases hdepth'

/-- A spelling stops a word, as another word needs a blank in front of it. -/
lemma Spells.stops_word {depth : Nat} {symbols : List Symbol} {cs : List Char}
    (h : Spells depth symbols cs) (hdepth : isLiteral depth = false)
    (hblank : startsWithWord symbols = true → startsWithBlank cs = true) : Stops depth cs := by
  cases h with
  | done => trivial
  | text hdepth' => rw [hdepth] at hdepth'; cases hdepth'
  | hash hdepth' => rw [hdepth] at hdepth'; cases hdepth'
  | leftBrace => exact .inl rfl
  | rightBrace => exact .inr (.inl rfl)
  | comma => exact .inr (.inr (.inr ⟨hdepth, .inl rfl⟩))
  | @word _ w rest cs =>
      cases hcs : w.toList ++ cs with
      | nil => trivial
      | cons c rest =>
          have hc := hblank rfl
          rw [hcs] at hc
          exact .inr (.inr (.inr ⟨hdepth, .inr hc⟩))
  | blank _ hc => exact .inr (.inr (.inr ⟨hdepth, .inr hc⟩))

/-- **The lexer takes every spelling back**: it finds the symbols that have been spelled, in
whatever way this was done. -/
theorem lexFrom_of_spells {depth : Nat} {symbols : List Symbol} {cs : List Char}
    (h : Spells depth symbols cs) (hsymbols : Lexable symbols) : Lexes depth symbols cs := by
  induction h with
  | done => exact fun here => ⟨[], rfl, rfl⟩
  -- The run of literal text ends in front of the next symbol, as that one is no literal.
  | @text depth value rest cs hdepth hrest ih =>
      have htext : startsWithText rest = false := by
        cases rest with
        | nil => rfl
        | cons symbol rest =>
            have hneighbours := (List.isChain_cons_cons.mp hsymbols.apart).1
            cases symbol with
            | text => exact absurd ⟨rfl, rfl⟩ hneighbours
            | _ => rfl
      have hvalue : value ≠ "" := hsymbols.wellFormed _ List.mem_cons_self
      have hrun := Lexes.run hvalue (fun c _ => takes_escapeChar hdepth c) (ih hsymbols.tail)
        (hrest.stops_text hdepth htext)
      rwa [runSymbol, if_pos hdepth, ← escapeChars_eq_flatMap] at hrun
  | hash hdepth _ ih =>
      exact (ih hsymbols.tail).stop fun here => lexFrom_hash none here _ hdepth
  | leftBrace _ ih => exact (ih hsymbols.tail).stop fun here => rfl
  | rightBrace _ ih => exact (ih hsymbols.tail).stop fun here => rfl
  | comma hdepth _ ih =>
      exact (ih hsymbols.tail).stop fun here => lexFrom_comma none here _ hdepth
  -- A word ends at a blank or a punctuation character, one of which stands behind it.
  | @word depth w rest cs hdepth hblank hrest ih =>
      have hw : IsWord w := hsymbols.wellFormed _ List.mem_cons_self
      have hrun := Lexes.run hw.1 (fun c hc => takes_wordChar hdepth (hw.2 c hc))
        (ih hsymbols.tail) (hrest.stops_word hdepth hblank)
      rwa [runSymbol, hdepth, if_neg (by decide), List.flatMap_singleton'] at hrun
  | blank hdepth hc _ ih => exact (ih hsymbols).blank hdepth hc

/-! ### Every pattern has a spelling -/

/-- Symbols that can be spelled inside so many open braces. -/
def Spellable (depth : Nat) (symbols : List Symbol) : Prop :=
  ∃ cs, Spells depth symbols cs

lemma isLiteral_succ {depth : Nat} (h : isLiteral depth = true) :
    isLiteral (depth + 1) = false := by
  simp only [isLiteral, beq_iff_eq, beq_eq_false_iff_ne] at h ⊢
  omega

lemma isLiteral_succ_succ {depth : Nat} (h : isLiteral depth = true) :
    isLiteral (depth + 1 + 1) = true := by
  simp only [isLiteral, beq_iff_eq] at h ⊢
  omega

lemma Spellable.leftBrace {depth : Nat} {rest : List Symbol} (h : Spellable (depth + 1) rest) :
    Spellable depth (.leftBrace :: rest) := by
  obtain ⟨cs, hcs⟩ := h
  exact ⟨_, .leftBrace hcs⟩

lemma Spellable.rightBrace {depth : Nat} {rest : List Symbol} (h : Spellable depth rest) :
    Spellable (depth + 1) (.rightBrace :: rest) := by
  obtain ⟨cs, hcs⟩ := h
  exact ⟨_, .rightBrace hcs⟩

lemma Spellable.comma {depth : Nat} (hdepth : isLiteral depth = false) {rest : List Symbol}
    (h : Spellable depth rest) : Spellable depth (.comma :: rest) := by
  obtain ⟨cs, hcs⟩ := h
  exact ⟨_, .comma hdepth hcs⟩

/-- A blank behind every word is always enough. -/
lemma Spellable.word {depth : Nat} (hdepth : isLiteral depth = false) (w : String)
    {rest : List Symbol} (h : Spellable depth rest) : Spellable depth (.word w :: rest) := by
  obtain ⟨cs, hcs⟩ := h
  have hblank : Spells depth rest (' ' :: cs) := .blank hdepth (by decide) hcs
  exact ⟨_, .word hdepth (fun _ => rfl) hblank⟩

lemma Spellable.part {depth : Nat} (hdepth : isLiteral depth = false) (part : String)
    {rest : List Symbol} (h : Spellable depth rest) :
    Spellable depth (partSymbols part ++ rest) := by
  refine Spellable.comma hdepth ?_
  show Spellable depth ((wordsOf part).map .word ++ rest)
  induction wordsOf part with
  | nil => exact h
  | cons w ws ih => exact .word hdepth w ih

lemma Spellable.style {depth : Nat} (hdepth : isLiteral depth = false) (style : Option Style)
    {rest : List Symbol} (h : Spellable depth rest) :
    Spellable depth (styleSymbols style ++ rest) := by
  match style with
  | none => exact h
  | some (.single part) => exact h.part hdepth part
  | some (.list parts) =>
      rw [styleSymbols]
      induction parts with
      | nil => exact h
      | cons part parts ih =>
          rw [List.flatMap_cons, List.append_assoc]
          exact ih.part hdepth part

section Spellable

variable {σ : Type}

mutual

/-- An element can be spelled in front of whatever can be spelled. -/
lemma spellable_element {depth : Nat} (hdepth : isLiteral depth = true) {rest : List Symbol}
    (h : Spellable depth rest) : ∀ e : Element σ, Spellable depth (e.symbols ++ rest)
  | .literal value _ => by
      obtain ⟨cs, hcs⟩ := h
      exact ⟨_, .text hdepth hcs⟩
  | .argument name _ => .leftBrace (.word (isLiteral_succ hdepth) name h.rightBrace)
  | .call arg name style _ => by
      have hblock := isLiteral_succ hdepth
      have hstyle := h.rightBrace.style hblock style
      simp only [Element.symbols, List.cons_append, List.append_assoc]
      exact .leftBrace (.word hblock arg (.comma hblock (.word hblock name hstyle)))
  | .plural arg kind offset cases _ => by
      have hblock := isLiteral_succ hdepth
      have hcases := spellable_plural hdepth h.rightBrace cases
      simp only [Element.symbols, List.cons_append, List.append_assoc]
      exact .leftBrace (.word hblock arg (.comma hblock (.word hblock (pluralWord kind)
        (.comma hblock (.word hblock (offsetWord offset) hcases)))))
  | .select arg cases _ => by
      have hblock := isLiteral_succ hdepth
      have hcases := spellable_select hdepth h.rightBrace cases
      simp only [Element.symbols, List.cons_append, List.append_assoc]
      exact .leftBrace (.word hblock arg (.comma hblock (.word hblock "select"
        (.comma hblock hcases))))
  | .numberSign _ => by
      obtain ⟨cs, hcs⟩ := h
      exact ⟨_, .hash hdepth hcs⟩

/-- Elements can be spelled in front of whatever can be spelled. -/
lemma spellable_all {depth : Nat} (hdepth : isLiteral depth = true) {rest : List Symbol}
    (h : Spellable depth rest) :
    ∀ es : List (Element σ), Spellable depth (Element.symbolsOfAll es ++ rest)
  | [] => h
  | e :: es => by
      rw [Element.symbolsOfAll, List.append_assoc]
      exact spellable_element hdepth (spellable_all hdepth h es) e

/-- Plural cases can be spelled in the block of their statement. -/
lemma spellable_plural {depth : Nat} (hdepth : isLiteral depth = true) {rest : List Symbol}
    (h : Spellable (depth + 1) rest) :
    ∀ cases : List (Case Key σ (Element σ)),
      Spellable (depth + 1) (Element.symbolsOfPlural cases ++ rest)
  | [] => h
  | ⟨key, body, _⟩ :: cases => by
      have hcases := (spellable_plural hdepth h cases).rightBrace
      have hbody := spellable_all (isLiteral_succ_succ hdepth) hcases body
      simp only [Element.symbolsOfPlural, List.cons_append, List.append_assoc]
      exact .word (isLiteral_succ hdepth) key.text (.leftBrace hbody)

/-- Select cases can be spelled in the block of their statement. -/
lemma spellable_select {depth : Nat} (hdepth : isLiteral depth = true) {rest : List Symbol}
    (h : Spellable (depth + 1) rest) : ∀ cases : List (Case String σ (Element σ)),
      Spellable (depth + 1) (Element.symbolsOfSelect cases ++ rest)
  | [] => h
  | ⟨key, body, _⟩ :: cases => by
      have hcases := (spellable_select hdepth h cases).rightBrace
      have hbody := spellable_all (isLiteral_succ_succ hdepth) hcases body
      simp only [Element.symbolsOfSelect, List.cons_append, List.append_assoc]
      exact .word (isLiteral_succ hdepth) key (.leftBrace hbody)

end

end Spellable

/-- **Every pattern can be written.** -/
theorem exists_written (es : List (Element Unit)) : ∃ text, Written es text := by
  obtain ⟨cs, hcs⟩ := spellable_all rfl ⟨[], .done⟩ es
  refine ⟨String.ofList cs, ?_⟩
  rw [Written, String.toList_ofList]
  rwa [List.append_nil] at hcs

end MessageCatalog.Pattern
