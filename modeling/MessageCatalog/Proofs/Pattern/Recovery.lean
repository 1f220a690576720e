/-
Every well-formed pattern is recovered from each of its texts.

The lexer finds the symbols of a text that has been written, so what is left is the parser on
symbols: from a state in a message it comes to the state with the element behind the others, which
says the same as the one that was written.

* `lexable_message`: the symbols of a message can be told apart by the lexer;
* `State.Reads`: where symbols lead the parser, whatever their places in a text;
* `reads_element`, `reads_elements`: the symbols of elements lead to these elements;
* `parse_of_written`: a well-formed pattern is read back from every text that it is written as.
-/
import MessageCatalog.Proofs.Pattern.Keys
import MessageCatalog.Proofs.Pattern.Written
import MessageCatalog.Proofs.Text.Blank

namespace MessageCatalog.Pattern

open Formatting (Style)
open Plural (Key Kind)

/-! ### Words of phrases -/

/-- A word has no blank in it. -/
lemma IsWord.ne_blank {word : String} (h : IsWord word) :
    ∀ c ∈ word.toList, (c == ' ') = false := by
  intro c hc
  rw [beq_eq_false_iff_ne]
  rintro rfl
  exact absurd (h.2 ' ' hc).1 (by decide)

lemma wordsOf_of_isWord {word : String} (h : IsWord word) : wordsOf word = [word] := by
  have hcut := Text.cut_append_of_forall h.ne_blank []
  have hne : word.toList ≠ [] := h.toList_ne_nil
  rw [List.append_nil] at hcut
  simp [wordsOf, Text.pieces, hcut, Text.cut, hne]

/-- The first blank of a phrase ends its first word. -/
lemma wordsOf_append {word : String} (h : IsWord word) (phrase : String) :
    wordsOf (word ++ " " ++ phrase) = word :: wordsOf phrase := by
  have hcut := Text.cut_append_of_forall h.ne_blank (' ' :: phrase.toList)
  have hlist : (word ++ " " ++ phrase).toList = word.toList ++ ' ' :: phrase.toList := by simp
  have hne : word.toList ≠ [] := h.toList_ne_nil
  rw [wordsOf, hlist, Text.pieces, hcut]
  simp [wordsOf, Text.pieces, Text.cut, hne]

/-- The words of a phrase are those that it is made of. -/
lemma wordsOf_intercalate {words : List String} (h : ∀ word ∈ words, IsWord word) :
    wordsOf (String.intercalate " " words) = words := by
  induction words with
  | nil => rfl
  | cons word words ih =>
      have hword : IsWord word := h word List.mem_cons_self
      have hrest := ih fun w hw => h w (List.mem_cons_of_mem word hw)
      cases words with
      | nil => simpa using wordsOf_of_isWord hword
      | cons next rest => rw [String.intercalate_cons_cons, wordsOf_append hword, hrest]

lemma isWord_of_mem_wordsOf {phrase : String} (h : IsPhrase phrase) :
    ∀ word ∈ wordsOf phrase, IsWord word := by
  obtain ⟨words, hwords, rfl⟩ := h
  rwa [wordsOf_intercalate hwords]

/-! ### Symbols of a message -/

lemma partSymbols_lexable {part : String} (h : IsPhrase part) :
    ∀ a ∈ partSymbols part, a.WellFormed ∧ a.isText = false := by
  intro a ha
  rcases List.mem_cons.mp ha with rfl | ha
  · exact ⟨trivial, rfl⟩
  · obtain ⟨word, hword, rfl⟩ := List.mem_map.mp ha
    exact ⟨isWord_of_mem_wordsOf h word hword, rfl⟩

lemma lexable_style {style : Option Style} (h : ∀ s ∈ style, s.WellFormed) :
    Lexable (styleSymbols style) := by
  apply lexable_of_forall
  match style with
  | none => simp [styleSymbols]
  | some (.single part) => exact partSymbols_lexable (h _ rfl)
  | some (.list parts) =>
      intro a ha
      obtain ⟨part, hpart, ha⟩ := List.mem_flatMap.mp ha
      exact partSymbols_lexable ((h _ rfl).2 part hpart) a ha

lemma toList_offsetWord (offset : Nat) :
    (offsetWord offset).toList = "offset:".toList ++ Number.digits offset :=
  String.toList_ofList

lemma isWord_offsetWord (offset : Nat) : IsWord (offsetWord offset) := by
  have hlist := toList_offsetWord offset
  refine ⟨fun hempty => ?_, fun c hc => ?_⟩
  · rw [hempty] at hlist
    exact absurd (List.append_eq_nil_iff.mp hlist.symm).1 (by decide)
  · rw [hlist] at hc
    rcases List.mem_append.mp hc with hc | hc
    · have hprefix : IsWord "offset:" := by decide
      exact hprefix.2 c hc
    · exact isWordChar_of_isDigit (Number.isDigit_of_mem_digits hc)

lemma isWord_pluralWord (kind : Kind) : IsWord (pluralWord kind) := by
  cases kind <;> decide

section Symbols

variable {σ : Type}

/-- Only literal text ends with literal text. -/
lemma Element.isText_getLast {e : Element σ} (h : e.isLiteral = false) :
    ∀ a ∈ e.symbols.getLast?, a.isText = false := by
  cases e with
  | literal => cases h
  | _ => simp [Element.symbols, List.getLast?_append, List.getLast?_cons, Symbol.isText]

/-- Only literal text starts with literal text. -/
lemma Element.isText_head {e : Element σ} (h : e.isLiteral = false) (rest : List Symbol) :
    ∀ a ∈ (e.symbols ++ rest).head?, a.isText = false := by
  cases e with
  | literal => cases h
  | _ => simp [Element.symbols, Symbol.isText]

/-- The symbols of neighbours can be told apart, as at most one of them is literal text. -/
lemma Lexable.element_append {e : Element σ} {es : List (Element σ)} (he : Lexable e.symbols)
    (hes : Lexable (Element.symbolsOfAll es)) (h : Separated (e :: es)) :
    Lexable (e.symbols ++ Element.symbolsOfAll es) := by
  refine he.append hes ?_
  by_cases hlit : e.isLiteral = true
  · right
    cases es with
    | nil => simp [Element.symbolsOfAll]
    | cons next rest =>
        have hnext := (List.isChain_cons_cons.mp h).1
        exact Element.isText_head (by simpa [hlit] using hnext) _
  · left
    exact Element.isText_getLast (by simpa using hlit)

mutual

/-- The symbols of a well-formed element can be told apart. -/
lemma lexable_element {inPlural : Bool} : ∀ {e : Element σ}, e.WellFormed inPlural →
    Lexable e.symbols
  | .literal value _, h => by
      cases h with
      | literal hvalue =>
          refine ⟨fun a ha => ?_, List.isChain_singleton _⟩
          obtain rfl := List.mem_singleton.mp ha
          exact hvalue
  | .argument name _, h => by
      cases h with
      | argument hname =>
          exact (lexable_nil.rightBrace.word hname).leftBrace
  | .call arg name style _, h => by
      cases h with
      | call harg hname _ hstyle =>
          have hblock := (lexable_style hstyle).append lexable_nil.rightBrace
            (.inr (by simp [Symbol.isText]))
          exact ((hblock.word hname).comma.word harg).leftBrace
  -- A block is put together from its end. Its own symbols are no literal text, so that anything may
  -- stand next to them.
  | .plural arg kind offset cases _, h => by
      have hbodies := h.isMessage_of_plural
      cases h with
      | plural harg _ _ _ hkeys _ _ =>
          have hblock := lexable_plural hkeys hbodies
          have hoffset := (hblock.word (isWord_offsetWord offset)).comma
          exact ((hoffset.word (isWord_pluralWord kind)).comma.word harg).leftBrace
  | .select arg cases _, h => by
      have hbodies := h.isMessage_of_select
      cases h with
      | select harg _ _ hkeys _ _ =>
          have hblock := lexable_select hkeys hbodies
          exact ((hblock.comma.word (by decide)).comma.word harg).leftBrace
  | .numberSign _, _ => lexable_nil.cons trivial rfl

/-- The symbols of a message can be told apart. -/
lemma lexable_message {inPlural : Bool} : ∀ {es : List (Element σ)}, IsMessage inPlural es →
    Lexable (Element.symbolsOfAll es)
  | [], _ => lexable_nil
  | e :: es, h =>
    have hes : IsMessage inPlural es :=
      ⟨h.separated.tail, fun d hd => h.wellFormed d (List.mem_cons_of_mem e hd)⟩
    (lexable_element (h.wellFormed e List.mem_cons_self)).element_append (lexable_message hes)
      h.separated

/-- The symbols of plural cases, up to the end of their block, can be told apart. -/
lemma lexable_plural {inPlural : Bool} : ∀ {cases : List (Case Key σ (Element σ))},
    (∀ c ∈ cases, c.key.WellFormed) → (∀ c ∈ cases, IsMessage inPlural c.body) →
      Lexable (Element.symbolsOfPlural cases ++ [.rightBrace])
  | [], _, _ => lexable_nil.rightBrace
  | ⟨key, body, _⟩ :: cases, hkeys, hbodies => by
      obtain ⟨hkey, hkeys⟩ := List.forall_mem_cons.mp hkeys
      obtain ⟨hbody, hbodies⟩ := List.forall_mem_cons.mp hbodies
      have hrest := (lexable_plural hkeys hbodies).rightBrace
      have hcase := (lexable_message hbody).append hrest (.inr (by simp [Symbol.isText]))
      simp only [Element.symbolsOfPlural, List.cons_append, List.append_assoc]
      exact hcase.leftBrace.word (Key.isWord_text hkey)

/-- The symbols of select cases, up to the end of their block, can be told apart. -/
lemma lexable_select {inPlural : Bool} : ∀ {cases : List (Case String σ (Element σ))},
    (∀ c ∈ cases, IsWord c.key) → (∀ c ∈ cases, IsMessage inPlural c.body) →
      Lexable (Element.symbolsOfSelect cases ++ [.rightBrace])
  | [], _, _ => lexable_nil.rightBrace
  | ⟨key, body, _⟩ :: cases, hkeys, hbodies => by
      obtain ⟨hkey, hkeys⟩ := List.forall_mem_cons.mp hkeys
      obtain ⟨hbody, hbodies⟩ := List.forall_mem_cons.mp hbodies
      have hrest := (lexable_select hkeys hbodies).rightBrace
      have hcase := (lexable_message hbody).append hrest (.inr (by simp [Symbol.isText]))
      simp only [Element.symbolsOfSelect, List.cons_append, List.append_assoc]
      exact hcase.leftBrace.word hkey

end

end Symbols

/-! ### The parser on symbols -/

/-- Whatever tokens have these symbols, they lead from a state to one with a property. -/
def State.Reads (s : State) (symbols : List Symbol) (post : State → Prop) : Prop :=
  ∀ tokens : List Token, tokens.map (·.symbol) = symbols →
    ∃ next, s.run tokens = .ok next ∧ post next

lemma State.run_append (s : State) (front rest : List Token) :
    s.run (front ++ rest) = s.run front >>= fun next => next.run rest := by
  induction front generalizing s with
  | nil => rfl
  | cons token front ih =>
      rw [List.cons_append, State.run, State.run]
      cases s.step token with
      | error e => rfl
      | ok next => exact ih next

namespace State.Reads

variable {s : State} {post mid : State → Prop}

lemma nil (h : post s) : s.Reads [] post := by
  intro tokens htokens
  obtain rfl := List.map_eq_nil_iff.mp htokens
  exact ⟨s, rfl, h⟩

/-- One symbol, wherever it stands, and those behind it. -/
lemma cons {symbol : Symbol} {rest : List Symbol}
    (h : ∀ span, ∃ next, s.step ⟨symbol, span⟩ = .ok next ∧ next.Reads rest post) :
    s.Reads (symbol :: rest) post := by
  intro tokens htokens
  obtain ⟨token, others, rfl, rfl, hothers⟩ := List.map_eq_cons_iff.mp htokens
  obtain ⟨next, hstep, hnext⟩ := h token.span
  obtain ⟨last, hrun, hlast⟩ := hnext others hothers
  exact ⟨last, by rw [State.run, hstep]; exact hrun, hlast⟩

lemma append {front rest : List Symbol} (hfront : s.Reads front mid)
    (hrest : ∀ next, mid next → next.Reads rest post) : s.Reads (front ++ rest) post := by
  intro tokens htokens
  obtain ⟨first, others, rfl, hfirst, hothers⟩ := List.map_eq_append_iff.mp htokens
  obtain ⟨next, hrun, hnext⟩ := hfront first hfirst
  obtain ⟨last, hrun', hlast⟩ := hrest next hnext others hothers
  exact ⟨last, by rw [State.run_append, hrun]; exact hrun', hlast⟩

lemma imp {symbols : List Symbol} (h : s.Reads symbols mid) (hpost : ∀ next, mid next → post next) :
    s.Reads symbols post := by
  intro tokens htokens
  obtain ⟨next, hrun, hnext⟩ := h tokens htokens
  exact ⟨next, hrun, hpost next hnext⟩

end State.Reads

/-! ### Styles -/

variable {elements : List (Element Span)} {outer : List OpenCase} {brace : Span}
  {arg name : String} {post : State → Prop}

lemma foldl_joinWord {front words : List String} (h : ∀ word ∈ front ++ words, IsWord word) :
    words.foldl joinWord (String.intercalate " " front) =
      String.intercalate " " (front ++ words) := by
  induction words generalizing front with
  | nil => rw [List.append_nil]; rfl
  | cons word words ih =>
      have hfront : ∀ w ∈ front, IsWord w := fun w hw => h w (List.mem_append_left _ hw)
      have hsplit : front ++ word :: words = front ++ [word] ++ words := by simp
      rw [hsplit] at h ⊢
      rw [List.foldl_cons, joinWord_intercalate hfront, ih h]

/-- The words of a phrase make it up again. -/
lemma foldl_joinWord_wordsOf {phrase : String} (h : IsPhrase phrase) :
    (wordsOf phrase).foldl joinWord "" = phrase := by
  obtain ⟨words, hwords, rfl⟩ := h
  rw [wordsOf_intercalate hwords]
  exact @foldl_joinWord [] words hwords

lemma reads_words {part : String} {parts words : List String} {rest : List Symbol}
    (h : State.Reads ⟨elements, .style brace arg name (words.foldl joinWord part) parts, outer⟩
      rest post) :
    State.Reads ⟨elements, .style brace arg name part parts, outer⟩ (words.map .word ++ rest)
      post := by
  induction words generalizing part with
  | nil => exact h
  | cons word words ih => exact .cons fun span => ⟨_, rfl, ih h⟩

/-- Parts of a style, each after its comma, pile up behind the parts so far. -/
lemma reads_parts {part : String} {parts more : List String} (hmore : ∀ p ∈ more, IsPhrase p)
    {rest : List Symbol}
    (h : ∀ last others, last :: others = more.reverse ++ part :: parts →
      State.Reads ⟨elements, .style brace arg name last others, outer⟩ rest post) :
    State.Reads ⟨elements, .style brace arg name part parts, outer⟩
      (more.flatMap partSymbols ++ rest) post := by
  induction more generalizing part parts with
  | nil => exact h part parts rfl
  | cons next more ih =>
      obtain ⟨hnext, hmore⟩ := List.forall_mem_cons.mp hmore
      rw [List.flatMap_cons, List.append_assoc]
      refine .cons fun span => ⟨_, rfl, reads_words ?_⟩
      rw [foldl_joinWord_wordsOf hnext]
      refine ih hmore fun last others hlast => h last others ?_
      rw [hlast, List.reverse_cons, List.append_assoc]
      rfl

/-- The parts of a style. -/
def partsOf : Style → List String
  | .single part => [part]
  | .list parts => parts

lemma styleSymbols_some (style : Style) :
    styleSymbols (some style) = (partsOf style).flatMap partSymbols := by
  cases style with
  | single part => simp [styleSymbols, partsOf]
  | list parts => rfl

/-- A style is made of its parts again: one part is not a list. -/
lemma styleOf_partsOf {style : Style} (hstyle : style.WellFormed) {last : String}
    {others : List String} (h : last :: others = (partsOf style).reverse) :
    styleOf last others = style := by
  cases style with
  | single part =>
      obtain ⟨rfl, rfl⟩ := List.cons.inj h
      rfl
  | list parts =>
      have hparts : parts = (last :: others).reverse := by
        rw [h, partsOf, List.reverse_reverse]
      cases others with
      | nil =>
          have hlength := hstyle.1
          rw [hparts] at hlength
          simp at hlength
      | cons second others =>
          rw [hparts]
          rfl

lemma exists_partsOf {style : Style} (h : style.WellFormed) :
    ∃ first more, partsOf style = first :: more ∧ ∀ p ∈ first :: more, IsPhrase p := by
  cases style with
  | single part =>
      refine ⟨part, [], rfl, fun p hp => ?_⟩
      obtain rfl := List.mem_singleton.mp hp
      exact h
  | list parts =>
      obtain ⟨hlength, hparts⟩ := h
      cases parts with
      | nil => simp at hlength
      | cons first more => exact ⟨first, more, rfl, hparts⟩

/-- A style, written after the name of a formatter. -/
lemma reads_style {style : Option Style} (hstyle : ∀ s ∈ style, s.WellFormed) :
    State.Reads ⟨elements, .call brace arg name, outer⟩ (styleSymbols style ++ [.rightBrace])
      fun next => ∃ span, next = ⟨.call arg name style span :: elements, .message, outer⟩ := by
  cases style with
  | none => exact .cons fun span => ⟨_, rfl, .nil ⟨_, rfl⟩⟩
  | some style =>
      have hstyle := hstyle style rfl
      obtain ⟨first, more, hparts, hphrases⟩ := exists_partsOf hstyle
      obtain ⟨hfirst, hmore⟩ := List.forall_mem_cons.mp hphrases
      rw [styleSymbols_some, hparts, List.flatMap_cons, List.append_assoc]
      refine .cons fun span => ⟨_, rfl, reads_words ?_⟩
      rw [foldl_joinWord_wordsOf hfirst]
      refine reads_parts hmore fun last others hlast => .cons fun span => ⟨_, rfl, .nil ?_⟩
      rw [styleOf_partsOf hstyle (by rw [hlast, hparts, List.reverse_cons])]
      exact ⟨_, rfl⟩

/-! ### Keys of cases -/

/-- A plural case as it is before its key is read. -/
def asWritten (case : Case Key Span (Element Span)) : Case String Span (Element Span) :=
  ⟨case.key.text, case.body, case.mark⟩

/-- Well-formed keys, no two of which are equal, pass the checks and are read back. -/
lemma pluralCases_asWritten {cases : List (Case Key Span (Element Span))}
    (hkeys : ∀ key ∈ cases.map (·.key), key.WellFormed) (hnodup : (cases.map (·.key)).Nodup) :
    pluralCases [] (cases.map asWritten) = .ok cases := by
  have hread : List.Forall₂ (ReadsAs Key.ofText?) (cases.map asWritten) cases :=
    List.forall₂_map_left_iff.mpr <| List.forall₂_same.mpr fun c hc =>
      ⟨(hkeys _ (List.mem_map_of_mem hc)).ofText?_text, rfl, rfl⟩
  have hshown : ((cases.map (·.key)).map Key.text).Nodup :=
    hnodup.map_on fun a ha b hb =>
      (Key.text_eq_iff (hkeys a ha).ofText?_text (hkeys b hb).ofText?_text).mp
  rw [List.map_map] at hshown
  rw [pluralCases_eq_readKeys, readKeys_eq_ok_iff]
  exact ⟨hread, hshown, by simp⟩

lemma keys_stripPluralCases {σ : Type} (cases : List (Case Key σ (Element σ))) :
    (Element.stripPluralCases cases).map (·.key) = cases.map (·.key) := by
  induction cases with
  | nil => rfl
  | cons c cases ih => rw [Element.stripPluralCases, List.map_cons, List.map_cons, ih]

lemma keys_stripSelectCases {σ : Type} (cases : List (Case String σ (Element σ))) :
    (Element.stripSelectCases cases).map (·.key) = cases.map (·.key) := by
  induction cases with
  | nil => rfl
  | cons c cases ih => rw [Element.stripSelectCases, List.map_cons, List.map_cons, ih]

/-- A plural with well-formed cases is closed without an error. -/
lemma close_plural {kind : Kind} {offset : Nat} {cases : List (Case Key Span (Element Span))}
    (hkeys : ∀ key ∈ cases.map (·.key), key.WellFormed) (hnodup : (cases.map (·.key)).Nodup)
    (hother : .label "other" ∈ cases.map (·.key)) (stop : Span) :
    Choice.close ⟨brace, arg, .plural kind offset, (cases.map asWritten).reverse⟩ stop =
      .ok (.plural arg kind offset cases (brace.merge stop)) := by
  have hread : pluralCases [] (cases.map asWritten) = .ok cases :=
    pluralCases_asWritten hkeys hnodup
  have hany : (cases.any fun c => c.key.isOther) = true := by
    obtain ⟨c, hc, hkey⟩ := List.mem_map.mp hother
    refine List.any_eq_true.mpr ⟨c, hc, ?_⟩
    rw [hkey]
    decide
  rw [Choice.close]
  simp only [List.reverse_reverse, hread]
  show (if (cases.any fun c => c.key.isOther) = true then _ else _) = _
  rw [if_pos hany]
  rfl

/-- A select with well-formed cases is closed without an error. -/
lemma close_select {cases : List (Case String Span (Element Span))}
    (hnodup : (cases.map (·.key)).Nodup) (hother : "other" ∈ cases.map (·.key)) (stop : Span) :
    Choice.close ⟨brace, arg, .select, cases.reverse⟩ stop =
      .ok (.select arg cases (brace.merge stop)) := by
  have hread : selectCases [] cases = .ok cases := selectCases_eq_ok_iff.mpr ⟨rfl, hnodup, by simp⟩
  have hany : (cases.any fun c => c.key == "other") = true := by
    obtain ⟨c, hc, hkey⟩ := List.mem_map.mp hother
    exact List.any_eq_true.mpr ⟨c, hc, by simpa using hkey⟩
  rw [Choice.close]
  simp only [List.reverse_reverse, hread]
  show (if (cases.any fun c => c.key == "other") = true then _ else _) = _
  rw [if_pos hany]
  rfl

/-! ### Blocks -/

/-- The word of a type that is not one of the statements announces a call. -/
lemma setType_of_not_mem {s : State} (h : name ∉ statementWords) :
    s.setType brace arg name = { s with place := .call brace arg name } := by
  simp only [statementWords, List.mem_cons, List.not_mem_nil, not_or] at h
  rw [State.setType]
  · exact h.1
  · exact h.2.1
  · exact h.2.2.1

/-- The word with an offset sets it. -/
lemma step_offsetWord {kind : Kind} {offset : Nat} (h : offset < 2 ^ 32) (span : Span) :
    State.step ⟨elements, .offset brace arg kind, outer⟩ ⟨.word (offsetWord offset), span⟩ =
      .ok ⟨elements, .cases ⟨brace, arg, .plural kind offset, []⟩, outer⟩ := by
  have hword : offsetWord? (offsetWord offset) = some (Number.digits offset) := by
    rw [offsetWord?, toList_offsetWord, if_pos (by simp)]
    rfl
  obtain ⟨c, cs, hdigits, _⟩ := Number.digits_eq_cons offset
  have hread := Number.uint32?_digits h
  rw [hdigits] at hword hread
  rw [State.step]
  simp only [hword, State.setOffset, hread]

/-! ### Elements -/

lemma isLiteral_strip (e : Element Span) : e.strip.isLiteral = e.isLiteral := by
  cases e <;> rfl

lemma stripAll_cons (e : Element Span) (es : List (Element Span)) :
    Element.stripAll (e :: es) = e.strip :: Element.stripAll es := rfl

/-- A body that is read inside its case: the elements say what has been written. -/
def ReadsBody (choice : Choice) (outer : List OpenCase) (body : List (Element Unit)) : Prop :=
  ∀ c : OpenCase, c.choice = choice →
    State.Reads ⟨[], .message, c :: outer⟩ (Element.symbolsOfAll body) fun next =>
      ∃ body', Element.stripAll body' = body ∧ next = ⟨body'.reverse, .message, c :: outer⟩

/-- A case is put to its statement at the end of its body. -/
lemma reads_case {choice : Choice} {key : String} {body : List (Element Unit)}
    (hbody : ReadsBody choice outer body) {rest : List Symbol}
    (h : ∀ body' span, Element.stripAll body' = body → State.Reads ⟨elements, .cases
      { choice with cases := ⟨key, body', span⟩ :: choice.cases }, outer⟩ rest post) :
    State.Reads ⟨elements, .cases choice, outer⟩
      (.word key :: .leftBrace :: (Element.symbolsOfAll body ++ .rightBrace :: rest)) post := by
  refine .cons fun span => ⟨_, rfl, .cons fun _ => ⟨_, rfl, ?_⟩⟩
  -- Between the braces the body is read as a message of its own.
  refine (hbody ⟨elements, choice, key, span⟩ rfl).append ?_
  rintro _ ⟨body', hbody', rfl⟩
  refine .cons fun stop => ⟨_, rfl, ?_⟩
  rw [List.reverse_reverse]
  exact h body' _ hbody'

mutual

/-- **An element is read back from its symbols**, behind whatever stands in front of it. Literal
text does not stand behind literal text. -/
theorem reads_element {inPlural : Bool} (elements : List (Element Span)) {outer : List OpenCase}
    (houter : (outer.any fun c => c.choice.isPlural) = inPlural) :
    ∀ {e : Element Unit}, e.WellFormed inPlural →
      (e.isLiteral = true → ∀ a ∈ elements.head?, a.isLiteral = false) →
      State.Reads ⟨elements, .message, outer⟩ e.symbols fun next =>
        ∃ e', e'.strip = e ∧ next = ⟨e' :: elements, .message, outer⟩
  -- Literal text would join a literal in front of it, of which there is none.
  | .literal value (), _, hfirst => by
      refine .cons fun span => ⟨_, rfl, .nil ⟨.literal value span, rfl, ?_⟩⟩
      cases elements with
      | nil => rfl
      | cons a rest =>
          have ha : a.isLiteral = false := hfirst rfl a rfl
          cases a with
          | literal => cases ha
          | _ => rfl
  | .argument name (), _, _ =>
    .cons fun _ => ⟨_, rfl, .cons fun _ => ⟨_, rfl, .cons fun _ => ⟨_, rfl, .nil ⟨_, rfl, rfl⟩⟩⟩⟩
  | .call arg name style (), h, _ => by
      cases h with
      | call _ _ hname hstyle =>
          refine .cons fun brace => ⟨_, rfl, .cons fun _ => ⟨_, rfl, .cons fun _ => ⟨_, rfl, ?_⟩⟩⟩
          refine .cons fun _ => ⟨_, congrArg _ (setType_of_not_mem hname), ?_⟩
          refine (reads_style hstyle).imp ?_
          rintro _ ⟨span, rfl⟩
          exact ⟨.call arg name style span, rfl, rfl⟩
  | .plural arg kind offset cases (), h, _ => by
      have hbodies := h.isMessage_of_plural
      cases h with
      | plural _ hoffset hnodup hother hkeys _ _ =>
          refine .cons fun brace => ⟨_, rfl, .cons fun _ => ⟨_, rfl, .cons fun _ => ⟨_, rfl, ?_⟩⟩⟩
          -- The offset is always written, also when it is zero, so that no key is taken for one.
          refine .cons fun _ => ⟨⟨elements, .plural brace arg kind, outer⟩, ?_, ?_⟩
          · cases kind <;> rfl
          refine .cons fun _ => ⟨_, rfl, .cons fun span => ⟨_, step_offsetWord hoffset span, ?_⟩⟩
          refine (reads_pluralCases rfl hbodies).append ?_
          rintro _ ⟨cases', rfl, rfl⟩
          -- What has been read differs from what was written in its spans only, and closing looks
          -- at keys.
          have hkeys' : ∀ key ∈ cases'.map (·.key), key.WellFormed := by
            rw [← keys_stripPluralCases]
            exact List.forall_mem_map.mpr hkeys
          rw [keys_stripPluralCases] at hnodup hother
          refine .cons fun stop => ⟨⟨.plural arg kind offset cases' (brace.merge stop) :: elements,
            .message, outer⟩, ?_, .nil ⟨_, rfl, rfl⟩⟩
          rw [List.append_nil]
          exact congrArg (Except.map _) (close_plural hkeys' hnodup hother stop)
  | .select arg cases (), h, _ => by
      have hbodies := h.isMessage_of_select
      cases h with
      | select _ hnodup hother _ _ _ =>
          refine .cons fun brace => ⟨_, rfl, .cons fun _ => ⟨_, rfl, .cons fun _ => ⟨_, rfl, ?_⟩⟩⟩
          refine .cons fun _ => ⟨_, rfl, .cons fun _ => ⟨_, rfl, ?_⟩⟩
          refine (reads_selectCases houter rfl hbodies).append ?_
          rintro _ ⟨cases', rfl, rfl⟩
          rw [keys_stripSelectCases] at hnodup hother
          refine .cons fun stop => ⟨⟨.select arg cases' (brace.merge stop) :: elements, .message,
            outer⟩, ?_, .nil ⟨_, rfl, rfl⟩⟩
          rw [List.append_nil]
          exact congrArg (Except.map _) (close_select hnodup hother stop)
  | .numberSign (), h, _ => by
      cases h with
      | numberSign =>
          refine .cons fun span => ⟨_, ?_, .nil ⟨.numberSign span, rfl, rfl⟩⟩
          rw [State.step, State.inMessage]
          simp only [State.inPlural, houter, if_true]
          rfl

/-- **Elements are read back from their symbols.** -/
theorem reads_elements {inPlural : Bool} (elements : List (Element Span)) {outer : List OpenCase}
    (houter : (outer.any fun c => c.choice.isPlural) = inPlural) :
    ∀ {es : List (Element Unit)}, IsMessage inPlural es →
      (∀ e ∈ es.head?, e.isLiteral = true → ∀ a ∈ elements.head?, a.isLiteral = false) →
      State.Reads ⟨elements, .message, outer⟩ (Element.symbolsOfAll es) fun next =>
        ∃ es', Element.stripAll es' = es ∧ next = ⟨es'.reverse ++ elements, .message, outer⟩
  | [], _, _ => .nil ⟨[], rfl, rfl⟩
  | e :: es, h, hfirst => by
      have hes : IsMessage inPlural es :=
        ⟨h.separated.tail, fun d hd => h.wellFormed d (List.mem_cons_of_mem e hd)⟩
      have he := reads_element elements houter (h.wellFormed e List.mem_cons_self) (hfirst e rfl)
      refine he.append ?_
      rintro _ ⟨e', rfl, rfl⟩
      -- Two literals never stand side by side in a message, so that the next one stays apart.
      have hnext : ∀ d ∈ es.head?, d.isLiteral = true →
          ∀ a ∈ (e' :: elements).head?, a.isLiteral = false := by
        intro d hd hlit a ha
        obtain rfl : e' = a := by simpa using ha
        have hneighbours := (List.isChain_cons.mp h.separated).1 d hd
        rw [isLiteral_strip] at hneighbours
        simpa [hlit] using hneighbours
      refine (reads_elements (e' :: elements) houter hes hnext).imp ?_
      rintro _ ⟨es', hes', rfl⟩
      refine ⟨e' :: es', ?_, ?_⟩
      · rw [stripAll_cons, hes']
      · rw [List.reverse_cons, List.append_assoc]
        rfl

/-- Plural cases are read back from their symbols. -/
theorem reads_pluralCases {elements : List (Element Span)} {outer : List OpenCase}
    {choice : Choice} (hchoice : choice.isPlural = true) :
    ∀ {cases : List (Case Key Unit (Element Unit))}, (∀ c ∈ cases, IsMessage true c.body) →
      State.Reads ⟨elements, .cases choice, outer⟩ (Element.symbolsOfPlural cases) fun next =>
        ∃ cases', Element.stripPluralCases cases' = cases ∧ next = ⟨elements, .cases { choice with
          cases := (cases'.map asWritten).reverse ++ choice.cases }, outer⟩
  | [], _ => .nil ⟨[], rfl, rfl⟩
  | ⟨key, body, ()⟩ :: cases, hbodies => by
      obtain ⟨hbody, hbodies⟩ := List.forall_mem_cons.mp hbodies
      refine reads_case (fun c hc => ?_) fun body' span hbody' => ?_
      · have hinside : ((c :: outer).any fun c => c.choice.isPlural) = true := by simp [hc, hchoice]
        simpa only [List.append_nil] using reads_elements [] hinside hbody (by simp)
      · have hnext : Choice.isPlural { choice with
            cases := ⟨key.text, body', span⟩ :: choice.cases } = true := hchoice
        refine (reads_pluralCases hnext hbodies).imp ?_
        rintro _ ⟨cases', hcases', rfl⟩
        refine ⟨⟨key, body', span⟩ :: cases', ?_, ?_⟩
        · rw [Element.stripPluralCases, hbody', hcases']
        · simp [asWritten]

/-- Select cases are read back from their symbols. -/
theorem reads_selectCases {inPlural : Bool} {elements : List (Element Span)}
    {outer : List OpenCase} (houter : (outer.any fun c => c.choice.isPlural) = inPlural)
    {choice : Choice} (hchoice : choice.isPlural = false) :
    ∀ {cases : List (Case String Unit (Element Unit))}, (∀ c ∈ cases, IsMessage inPlural c.body) →
      State.Reads ⟨elements, .cases choice, outer⟩ (Element.symbolsOfSelect cases) fun next =>
        ∃ cases', Element.stripSelectCases cases' = cases ∧ next = ⟨elements, .cases { choice with
          cases := cases'.reverse ++ choice.cases }, outer⟩
  | [], _ => .nil ⟨[], rfl, rfl⟩
  | ⟨key, body, ()⟩ :: cases, hbodies => by
      obtain ⟨hbody, hbodies⟩ := List.forall_mem_cons.mp hbodies
      refine reads_case (fun c hc => ?_) fun body' span hbody' => ?_
      · have hinside : ((c :: outer).any fun c => c.choice.isPlural) = inPlural := by
          simp [hc, hchoice, ← houter]
        simpa only [List.append_nil] using reads_elements [] hinside hbody (by simp)
      · have hnext : Choice.isPlural { choice with
            cases := ⟨key, body', span⟩ :: choice.cases } = false := hchoice
        refine (reads_selectCases houter hnext hbodies).imp ?_
        rintro _ ⟨cases', hcases', rfl⟩
        refine ⟨⟨key, body', span⟩ :: cases', ?_, ?_⟩
        · rw [Element.stripSelectCases, hbody', hcases']
        · simp

end

/-! ### Texts -/

/-- **Every well-formed pattern is recovered from its written form**: whichever text it is written
as, reading that text gives the same elements, but for their places. -/
theorem parse_of_written {es : List (Element Unit)} (h : IsMessage false es) {text : String}
    (hwritten : Written es text) : ∃ es', parse text = .ok es' ∧ Element.stripAll es' = es := by
  obtain ⟨tokens, hlex, hsymbols⟩ := lexFrom_of_spells hwritten (lexable_message h) .start
  obtain ⟨last, hrun, es', hes', rfl⟩ :=
    @reads_elements false [] [] rfl es h (by simp) tokens hsymbols
  have hparse : parseTokens tokens = .ok es' := by
    refine bind_eq_ok.mpr ⟨_, hrun, ?_⟩
    rw [State.finish, List.append_nil, List.reverse_reverse]
  exact ⟨es', bind_eq_ok.mpr ⟨tokens, hlex, hparse⟩, hes'⟩

/-- A plural behind literal text with a number sign in it is recovered from a text with blanks in
some places and none in others. -/
theorem parse_of_written_plural :
    let body : List (Element Unit) := [.numberSign (), .argument "g" ()]
    let es : List (Element Unit) :=
      [.literal "#" (), .plural "n" .ordinal 1 [⟨.label "other", body, ()⟩] ()]
    let text := "\\#{n ,selectordinal, offset:1 other {#{ g}}}"
    IsMessage false es ∧ Written es text ∧
      ∃ es', parse text = .ok es' ∧ Element.stripAll es' = es := by
  intro body es text
  have hbody : ∀ e ∈ body, e.WellFormed true := by
    intro e he
    rcases List.mem_cons.mp he with rfl | he
    · exact .numberSign
    · obtain rfl := List.mem_singleton.mp he
      exact .argument (by decide)
  have hes : IsMessage false es := by
    refine ⟨List.isChain_pair.mpr (by simp [Element.isLiteral]), fun e he => ?_⟩
    rcases List.mem_cons.mp he with rfl | he
    · exact .literal (by decide)
    · obtain rfl := List.mem_singleton.mp he
      have hkey : Key.WellFormed (.label "other") := ⟨by decide, by decide⟩
      exact .plural (by decide) (by decide) (by simp) (by simp) (by simpa using hkey)
        (by simp [Separated, body, Element.isLiteral]) (by simpa using hbody)
  have hwritten : Written es text := by
    have hchars : text.toList = escapeChars "#".toList ++ '{' :: ("n".toList ++ ' ' :: ',' ::
        ("selectordinal".toList ++ ',' :: ' ' :: ((offsetWord 1).toList ++ ' ' :: ("other".toList ++
          ' ' :: '{' :: '#' :: '{' :: ' ' :: ("g".toList ++ ['}', '}', '}']))))) := by
      decide
    rw [Written, hchars]
    have hbody : Spells 2 [.hash, .leftBrace, .word "g", .rightBrace, .rightBrace, .rightBrace]
        ('#' :: '{' :: ' ' :: ("g".toList ++ ['}', '}', '}'])) :=
      .hash rfl (.leftBrace (.blank rfl rfl (.word rfl (by decide) (.rightBrace (.rightBrace
        (.rightBrace .done))))))
    exact .text rfl (.leftBrace (.word rfl (by decide) (.blank rfl rfl (.comma rfl
      (.word rfl (by decide) (.comma rfl (.blank rfl rfl (.word rfl (fun _ => rfl) (.blank rfl rfl
        (.word rfl (by decide) (.blank rfl rfl (.leftBrace hbody))))))))))))
  exact ⟨hes, hwritten, parse_of_written hes hwritten⟩

end MessageCatalog.Pattern
