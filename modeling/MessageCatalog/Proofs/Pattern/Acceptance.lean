/-
Every text that is read as a pattern gives a well-formed message.

The rules of well-formed patterns are kept by parts of the reader that know nothing of each other:
the lexer makes words and literal text, the parser joins literal text and counts the plurals around
a place, and the keys of a statement are checked only when it is closed. One invariant holds all of
this together.

* `lex_wellFormed`: the words and the literal text among the tokens of a text are well-formed;
* `State.Sound`: the invariant of the parser, which covers the message that is being read, the place
  in it, and all open cases around it;
* `State.Sound.step`, `State.Sound.run`: the invariant along one token and along many;
* `isMessage_of_parse`: the elements of a text are a message.
-/
import MessageCatalog.Proofs.Pattern.Keys

namespace MessageCatalog.Pattern

open Formatting (Style)
open Plural (Key Kind)

/-! ### Tokens -/

/-- A symbol that the lexer can make: literal text is not empty, and a word is one. -/
def Symbol.WellFormed : Symbol → Prop
  | .text value => value ≠ ""
  | .word w => IsWord w
  | _ => True

/-- What a run of characters turns into inside so many open braces. -/
def runSymbol (depth : Nat) (text : String) : Symbol :=
  if isLiteral depth then .text text else .word text

/-- All symbols of some tokens are well-formed. -/
def AllWellFormed (tokens : List Token) : Prop :=
  ∀ token ∈ tokens, token.symbol.WellFormed

/-- What a run that may be empty turns into is well-formed. -/
def RunWellFormed (depth : Nat) (run : Option Run) : Prop :=
  ∀ r ∈ run, (runSymbol depth r.text).WellFormed

lemma push_ne_empty (text : String) (c : Char) : text.push c ≠ "" := by
  intro h
  have := congrArg String.toList h
  simp at this

/-- Literal text takes every character. -/
lemma RunWellFormed.push_text {depth : Nat} (hdepth : isLiteral depth = true) (run : Option Run)
    (here : Cursor) (c : Char) : RunWellFormed depth (some (Run.push run here c)) := by
  intro r hr
  obtain rfl := Option.some.inj hr
  rw [runSymbol, hdepth]
  cases run with
  | none => exact push_ne_empty "" c
  | some run => exact push_ne_empty run.text c

/-- A word takes every character that words may have. -/
lemma RunWellFormed.push_word {depth : Nat} (hdepth : isLiteral depth = false) {run : Option Run}
    (hrun : RunWellFormed depth run) (here : Cursor) {c : Char} (hc : IsWordChar c) :
    RunWellFormed depth (some (Run.push run here c)) := by
  intro r hr
  obtain rfl := Option.some.inj hr
  rw [runSymbol, hdepth]
  cases run with
  | none =>
      refine ⟨push_ne_empty "" c, ?_⟩
      simpa [Run.push] using hc
  | some run =>
      have hword := hrun run rfl
      rw [runSymbol, hdepth] at hword
      refine ⟨push_ne_empty run.text c, ?_⟩
      intro d hd
      simp only [Run.push, String.toList_push, List.mem_append, List.mem_singleton] at hd
      rcases hd with hd | rfl
      · exact hword.2 d hd
      · exact hc

/-- Ending a run keeps tokens well-formed. -/
lemma AllWellFormed.flush {depth : Nat} {run : Option Run} (hrun : RunWellFormed depth run)
    {rest : List Token} (hrest : AllWellFormed rest) (here : Cursor) :
    AllWellFormed (Run.flush depth run here rest) := by
  cases run with
  | none => exact hrest
  | some run =>
      intro token htoken
      rcases List.mem_cons.mp htoken with rfl | htoken
      · exact hrun run rfl
      · exact hrest token htoken

/-- Ending a run at a punctuation character keeps tokens well-formed. -/
lemma AllWellFormed.stop {depth : Nat} {run : Option Run} (hrun : RunWellFormed depth run)
    {symbol : Symbol} {here : Cursor} {rest : Except ParseError (List Token)}
    (hrest : ∀ tokens, rest = .ok tokens → AllWellFormed tokens) {tokens : List Token}
    (h : Run.stop depth run here symbol rest = .ok tokens) (hsymbol : symbol.WellFormed) :
    AllWellFormed tokens := by
  cases rest with
  | error e => cases h
  | ok others =>
      obtain rfl := Except.ok.inj h
      refine AllWellFormed.flush hrun (fun token htoken => ?_) here
      rcases List.mem_cons.mp htoken with rfl | htoken
      · exact hsymbol
      · exact hrest others rfl token htoken

lemma runWellFormed_none (depth : Nat) : RunWellFormed depth none := fun _ h => by cases h

/-- The lexer makes well-formed symbols from any place in a text on. -/
lemma lexFrom_wellFormed {depth : Nat} {run : Option Run} {here : Cursor} {cs : List Char}
    (hrun : RunWellFormed depth run) {tokens : List Token}
    (h : lexFrom depth run here cs = .ok tokens) : AllWellFormed tokens := by
  fun_induction lexFrom depth run here cs generalizing tokens with
  | case1 run here =>
      obtain rfl := Except.ok.inj h
      exact AllWellFormed.flush hrun (fun _ ht => by cases ht) here
  | case2 => cases h
  -- A brace, a number sign or a comma ends the run, and nothing is being read behind it.
  | case3 depth run here c cs next hc ih =>
      exact AllWellFormed.stop hrun (fun _ => ih (runWellFormed_none _)) h trivial
  | case4 => cases h
  | case5 run here c cs next _ hc outer ih =>
      exact AllWellFormed.stop hrun (fun _ => ih (runWellFormed_none _)) h trivial
  | case6 depth run here c cs next _ _ hlit hc ih =>
      exact AllWellFormed.stop hrun (fun _ => ih (runWellFormed_none _)) h trivial
  -- In literal text the run takes the character, or the character that is escaped.
  | case7 depth run here hlit e rest he next _ _ _ ih =>
      exact ih (RunWellFormed.push_text hlit run here e) h
  | case8 depth run here hlit e rest he next _ _ _ ih =>
      exact ih (RunWellFormed.push_text hlit run here '\\') h
  | case9 depth run here hlit c cs _ next _ _ _ ih =>
      exact ih (RunWellFormed.push_text hlit run here c) h
  | case10 depth run here c cs next _ _ hlit hc ih =>
      exact AllWellFormed.stop hrun (fun _ => ih (runWellFormed_none _)) h trivial
  | case11 depth run here c cs next _ _ hlit _ hspace ih =>
      cases hrest : lexFrom depth none next cs with
      | error e => rw [hrest] at h; cases h
      | ok others =>
          rw [hrest] at h
          obtain rfl := Except.ok.inj h
          exact AllWellFormed.flush hrun (ih (runWellFormed_none _) hrest) here
  -- A character that gets here is none of those that words may not have.
  | case12 depth run here c cs next hopen hclose hlit hcomma hspace ih =>
      have hc : IsWordChar c := by
        simp only [beq_iff_eq, Bool.not_eq_true] at hopen hclose hcomma hspace
        exact ⟨hspace, hcomma, hopen, hclose⟩
      exact ih (hrun.push_word (by simpa using hlit) here hc) h

/-- The words and the literal text among the tokens of a text are well-formed. -/
theorem lex_wellFormed {text : String} {tokens : List Token} (h : lex text = .ok tokens) :
    AllWellFormed tokens :=
  lexFrom_wellFormed (runWellFormed_none 0) h

/-! ### Keys and styles -/

/-- A word that is read as a plural key is a well-formed one. -/
lemma Key.wellFormed_of_ofText? {text : String} (htext : IsWord text) {key : Key}
    (h : Key.ofText? text = some key) : key.WellFormed := by
  cases Key.ofText?_eq_some_iff.mp h with
  | exact hrange _ => exact hrange
  | label _ hequals => exact ⟨htext, hequals⟩

lemma isPhrase_empty : IsPhrase "" := ⟨[], by simp, rfl⟩

lemma intercalate_concat {words : List String} (hne : words ≠ []) (word : String) :
    String.intercalate " " (words ++ [word]) = String.intercalate " " words ++ " " ++ word := by
  induction words with
  | nil => exact absurd rfl hne
  | cons first rest ih =>
      cases rest with
      | nil => simp
      | cons second rest =>
          have h := ih (by simp)
          rw [List.cons_append] at h
          simp only [List.cons_append, String.intercalate_cons_cons, h, String.append_assoc]

lemma intercalate_ne_empty {words : List String} (hne : words ≠ [])
    (hwords : ∀ word ∈ words, IsWord word) : String.intercalate " " words ≠ "" := by
  obtain ⟨first, rest, rfl⟩ := List.exists_cons_of_ne_nil hne
  have hfirst : first ≠ "" := (hwords first (by simp)).1
  cases rest with
  | nil => simpa using hfirst
  | cons second rest =>
      rw [String.intercalate_cons_cons]
      intro h
      have hlist := congrArg String.toList h
      simp at hlist

/-- The words of a part so far and one more. -/
lemma joinWord_intercalate {words : List String} (hwords : ∀ word ∈ words, IsWord word)
    (word : String) :
    joinWord (String.intercalate " " words) word = String.intercalate " " (words ++ [word]) := by
  by_cases hne : words = []
  · subst hne
    simp [joinWord]
  · have hempty := intercalate_ne_empty hne hwords
    rw [intercalate_concat hne, joinWord, if_neg]
    simpa [String.isEmpty_iff] using hempty

/-- A phrase takes one more word. -/
lemma IsPhrase.joinWord {part word : String} (hpart : IsPhrase part) (hword : IsWord word) :
    IsPhrase (joinWord part word) := by
  obtain ⟨words, hwords, rfl⟩ := hpart
  refine ⟨words ++ [word], ?_, joinWord_intercalate hwords word⟩
  intro w hw
  rcases List.mem_append.mp hw with hw | hw
  · exact hwords w hw
  · rwa [List.mem_singleton.mp hw]

/-- The phrases of a call, the last one first, spell a well-formed style. -/
lemma styleOf_wellFormed {part : String} {parts : List String} (hpart : IsPhrase part)
    (hparts : ∀ p ∈ parts, IsPhrase p) : (styleOf part parts).WellFormed := by
  cases parts with
  | nil => exact hpart
  | cons last parts =>
      refine ⟨by simp [List.length_reverse], fun p hp => ?_⟩
      rcases List.mem_cons.mp (List.mem_reverse.mp hp) with rfl | hp
      · exact hpart
      · exact hparts p hp

/-! ### Statements -/

/-- The cases that a statement may have got: each key is a word, and each body is a message, with a
plural around it if the statement is one. -/
structure Choice.Sound (inPlural : Bool) (choice : Choice) : Prop where
  arg : IsWord choice.arg
  offset : ∀ kind offset, choice.selector = .plural kind offset → offset < 2 ^ 32
  keys : ∀ c ∈ choice.cases, IsWord c.key
  bodies : ∀ c ∈ choice.cases, IsMessage (choice.isPlural || inPlural) c.body

/-- Reading the keys of plural cases keeps their bodies, and gives different keys to the cases. -/
lemma pluralCases_sound {written : List (Case String Span (Element Span))}
    {cases : List (Case Key Span (Element Span))} (hkeys : ∀ c ∈ written, IsWord c.key)
    (hbodies : ∀ c ∈ written, IsMessage true c.body) (h : pluralCases [] written = .ok cases) :
    (cases.map (·.key)).Nodup ∧ (∀ c ∈ cases, c.key.WellFormed) ∧
      ∀ c ∈ cases, IsMessage true c.body := by
  rw [pluralCases_eq_readKeys] at h
  obtain ⟨hread, hnodup, -⟩ := readKeys_eq_ok_iff.mp h
  refine ⟨.of_map Key.text (by rwa [List.map_map]), ?_, ?_⟩
  · exact forall_of_readsAs hread hkeys fun _ _ hc hword => Key.wellFormed_of_ofText? hword hc.key
  · exact forall_of_readsAs hread hbodies fun _ _ hc hbody => hc.body ▸ hbody

/-- A statement that is closed without an error is well-formed. -/
lemma Choice.Sound.close {inPlural : Bool} {choice : Choice} (hchoice : choice.Sound inPlural)
    {brace : Span} {e : Element Span} (h : choice.close brace = .ok e) :
    e.WellFormed inPlural ∧ e.isLiteral = false := by
  have hkeys : ∀ c ∈ choice.cases.reverse, IsWord c.key :=
    fun c hc => hchoice.keys c (List.mem_reverse.mp hc)
  have hbodies : ∀ c ∈ choice.cases.reverse, IsMessage (choice.isPlural || inPlural) c.body :=
    fun c hc => hchoice.bodies c (List.mem_reverse.mp hc)
  -- Whether number signs have a meaning in the bodies depends on the selector, and so does how the
  -- keys are read.
  simp only [Choice.close, Choice.isPlural] at h hbodies
  cases hselector : choice.selector with
  | plural kind offset =>
      simp only [hselector, Bool.true_or] at h hbodies
      cases hcases : pluralCases [] choice.cases.reverse with
      | error err => rw [hcases] at h; cases h
      | ok cases =>
          simp only [hcases, bind, Except.bind] at h
          split at h
          · rename_i hother
            obtain rfl := Except.ok.inj h
            obtain ⟨hdistinct, hwell, hbody⟩ := pluralCases_sound hkeys hbodies hcases
            have hmem : Key.label "other" ∈ cases.map (·.key) := by
              obtain ⟨c, hc, hkey⟩ := List.any_eq_true.mp hother
              refine List.mem_map.mpr ⟨c, hc, ?_⟩
              cases hk : c.key with
              | exact number => rw [hk] at hkey; cases hkey
              | label text => rw [hk] at hkey; rw [eq_of_beq hkey]
            exact ⟨.plural hchoice.arg (hchoice.offset kind offset hselector) hdistinct hmem hwell
              (fun c hc => (hbody c hc).separated) (fun c hc => (hbody c hc).wellFormed), rfl⟩
          · cases h
  | select =>
      simp only [hselector, Bool.false_or] at h hbodies
      cases hcases : selectCases [] choice.cases.reverse with
      | error err => rw [hcases] at h; cases h
      | ok cases =>
          simp only [hcases, bind, Except.bind] at h
          split at h
          · rename_i hother
            obtain rfl := Except.ok.inj h
            obtain ⟨rfl, hnodup, -⟩ := selectCases_eq_ok_iff.mp hcases
            have hmem : "other" ∈ choice.cases.reverse.map (·.key) := by
              obtain ⟨c, hc, hkey⟩ := List.any_eq_true.mp hother
              exact List.mem_map.mpr ⟨c, hc, eq_of_beq hkey⟩
            exact ⟨.select hchoice.arg hnodup hmem hkeys (fun c hc => (hbodies c hc).separated)
              (fun c hc => (hbodies c hc).wellFormed), rfl⟩
          · cases h

/-! ### The invariant -/

/-- What holds in a place inside a message or a block: words and phrases read so far are such, and
the cases of an open statement are sound. -/
def Place.Sound (inPlural : Bool) : Place → Prop
  | .message | .name _ => True
  | .named _ arg | .type _ arg | .plural _ arg _ | .offset _ arg _ | .offsetNumber _ arg _ _
  | .select _ arg => IsWord arg
  | .call _ arg formatter => IsWord arg ∧ IsWord formatter ∧ formatter ∉ statementWords
  | .style _ arg formatter part parts =>
    IsWord arg ∧ IsWord formatter ∧ formatter ∉ statementWords ∧ IsPhrase part ∧
      ∀ p ∈ parts, IsPhrase p
  | .cases choice => choice.Sound inPlural
  | .body choice key _ => choice.Sound inPlural ∧ IsWord key

/-- What holds of the open cases around a place. Each has in front of it a message of its own, in
which number signs have the meaning that the cases further out give them. -/
def OuterSound : List OpenCase → Prop
  | [] => True
  | c :: outer =>
    let inPlural := outer.any (·.choice.isPlural)
    IsMessage inPlural c.before ∧ c.choice.Sound inPlural ∧ IsWord c.key ∧ OuterSound outer

/-- **The invariant of the parser**. -/
structure State.Sound (s : State) : Prop where
  elements : IsMessage s.inPlural s.elements
  place : s.place.Sound s.inPlural
  outer : OuterSound s.outer

lemma State.sound_start : State.start.Sound := ⟨isMessage_nil _, trivial, trivial⟩

/-- A state may move to any place in which the right things hold. -/
lemma State.Sound.move {s : State} (hs : s.Sound) {place : Place}
    (hplace : place.Sound s.inPlural) : ({ s with place } : State).Sound :=
  ⟨hs.elements, hplace, hs.outer⟩

/-- Literal text joins literal text, so that none of it gets a neighbour. -/
lemma IsMessage.pushLiteral {inPlural : Bool} {es : List (Element Span)}
    (h : IsMessage inPlural es) {value : String} (hvalue : value ≠ "") (span : Span) :
    IsMessage inPlural (pushLiteral value span es) := by
  rw [Pattern.pushLiteral.eq_def]
  split
  -- Behind literal text the two become one, in the place of the first.
  · rename_i before place rest
    obtain ⟨hhead, hrest⟩ := List.isChain_cons.mp h.separated
    refine ⟨List.isChain_cons.mpr ⟨hhead, hrest⟩, List.forall_mem_cons.mpr ⟨?_, ?_⟩⟩
    · refine .literal fun hempty => hvalue ?_
      have hlist := congrArg String.toList hempty
      simp only [String.toList_append, String.toList_empty, List.append_eq_nil_iff] at hlist
      exact String.toList_eq_nil_iff.mp hlist.2
    · exact fun e he => h.wellFormed e (List.mem_cons_of_mem _ he)
  -- Behind anything else the literal is a new element, and its neighbour is no literal.
  · rename_i hne
    refine ⟨List.isChain_cons.mpr ⟨fun b hb hlit => ?_, h.separated⟩,
      List.forall_mem_cons.mpr ⟨.literal hvalue, h.wellFormed⟩⟩
    obtain ⟨rest, hrest⟩ := List.head?_eq_some_iff.mp hb
    cases b with
    | literal before place => exact hne before place rest hrest
    | _ => cases hlit.2

lemma State.Sound.pushLiteral {s : State} (hs : s.Sound) {value : String} (hvalue : value ≠ "")
    (span : Span) :
    ({ s with elements := Pattern.pushLiteral value span s.elements } : State).Sound :=
  ⟨hs.elements.pushLiteral hvalue span, hs.place, hs.outer⟩

/-- An element that is not literal text goes behind the others. -/
lemma State.Sound.push {s : State} (hs : s.Sound) {e : Element Span}
    (he : e.WellFormed s.inPlural) (hlit : e.isLiteral = false) : (s.push e).Sound :=
  ⟨hs.elements.cons he hlit, trivial, hs.outer⟩

/-! ### Steps -/

lemma State.Sound.inMessage {s s' : State} (hs : s.Sound) {token : Token}
    (htoken : token.symbol.WellFormed) (h : s.inMessage token = .ok s') : s'.Sound := by
  rw [State.inMessage] at h
  split at h
  · rename_i value hvalue
    obtain rfl := Except.ok.inj h
    rw [hvalue] at htoken
    exact hs.pushLiteral htoken _
  · split at h
    · rename_i hplural
      obtain rfl := Except.ok.inj h
      exact hs.push (hplural ▸ .numberSign) rfl
    · obtain rfl := Except.ok.inj h
      exact hs.pushLiteral (by simp) _
  · obtain rfl := Except.ok.inj h
    exact hs.move trivial
  · split at h
    · cases h
    -- At the end of a case the message becomes its body. What it was read under is what the bodies
    -- of its statement are to be read under.
    · rename_i c outer houter
      obtain rfl := Except.ok.inj h
      have hbody := hs.elements
      have hall := hs.outer
      rw [houter] at hall
      rw [State.inPlural, houter, List.any_cons] at hbody
      obtain ⟨hbefore, hchoice, hkey, hrest⟩ := hall
      refine ⟨hbefore, ⟨hchoice.arg, hchoice.offset, ?_, ?_⟩, hrest⟩
      · exact List.forall_mem_cons.mpr ⟨hkey, hchoice.keys⟩
      · exact List.forall_mem_cons.mpr ⟨hbody.reverse, hchoice.bodies⟩
  · cases h

lemma State.Sound.inCases {s s' : State} (hs : s.Sound) {choice : Choice}
    (hchoice : choice.Sound s.inPlural) {token : Token} (htoken : token.symbol.WellFormed)
    (h : s.inCases choice token = .ok s') : s'.Sound := by
  rw [State.inCases] at h
  split at h
  · cases hclose : choice.close token.span with
    | error e => rw [hclose] at h; cases h
    | ok e =>
        rw [hclose] at h
        obtain rfl := Except.ok.inj h
        obtain ⟨he, hlit⟩ := hchoice.close hclose
        exact hs.push he hlit
  · rename_i key hkey
    obtain rfl := Except.ok.inj h
    rw [hkey] at htoken
    exact hs.move ⟨hchoice, htoken⟩
  · cases h

/-- A statement without cases. -/
lemma Choice.sound_nil {inPlural : Bool} {arg : String} (harg : IsWord arg) (brace : Span)
    {selector : Selector}
    (hoffset : ∀ kind offset, selector = .plural kind offset → offset < 2 ^ 32) :
    (Choice.mk brace arg selector []).Sound inPlural :=
  ⟨harg, hoffset, by simp, by simp⟩

lemma State.Sound.setOffset {s s' : State} (hs : s.Sound) {brace : Span} {arg : String}
    (harg : IsWord arg) {kind : Kind} {number : List Char} {word : Span}
    (h : s.setOffset brace arg kind number word = .ok s') : s'.Sound := by
  rw [State.setOffset] at h
  split at h
  · rename_i offset hoffset
    obtain rfl := Except.ok.inj h
    have hlt := (Option.filter_eq_some_iff.mp hoffset).2
    refine hs.move (Choice.sound_nil harg brace fun kind' offset' heq => ?_)
    cases heq
    exact of_decide_eq_true hlt
  · cases h

lemma State.Sound.setType {s : State} (hs : s.Sound) {arg : String} (harg : IsWord arg)
    {name : String} (hname : IsWord name) (brace : Span) : (s.setType brace arg name).Sound := by
  unfold State.setType
  split
  · exact hs.move harg
  · exact hs.move harg
  · exact hs.move harg
  · rename_i h₁ h₂ h₃
    have hne : name ∉ statementWords := by
      simp only [statementWords, List.mem_cons, List.not_mem_nil, or_false]
      rintro (h | h | h)
      · exact h₁ h
      · exact h₂ h
      · exact h₃ h
    exact hs.move ⟨harg, hname, hne⟩

/-- **A step keeps the invariant.** -/
theorem State.Sound.step {s s' : State} (hs : s.Sound) {token : Token}
    (htoken : token.symbol.WellFormed) (h : s.step token = .ok s') : s'.Sound := by
  have hplace := hs.place
  rw [State.step] at h
  -- One case for each place: what it holds of its words goes to the next place or into an element.
  cases hp : s.place with
  | message => exact hs.inMessage htoken (by simpa only [hp] using h)
  | name brace =>
      simp only [hp] at h
      split at h
      · rename_i arg harg
        obtain rfl := Except.ok.inj h
        rw [harg] at htoken
        exact hs.move htoken
      · cases h
  | named brace arg =>
      simp only [hp, Place.Sound] at h hplace
      split at h
      · obtain rfl := Except.ok.inj h
        exact hs.push (.argument hplace) rfl
      · obtain rfl := Except.ok.inj h
        exact hs.move hplace
      · cases h
  | type brace arg =>
      simp only [hp, Place.Sound] at h hplace
      split at h
      · rename_i name hname
        obtain rfl := Except.ok.inj h
        rw [hname] at htoken
        exact hs.setType hplace htoken brace
      · cases h
  -- A call ends without a style, or goes on to one whose first part is still empty.
  | call brace arg name =>
      simp only [hp, Place.Sound] at h hplace
      obtain ⟨harg, hname, htype⟩ := hplace
      split at h
      · obtain rfl := Except.ok.inj h
        exact hs.push (.call harg hname htype (by simp)) rfl
      · obtain rfl := Except.ok.inj h
        exact hs.move ⟨harg, hname, htype, isPhrase_empty, by simp⟩
      · cases h
  -- A style grows by words, and its parts by commas.
  | style brace arg name part parts =>
      simp only [hp, Place.Sound] at h hplace
      obtain ⟨harg, hname, htype, hpart, hparts⟩ := hplace
      split at h
      · obtain rfl := Except.ok.inj h
        exact hs.push (.call harg hname htype (by simpa using styleOf_wellFormed hpart hparts)) rfl
      · obtain rfl := Except.ok.inj h
        exact hs.move ⟨harg, hname, htype, isPhrase_empty, List.forall_mem_cons.mpr ⟨hpart, hparts⟩⟩
      · rename_i word hword
        obtain rfl := Except.ok.inj h
        rw [hword] at htoken
        exact hs.move ⟨harg, hname, htype, hpart.joinWord htoken, hparts⟩
      · cases h
  | plural brace arg kind =>
      simp only [hp, Place.Sound] at h hplace
      split at h
      · obtain rfl := Except.ok.inj h
        exact hs.move hplace
      · cases h
  -- A token that is no offset belongs to the cases already, and then the offset is zero.
  | offset brace arg kind =>
      simp only [hp, Place.Sound] at h hplace
      have hunshifted : (Choice.mk brace arg (.plural kind 0) []).Sound s.inPlural :=
        Choice.sound_nil hplace brace fun kind' offset' heq => by cases heq; norm_num
      split at h
      · split at h
        · exact hs.inCases hunshifted htoken h
        · obtain rfl := Except.ok.inj h
          exact hs.move hplace
        · exact hs.setOffset hplace h
      · exact hs.inCases hunshifted htoken h
  | offsetNumber brace arg kind word =>
      simp only [hp, Place.Sound] at h hplace
      split at h
      · exact hs.setOffset hplace h
      · cases h
  | select brace arg =>
      simp only [hp, Place.Sound] at h hplace
      split at h
      · obtain rfl := Except.ok.inj h
        exact hs.move (Choice.sound_nil hplace brace fun _ _ heq => by cases heq)
      · cases h
  | cases choice =>
      simp only [hp, Place.Sound] at h hplace
      exact hs.inCases hplace htoken h
  -- The elements so far are put aside with the case, and a new message starts inside it.
  | body choice key span =>
      simp only [hp, Place.Sound] at h hplace
      split at h
      · obtain rfl := Except.ok.inj h
        exact ⟨isMessage_nil _, trivial, hs.elements, hplace.1, hplace.2, hs.outer⟩
      · cases h

/-- **A run keeps the invariant**, as every step does. -/
theorem State.Sound.run {s s' : State} (hs : s.Sound) {tokens : List Token}
    (htokens : AllWellFormed tokens) (h : s.run tokens = .ok s') : s'.Sound := by
  induction tokens generalizing s with
  | nil =>
      obtain rfl := Except.ok.inj h
      exact hs
  | cons token rest ih =>
      rw [State.run] at h
      split at h
      · rename_i next hnext
        exact ih (hs.step (htokens token List.mem_cons_self) hnext)
          (fun t ht => htokens t (List.mem_cons_of_mem _ ht)) h
      · cases h

/-! ### Texts -/

/-- At the end of the tokens no case is open, so that number signs have lost their meaning. -/
lemma State.Sound.finish {s : State} (hs : s.Sound) {stop : Span} {es : List (Element Span)}
    (h : s.finish stop = .ok es) : IsMessage false es := by
  rw [State.finish] at h
  split at h
  · rename_i hplace houter
    obtain rfl := Except.ok.inj h
    have hbody := hs.elements
    rw [State.inPlural, houter] at hbody
    exact hbody.reverse
  · cases h

/-- A text is read by way of its tokens. -/
lemma tokens_of_parse {text : String} {es : List (Element Span)} (h : parse text = .ok es) :
    ∃ tokens, lex text = .ok tokens ∧ parseTokens tokens = .ok es := by
  rw [parse] at h
  cases hlex : lex text with
  | error e => rw [hlex] at h; cases h
  | ok tokens =>
      rw [hlex] at h
      exact ⟨tokens, rfl, h⟩

/-- Whatever well-formed tokens are read without an error, their elements are a message. -/
lemma isMessage_of_parseTokens {tokens : List Token} (htokens : AllWellFormed tokens)
    {es : List (Element Span)} (h : parseTokens tokens = .ok es) : IsMessage false es := by
  rw [parseTokens] at h
  cases hrun : State.start.run tokens with
  | error e => rw [hrun] at h; cases h
  | ok s =>
      rw [hrun] at h
      exact (State.sound_start.run htokens hrun).finish h

/-- **Every accepted text is a well-formed pattern**: whatever text is read without an error, its
elements keep all rules at every depth. -/
theorem isMessage_of_parse {text : String} {es : List (Element Span)}
    (h : parse text = .ok es) : IsMessage false es := by
  obtain ⟨tokens, hlex, hparse⟩ := tokens_of_parse h
  exact isMessage_of_parseTokens (lex_wellFormed hlex) hparse

/-- The rules hold of a text with an offset, a key with a superfluous sign and zero, a choice inside
a case, an escape, and a style with an empty part. -/
theorem isMessage_of_parse_nested : ∃ es,
    parse "\\#{n, plural, offset:1 =+01{one} other{{g, select, other{##}} {d, date, a b,}}}" =
        .ok es ∧
      IsMessage false es := by
  have hok : (parse
      "\\#{n, plural, offset:1 =+01{one} other{{g, select, other{##}} {d, date, a b,}}}").isOk =
        true := by
    decide +kernel
  cases h : parse
      "\\#{n, plural, offset:1 =+01{one} other{{g, select, other{##}} {d, date, a b,}}}" with
  | error e => rw [h] at hok; cases hok
  | ok es => exact ⟨es, rfl, isMessage_of_parse h⟩

end MessageCatalog.Pattern
