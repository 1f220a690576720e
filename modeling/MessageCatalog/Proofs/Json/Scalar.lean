/-
Written scalars are read as their tokens.

* `Spells`: a text that is read as some tokens, whatever comes after it;
* `Stops`: what may come directly after a word;
* `spells_quoted`: a string in quotes is read as this string;
* `spells_word`: a row of word characters is read as the token that it is;
* `ofWord?_natural`, `ofWord?_realText`: numbers are read as themselves.
-/
import MessageCatalog.Json.Printer
import MessageCatalog.Json.Token
import MessageCatalog.Proofs.Number.Layout

namespace MessageCatalog.Json

/-! ### Texts and their tokens -/

/-- A word ends at the end of the text, at a blank and at a punctuation character. -/
def Stops (cs : List Char) : Prop :=
  ∀ c ∈ cs.head?, isSpace c = true ∨ (punctuation? c).isSome = true

/-- A text that is read as some tokens, whatever comes after it. -/
def Spells (cs : List Char) (tokens : List Token) : Prop :=
  ∀ rest, Stops rest → lex (cs ++ rest) = (lex rest).map (tokens ++ ·)

lemma stops_nil : Stops [] :=
  fun _ h => nomatch h

lemma stops_cons {c : Char} {cs : List Char}
    (h : isSpace c = true ∨ (punctuation? c).isSome = true) : Stops (c :: cs) := by
  intro d hd
  obtain rfl := Option.some.inj hd
  exact h

lemma Stops.append {cs rest : List Char} (h : Stops cs) (hrest : Stops rest) :
    Stops (cs ++ rest) := by
  cases cs with
  | nil => exact hrest
  | cons c cs => exact stops_cons (h c rfl)

lemma spells_nil : Spells [] [] := by
  intro rest _
  show lex rest = (lex rest).map id
  rw [Option.map_id, id]

/-- Texts one after the other are read as their tokens one after the other. -/
lemma Spells.append {cs ds : List Char} {ts us : List Token} (h : Spells cs ts)
    (hds : Spells ds us) (hstops : Stops ds) : Spells (cs ++ ds) (ts ++ us) := by
  intro rest hrest
  rw [List.append_assoc, h _ (hstops.append hrest), hds rest hrest, Option.map_map]
  congr 1
  funext tokens
  exact (List.append_assoc ts us tokens).symm

lemma Spells.space {c : Char} (h : isSpace c = true) {cs : List Char} {ts : List Token}
    (hcs : Spells cs ts) : Spells (c :: cs) ts := by
  intro rest hrest
  rw [List.cons_append, lex, if_pos h, hcs rest hrest]

lemma Spells.spaces {blanks : List Char} (h : ∀ c ∈ blanks, isSpace c = true) {cs : List Char}
    {ts : List Token} (hcs : Spells cs ts) : Spells (blanks ++ cs) ts := by
  induction blanks with
  | nil => exact hcs
  | cons c blanks ih =>
      have hrest := ih fun d hd => h d (List.mem_cons_of_mem c hd)
      exact hrest.space (h c List.mem_cons_self)

/-- A punctuation character is neither a blank nor part of a string or a word. -/
lemma classes_of_punctuation {c : Char} {token : Token} (h : punctuation? c = some token) :
    isSpace c = false ∧ c ≠ '"' ∧ isWordChar c = false := by
  rw [punctuation?.eq_def] at h
  split at h
  case h_7 => cases h
  all_goals exact ⟨by decide, by decide, by decide⟩

lemma lex_punctuation {c : Char} {token : Token} (h : punctuation? c = some token)
    (cs : List Char) : lex (c :: cs) = (lex cs).map (token :: ·) := by
  obtain ⟨hspace, hquote, hword⟩ := classes_of_punctuation h
  rw [lex, hspace, hword, h]
  simp [hquote]

lemma Spells.punctuation {c : Char} {token : Token} (h : punctuation? c = some token)
    {cs : List Char} {ts : List Token} (hcs : Spells cs ts) : Spells (c :: cs) (token :: ts) := by
  intro rest hrest
  rw [List.cons_append, lex_punctuation h, hcs rest hrest, Option.map_map]
  rfl

/-! ### Strings -/

/-- What a character is written as in a string is read as this character. -/
lemma lexText_escapeChar (text : String) (c : Char) (rest : List Char) :
    lexText (some ⟨text, none⟩) (escapeChar c ++ rest) =
      lexText (some ⟨text.push c, none⟩) rest := by
  rw [escapeChar]
  split_ifs with hquote hslash hback hfeed hline hreturn htab hcontrol
  · rw [eq_of_beq hquote]
    rfl
  · rw [eq_of_beq hslash]
    rfl
  · rw [eq_of_beq hback]
    rfl
  · rw [eq_of_beq hfeed]
    rfl
  · rw [eq_of_beq hline]
    rfl
  · rw [eq_of_beq hreturn]
    rfl
  · rw [eq_of_beq htab]
    rfl
  -- A control character is written by its number, which is far below those of surrogates.
  · have hlow : c.toNat % 16 < 16 := Nat.mod_lt _ (by decide)
    have hunit : codeUnit? '0' '0' (Text.hexChar (c.toNat / 16)) (Text.hexChar (c.toNat % 16)) =
        some c.toNat := by
      have hzero : Text.hexDigit? '0' = some 0 := by decide
      simp only [codeUnit?, Text.hexValue?, Text.hexAccumulate?, hzero,
        Text.hexDigit?_hexChar (show c.toNat / 16 < 16 by omega), Text.hexDigit?_hexChar hlow]
      congr 1
      omega
    have hhigh : isHighSurrogate c.toNat = false := by
      simp [isHighSurrogate]
      omega
    have hlow' : isLowSurrogate c.toNat = false := by
      simp [isLowSurrogate]
      omega
    simp [lexText, hunit, OpenText.pushUnit?, hhigh, hlow']
  -- All other characters are written as they are.
  · have hplain : c ≠ '\\' := fun heq => hslash (beq_iff_eq.mpr heq)
    rw [List.singleton_append, lexText.eq_def]
    split
    · rename_i heq
      cases heq
    · rename_i heq
      exact absurd (List.cons.inj heq).1 hplain
    · rename_i heq
      exact absurd (List.cons.inj heq).1 hplain
    · rename_i heq
      obtain ⟨rfl, rfl⟩ := List.cons.inj heq
      have hchar : (c == '\\' || decide (c.toNat < 0x20)) = false := by
        simp [hplain, hcontrol]
      rw [if_neg hquote, if_neg (by simpa using hchar)]
      rfl

lemma lexText_escaped (cs : List Char) (text : String) (rest : List Char) :
    lexText (some ⟨text, none⟩) (cs.flatMap escapeChar ++ '"' :: rest) =
      (lex rest).map (.text (some (text ++ String.ofList cs)) :: ·) := by
  induction cs generalizing text with
  | nil =>
      have htext : text ++ String.ofList [] = text := by simp
      rw [htext]
      rfl
  | cons c cs ih =>
      have htext : text.push c ++ String.ofList cs = text ++ String.ofList (c :: cs) := by
        apply String.toList_inj.mp
        simp
      rw [List.flatMap_cons, List.append_assoc, lexText_escapeChar, ih, htext]

/-- **A string in quotes is read as this string.** -/
theorem spells_quoted (text : String) : Spells (quoted text) [.text (some text)] := by
  intro rest _
  have htext : "" ++ String.ofList text.toList = text := by simp
  rw [quoted, List.cons_append, List.append_assoc, lex]
  rw [if_neg (by decide), if_pos (by decide)]
  show lexText (some ⟨"", none⟩) (text.toList.flatMap escapeChar ++ '"' :: rest) = _
  rw [lexText_escaped, htext]
  rfl

/-! ### Words -/

lemma classes_of_isWordChar {c : Char} (h : isWordChar c = true) :
    isSpace c = false ∧ c ≠ '"' := by
  constructor
  · by_contra hspace
    simp only [isSpace, Bool.not_eq_false, Bool.or_eq_true, beq_iff_eq] at hspace
    rcases hspace with ((rfl | rfl) | rfl) | rfl <;> exact absurd h (by decide)
  · rintro rfl
    exact absurd h (by decide)

lemma lexWord_append {cs : List Char} (h : ∀ c ∈ cs, isWordChar c = true) (word rest : List Char) :
    lexWord word (cs ++ rest) = lexWord (cs.reverse ++ word) rest := by
  induction cs generalizing word with
  | nil => rfl
  | cons c cs ih =>
      have hc : isWordChar c = true := h c List.mem_cons_self
      rw [List.cons_append, lexWord, if_pos hc, ih fun d hd => h d (List.mem_cons_of_mem c hd)]
      simp

/-- A word that is followed by what may come after a word ends there. -/
lemma lexWord_of_stops {word rest : List Char} {token : Token}
    (h : ofWord? word.reverse = some token) (hrest : Stops rest) :
    lexWord word rest = (lex rest).map (token :: ·) := by
  cases rest with
  | nil =>
      rw [lexWord, h, lex]
      rfl
  | cons c rest =>
      rcases hrest c rfl with hspace | hpunctuation
      · have hword : isWordChar c = false := by
          by_contra hword
          have := (classes_of_isWordChar (by simpa using hword)).1
          rw [hspace] at this
          cases this
        rw [lexWord, hword, h, lex, if_pos hspace]
        simp [hspace]
      · obtain ⟨p, hp⟩ := Option.isSome_iff_exists.mp hpunctuation
        obtain ⟨hspace, _, hword⟩ := classes_of_punctuation hp
        rw [lexWord, hword, h, lex_punctuation hp, hspace, Option.map_map]
        simp [hp]
        rfl

/-- **A row of word characters is read as the token that it is.** -/
theorem spells_word {word : List Char} {token : Token} (hne : word ≠ [])
    (hword : ∀ c ∈ word, isWordChar c = true) (h : ofWord? word = some token) :
    Spells word [token] := by
  intro rest hrest
  cases word with
  | nil => exact absurd rfl hne
  | cons c cs =>
      have hc : isWordChar c = true := hword c List.mem_cons_self
      obtain ⟨hspace, hquote⟩ := classes_of_isWordChar hc
      have hread : ofWord? (cs.reverse ++ [c]).reverse = some token := by simpa using h
      rw [List.cons_append, lex, hspace, if_neg (by decide), if_neg (by simp [hquote]),
        if_pos hc, lexWord_append fun d hd => hword d (List.mem_cons_of_mem c hd),
        lexWord_of_stops hread hrest]
      rfl

/-! ### Numbers -/

open Number (AllDigits Literal)

lemma isWordChar_of_isDigit {c : Char} (h : c.isDigit = true) : isWordChar c = true := by
  simp [isWordChar, Char.isAlphanum, h]

lemma isWordChar_of_isSign {sign : Option Char} (h : Number.IsSign sign) :
    ∀ c ∈ sign.toList, isWordChar c = true := by
  rcases h with rfl | rfl | rfl
  · exact fun c hc => nomatch hc
  · exact fun c hc => List.mem_singleton.mp hc ▸ by decide
  · exact fun c hc => List.mem_singleton.mp hc ▸ by decide

lemma isWordChar_of_mem_text {l : Literal} (h : l.WellFormed) :
    ∀ c ∈ l.text, isWordChar c = true := by
  obtain ⟨sign, whole, fraction, exponent⟩ := l
  have hdigits {ds : List Char} (hds : AllDigits ds) : ∀ c ∈ ds, isWordChar c = true :=
    fun c hc => isWordChar_of_isDigit (hds c hc)
  intro c hc
  rw [Literal.text] at hc
  rcases List.mem_append.mp hc with hc | hc
  · exact isWordChar_of_isSign h.sign c hc
  rcases List.mem_append.mp hc with hc | hc
  · exact hdigits h.whole c hc
  rcases List.mem_append.mp hc with hc | hc
  · cases fraction with
    | none => cases hc
    | some ds =>
        rcases List.mem_cons.mp hc with rfl | hc
        · decide
        · exact hdigits (h.fraction ds rfl) c hc
  · cases exponent with
    | none => cases hc
    | some p =>
        rcases List.mem_cons.mp hc with rfl | hc
        · decide
        rcases List.mem_append.mp hc with hc | hc
        · exact isWordChar_of_isSign (h.exponent p rfl).1 c hc
        · exact hdigits (h.exponent p rfl).2 c hc

/-- The text of a number of JSON is read as its value. -/
theorem spells_text {l : Literal} (h : l.WellFormed) (hjson : l.isJson = true) :
    Spells l.text [.scalar (numberValue? l)] := by
  have hscan := Number.scan?_text h
  -- The three constants are no number texts, so that no number text is one of them.
  have hnull : l.text ≠ ['n', 'u', 'l', 'l'] := by
    intro heq
    rw [heq] at hscan
    cases hscan
  have htrue : l.text ≠ ['t', 'r', 'u', 'e'] := by
    intro heq
    rw [heq] at hscan
    cases hscan
  have hfalse : l.text ≠ ['f', 'a', 'l', 's', 'e'] := by
    intro heq
    rw [heq] at hscan
    cases hscan
  refine spells_word ?_ (isWordChar_of_mem_text h) ?_
  · intro hnil
    rw [hnil] at hscan
    obtain rfl := Option.some.inj hscan
    cases hjson
  · rw [ofWord?, if_neg hnull, if_neg htrue, if_neg hfalse, hscan]
    simp only [hjson, if_true]

/-- **A finite float is read as itself.** -/
theorem spells_realText {x : Float} (h : Number.isFinite x = true) :
    Spells (realText x) [.scalar (some (.real x))] := by
  obtain ⟨e, he, hview, hx⟩ := Number.exists_exact_of_isFinite h
  have hvalue : numberValue? (Number.Layout.stored.literal e) = some (.real x) := by
    rw [numberValue?, Number.Layout.toFloat_literal _ he, hx, h,
      Number.Layout.isInteger_literal _ rfl]
    rfl
  have hspells := spells_text (Number.Layout.literal_wellFormed _)
    (Number.Layout.isJson_literal Number.Layout.stored he)
  rw [hvalue] at hspells
  rw [realText, if_pos h, Number.Layout.text_eq _ hview]
  exact hspells

/-- The parts of a natural number. -/
def naturalLiteral (n : Nat) : Literal :=
  ⟨none, Number.digits n, none, none⟩

lemma naturalLiteral_wellFormed (n : Nat) : (naturalLiteral n).WellFormed :=
  ⟨.inl rfl, Number.allDigits_digits n, (fun _ h => nomatch h), fun _ h => nomatch h⟩

lemma isJson_naturalLiteral (n : Nat) : (naturalLiteral n).isJson = true := by
  rcases Nat.eq_zero_or_pos n with rfl | hpos
  · decide
  · exact Number.isJson_of_head (by decide) (Number.digits_ne_nil n) (Number.head_digits_ne hpos)
      (fun _ h => nomatch h) fun _ h => nomatch h

/-- **A natural number within the range of 64 bits is read as itself.** -/
theorem spells_intText {n : Nat} (h : n < 2 ^ 64) :
    Spells (Number.intText n) [.scalar (some (.integer n))] := by
  have hread : Nat.ofDigitChars 10 (Number.digits n) 0 = n := Nat.ofDigitChars_ten_toDigits
  have hall : (naturalLiteral n).allDigits = Number.digits n := List.append_nil _
  have hfinite : Number.isFinite (naturalLiteral n).decimal.toFloat = true := by
    have hbound : n + 1 ≤ 2 ^ 1023 :=
      h.trans (Nat.pow_lt_pow_right (by decide) (by decide))
    refine Number.Decimal.isFinite_toFloat hbound ?_
    rw [Literal.decimal_value (naturalLiteral_wellFormed n), hall, hread]
    simp [naturalLiteral, Number.exponentValue]
  have hvalue : numberValue? (naturalLiteral n) = some (.integer n) := by
    have hdigits : Number.ofDigits? (naturalLiteral n).whole = some n := Number.ofDigits?_digits n
    simp only [numberValue?, hfinite, hdigits]
    rfl
  have htext : Number.intText n = (naturalLiteral n).text := by
    rw [Number.intText, if_neg (by omega)]
    simp [naturalLiteral, Literal.text, Number.fractionText, Number.exponentText]
  rw [htext, ← hvalue]
  exact spells_text (naturalLiteral_wellFormed n) (isJson_naturalLiteral n)

end MessageCatalog.Json
