/-
The lexer on one text behind another.

Characters that are accepted in one place are accepted in every place, and what the lexer finds in
them is the same, but that a run that has been read in front of them goes on at their start. A text
that is accepted is read as if nothing came after it, but that a run at its end goes on with what
comes after. A backslash at its end would take a character from there.

* `Finds`, `Accepted.exists_finds`: what the lexer finds in characters, wherever they start;
* `backslashesAtEnd`: how many backslashes characters end in;
* `Seam`, `Accepted.seam`: characters that are read as if nothing came after them.
-/
import MessageCatalog.Proofs.Pattern.Lexing
import MessageCatalog.Proofs.Pattern.Written

namespace MessageCatalog.Pattern

/-! ### What is found -/

/-- The symbol of a run that goes on with more text; there is none if nothing has been read. -/
def Run.symbols (depth : Nat) (run : Option Run) (more : String) : List Symbol :=
  match run with
  | some run => [runSymbol depth (run.text ++ more)]
  | none => if more = "" then [] else [runSymbol depth more]

/-- What the lexer finds in characters, wherever they start and whatever has been read in front of
them: more text for the run that has been read, and the symbols behind it. -/
def Finds (depth : Nat) (more : String) (symbols : List Symbol) (cs : List Char) : Prop :=
  ∀ run here, ∃ tokens, lexFrom depth run here cs = .ok tokens ∧
    tokens.map (·.symbol) = Run.symbols depth run more ++ symbols

/-- Where a run stops, it does not go on. -/
lemma Lexes.finds {depth : Nat} {symbols : List Symbol} {cs : List Char}
    (h : Lexes depth symbols cs) (hstops : Stops depth cs) : Finds depth "" symbols cs := by
  intro run here
  obtain ⟨tokens, htokens, rfl⟩ := h here
  refine ⟨Run.flush depth run here tokens, by rw [lexFrom_of_stops hstops, htokens]; rfl, ?_⟩
  cases run with
  | none => rfl
  | some run =>
      rw [Run.symbols, String.append_empty]
      rfl

/-- A character that is taken belongs to the run. -/
lemma Finds.take {depth : Nat} {more : String} {symbols : List Symbol} {cs rest : List Char}
    {c : Char} (h : Finds depth more symbols rest)
    (hc : ∀ run here, ∃ next,
      lexFrom depth run here cs = lexFrom depth (some (Run.push run here c)) next rest) :
    Finds depth (String.singleton c ++ more) symbols cs := by
  intro run here
  obtain ⟨next, hnext⟩ := hc run here
  obtain ⟨tokens, htokens, hsymbols⟩ := h (some (Run.push run here c)) next
  refine ⟨tokens, hnext.trans htokens, hsymbols.trans ?_⟩
  cases run with
  | none => simp [Run.symbols, Run.push]
  | some run =>
      have htext : run.text.push c ++ more = run.text ++ (String.singleton c ++ more) := by
        apply String.toList_injective
        simp
      rw [Run.symbols, Run.symbols, Run.push, htext]

/-- **What the lexer finds does not depend on where it starts**: characters that it accepts in one
place it accepts in every place. -/
theorem Accepted.exists_finds {depth : Nat} {cs : List Char} (h : Accepted depth cs) :
    ∃ more symbols, Finds depth more symbols cs := by
  -- Only literal text and words join the run in front; everything else ends it at once.
  induction h with
  | done => exact ⟨"", [], Lexes.finds (fun here => ⟨[], rfl, rfl⟩) trivial⟩
  | leftBrace _ ih =>
      obtain ⟨more, symbols, hcs⟩ := ih
      exact ⟨"", _, Lexes.finds (Lexes.stop (hcs none) fun here => rfl) (.inl rfl)⟩
  | rightBrace _ ih =>
      obtain ⟨more, symbols, hcs⟩ := ih
      exact ⟨"", _, Lexes.finds (Lexes.stop (hcs none) fun here => rfl) (.inr (.inl rfl))⟩
  | hash hdepth _ ih =>
      obtain ⟨more, symbols, hcs⟩ := ih
      exact ⟨"", _, Lexes.finds (Lexes.stop (hcs none) fun here => lexFrom_hash none here _ hdepth)
        (.inr (.inr (.inl ⟨hdepth, rfl⟩)))⟩
  | escape hdepth he _ ih =>
      obtain ⟨more, symbols, hcs⟩ := ih
      exact ⟨_, symbols, hcs.take fun run here => ⟨_, lexFrom_escape run here _ hdepth he⟩⟩
  | literal hdepth hc _ ih =>
      obtain ⟨more, symbols, hcs⟩ := ih
      exact ⟨_, symbols, hcs.take fun run here => ⟨_, lexFrom_literal run here hdepth hc⟩⟩
  | comma hdepth _ ih =>
      obtain ⟨more, symbols, hcs⟩ := ih
      exact ⟨"", _, Lexes.finds (Lexes.stop (hcs none) fun here => lexFrom_comma none here _ hdepth)
        (.inr (.inr (.inr ⟨hdepth, .inl rfl⟩)))⟩
  | blank hdepth hc _ ih =>
      obtain ⟨more, symbols, hcs⟩ := ih
      exact ⟨"", _, Lexes.finds (Lexes.blank hdepth (hcs none) hc)
        (.inr (.inr (.inr ⟨hdepth, .inr hc⟩)))⟩
  | word hdepth hc _ ih =>
      obtain ⟨more, symbols, hcs⟩ := ih
      exact ⟨_, symbols, hcs.take fun run here => ⟨_, lexFrom_word run here _ hdepth hc⟩⟩

/-! ### Seams -/

/-- The number of backslashes that characters end in. -/
def backslashesAtEnd (cs : List Char) : Nat :=
  (cs.rtakeWhile (· == '\\')).length

lemma backslashesAtEnd_of_forall {cs : List Char} (h : ∀ c ∈ cs, c = '\\') :
    backslashesAtEnd cs = cs.length := by
  have hall : cs.rtakeWhile (· == '\\') = cs :=
    List.rtakeWhile_eq_self_iff.mpr fun c hc => by simpa using h c hc
  rw [backslashesAtEnd, hall]

/-- Only a row of backslashes gets longer by a character in front of it. -/
lemma backslashesAtEnd_cons {c : Char} {cs : List Char} (h : c ≠ '\\' ∨ ∃ d ∈ cs, d ≠ '\\') :
    backslashesAtEnd (c :: cs) = backslashesAtEnd cs := by
  rw [backslashesAtEnd, backslashesAtEnd, List.rtakeWhile, List.rtakeWhile, List.reverse_cons,
    List.takeWhile_append]
  split
  · rename_i hlength
    have hall : cs.reverse.takeWhile (· == '\\') = cs.reverse :=
      (List.takeWhile_prefix _).eq_of_length hlength
    have hc : c ≠ '\\' := by
      refine h.resolve_right ?_
      rintro ⟨d, hd, hne⟩
      have hd' := List.takeWhile_eq_self_iff.mp hall d (List.mem_reverse.mpr hd)
      exact hne (eq_of_beq hd')
    rw [List.takeWhile_cons_of_neg (by simpa using hc), List.append_nil, hall]
  · rfl

/-- A backslash and the character that it takes do not matter for what comes after them. -/
lemma even_backslashesAtEnd_escape {c : Char} {cs : List Char}
    (h : Even (backslashesAtEnd ('\\' :: c :: cs))) : Even (backslashesAtEnd cs) := by
  by_cases hcs : ∃ d ∈ c :: cs, d ≠ '\\'
  · rw [backslashesAtEnd_cons (.inr hcs)] at h
    obtain ⟨d, hd, hne⟩ := hcs
    rcases List.mem_cons.mp hd with rfl | hd
    · rwa [backslashesAtEnd_cons (.inl hne)] at h
    · rwa [backslashesAtEnd_cons (.inr ⟨d, hd, hne⟩)] at h
  · push Not at hcs
    rw [backslashesAtEnd_of_forall (List.forall_mem_cons.mpr ⟨rfl, hcs⟩), List.length_cons,
      List.length_cons] at h
    rw [backslashesAtEnd_of_forall (List.forall_mem_cons.mp hcs).2]
    simpa [Nat.even_add_one] using h

lemma ne_zero_of_not_isLiteral {depth : Nat} (h : isLiteral depth = false) : depth ≠ 0 := by
  rintro rfl
  cases h

/-- Inside open braces there is a closing one. -/
lemma Accepted.mem_rightBrace {depth : Nat} {cs : List Char} (h : Accepted depth cs)
    (hdepth : depth ≠ 0) : '}' ∈ cs := by
  induction h with
  | done => exact absurd rfl hdepth
  | leftBrace _ ih => exact List.mem_cons_of_mem _ (ih (Nat.succ_ne_zero _))
  | rightBrace => exact List.mem_cons_self
  | escape _ _ _ ih => exact List.mem_cons_of_mem _ (List.mem_cons_of_mem _ (ih hdepth))
  | hash _ _ ih | comma _ _ ih => exact List.mem_cons_of_mem _ (ih hdepth)
  | literal _ _ _ ih | blank _ _ _ ih | word _ _ _ ih => exact List.mem_cons_of_mem _ (ih hdepth)

/-- Characters that are read as if nothing came after them, but for a run at their end, which goes
on with what comes after. -/
def Seam (depth : Nat) (run : Option Run) (here : Cursor) (cs : List Char) : Prop :=
  ∃ front last stop, ∀ rest,
    lexFrom depth run here (cs ++ rest) = (lexFrom 0 last stop rest).map (front ++ ·)

lemma Run.flush_append (depth : Nat) (run : Option Run) (here : Cursor) (front rest : List Token) :
    Run.flush depth run here (front ++ rest) = Run.flush depth run here front ++ rest := by
  cases run <;> rfl

namespace Seam

variable {depth depth' : Nat} {run run' : Option Run} {here next : Cursor} {cs cs' : List Char}

lemma nil (run : Option Run) (here : Cursor) : Seam 0 run here [] := by
  refine ⟨[], run, here, fun rest => ?_⟩
  rw [List.nil_append]
  cases lexFrom 0 run here rest <;> rfl

/-- One character that ends the run in front of it and is a symbol of its own. -/
lemma stop {c : Char} {symbol : Symbol} (hcs : Seam depth' none next cs)
    (h : ∀ rest, lexFrom depth run here (c :: rest) =
      Run.stop depth run here symbol (lexFrom depth' none next rest)) :
    Seam depth run here (c :: cs) := by
  obtain ⟨front, last, stop, hcs⟩ := hcs
  refine ⟨Run.flush depth run here (⟨symbol, here.to (here.offset + 1)⟩ :: front), last, stop,
    fun rest => ?_⟩
  rw [List.cons_append, h, hcs]
  cases lexFrom 0 last stop rest with
  | error e => rfl
  | ok tokens => exact congrArg Except.ok (Run.flush_append depth run here (_ :: front) tokens)

/-- A blank, which ends the run in front of it. -/
lemma blank {c : Char} (hcs : Seam depth none next cs)
    (h : ∀ rest, lexFrom depth run here (c :: rest) =
      (lexFrom depth none next rest).map (Run.flush depth run here)) :
    Seam depth run here (c :: cs) := by
  obtain ⟨front, last, stop, hcs⟩ := hcs
  refine ⟨Run.flush depth run here front, last, stop, fun rest => ?_⟩
  rw [List.cons_append, h, hcs]
  cases lexFrom 0 last stop rest with
  | error e => rfl
  | ok tokens => exact congrArg Except.ok (Run.flush_append depth run here front tokens)

/-- Characters that are taken into the run. -/
lemma take (hcs : Seam depth run' next cs)
    (h : ∀ rest, lexFrom depth run here (cs' ++ rest) = lexFrom depth run' next (cs ++ rest)) :
    Seam depth run here cs' := by
  obtain ⟨front, last, stop, hcs⟩ := hcs
  exact ⟨front, last, stop, fun rest => (h rest).trans (hcs rest)⟩

end Seam

/-- **Accepted characters are read as if nothing came after them**, unless a backslash at their end
takes a character from there. -/
theorem Accepted.seam {depth : Nat} {cs : List Char} (h : Accepted depth cs)
    (hend : Even (backslashesAtEnd cs)) (run : Option Run) (here : Cursor) :
    Seam depth run here cs := by
  -- By induction on the accepted text. What is behind it is of no concern, unless its last
  -- backslash takes the next character.
  induction h generalizing run here with
  | done => exact .nil run here
  | leftBrace _ ih =>
      rw [backslashesAtEnd_cons (.inl (by decide))] at hend
      exact (ih hend none _).stop fun rest => lexFrom_leftBrace run here rest _
  | rightBrace _ ih =>
      rw [backslashesAtEnd_cons (.inl (by decide))] at hend
      exact (ih hend none _).stop fun rest => lexFrom_rightBrace run here rest _
  | hash hdepth _ ih =>
      rw [backslashesAtEnd_cons (.inl (by decide))] at hend
      exact (ih hend none _).stop fun rest => lexFrom_hash run here rest hdepth
  | escape hdepth hc _ ih =>
      exact (ih (even_backslashesAtEnd_escape hend) _ _).take fun rest =>
        lexFrom_escape run here _ hdepth hc
  | @literal depth c cs hdepth hc _ ih =>
      obtain ⟨hleft, hright, hhash, hbackslash⟩ := hc
      -- A backslash that stands for itself has a character behind it that it does not take.
      have hnext : c = '\\' → ∃ e es, cs = e :: es ∧ isEscapable e = false := by
        rintro rfl
        cases cs with
        | nil => exact absurd hend (by decide)
        | cons e es => exact ⟨e, es, rfl, hbackslash rfl e rfl⟩
      have hne : c ≠ '\\' ∨ ∃ d ∈ cs, d ≠ '\\' := by
        refine or_iff_not_imp_left.mpr fun hc => ?_
        obtain ⟨e, es, rfl, he⟩ := hnext (not_not.mp hc)
        refine ⟨e, List.mem_cons_self, ?_⟩
        rintro rfl
        cases he
      rw [backslashesAtEnd_cons hne] at hend
      refine (ih hend _ _).take fun rest => lexFrom_literal run here hdepth
        ⟨hleft, hright, hhash, fun hc d hd => ?_⟩
      obtain ⟨e, es, rfl, he⟩ := hnext hc
      exact Option.some.inj hd ▸ he
  | comma hdepth _ ih =>
      rw [backslashesAtEnd_cons (.inl (by decide))] at hend
      exact (ih hend none _).stop fun rest => lexFrom_comma run here rest hdepth
  -- Between words a right brace is still to come, so that a backslash here is not at the end.
  | blank hdepth hc hcs ih =>
      have hbrace := hcs.mem_rightBrace (ne_zero_of_not_isLiteral hdepth)
      rw [backslashesAtEnd_cons (.inr ⟨'}', hbrace, by decide⟩)] at hend
      exact (ih hend none _).blank fun rest => lexFrom_blank run here rest hdepth hc
  | word hdepth hc hcs ih =>
      have hbrace := hcs.mem_rightBrace (ne_zero_of_not_isLiteral hdepth)
      rw [backslashesAtEnd_cons (.inr ⟨'}', hbrace, by decide⟩)] at hend
      exact (ih hend _ _).take fun rest => lexFrom_word run here _ hdepth hc

end MessageCatalog.Pattern
