/-
Which characters the lexer accepts.

The lexer reads a character by the number of open braces and, after a backslash, by the character
behind it. Whether it accepts characters does not depend on anything else.

* `lexFrom_leftBrace`, `lexFrom_literal`, …: what one character does;
* `Accepted`: the characters that the lexer accepts inside so many open braces;
* `accepted_of_lexFrom`: there are tokens for no others.
-/
import MessageCatalog.Proofs.Except
import MessageCatalog.Proofs.Pattern.Acceptance

namespace MessageCatalog.Pattern

/-! ### One character -/

section Characters

variable {depth : Nat} {c : Char} (run : Option Run) (here : Cursor) (cs : List Char)

lemma lexFrom_leftBrace (depth : Nat) : lexFrom depth run here ('{' :: cs) =
    Run.stop depth run here .leftBrace (lexFrom (depth + 1) none (here.advance '{') cs) := rfl

lemma lexFrom_rightBrace (depth : Nat) : lexFrom (depth + 1) run here ('}' :: cs) =
    Run.stop (depth + 1) run here .rightBrace (lexFrom depth none (here.advance '}') cs) := rfl

lemma lexFrom_hash (hdepth : isLiteral depth = true) : lexFrom depth run here ('#' :: cs) =
    Run.stop depth run here .hash (lexFrom depth none (here.advance '#') cs) := by
  rw [lexFrom.eq_def]
  simp only [hdepth]
  rfl

lemma lexFrom_comma (hdepth : isLiteral depth = false) : lexFrom depth run here (',' :: cs) =
    Run.stop depth run here .comma (lexFrom depth none (here.advance ',') cs) := by
  rw [lexFrom.eq_def]
  simp only [hdepth]
  rfl

/-- A blank has no meaning of its own in a block. -/
lemma ne_of_isSpace (hc : Text.isSpace c = true) :
    (c == '{') = false ∧ (c == '}') = false ∧ (c == ',') = false := by
  have hne : ∀ d, Text.isSpace d = false → (c == d) = false := by
    intro d hd
    rw [beq_eq_false_iff_ne]
    rintro rfl
    rw [hc] at hd
    cases hd
  exact ⟨hne '{' (by decide), hne '}' (by decide), hne ',' (by decide)⟩

lemma lexFrom_blank (hdepth : isLiteral depth = false) (hc : Text.isSpace c = true) :
    lexFrom depth run here (c :: cs) =
      (lexFrom depth none (here.advance c) cs).map (Run.flush depth run here) := by
  obtain ⟨hleft, hright, hcomma⟩ := ne_of_isSpace hc
  rw [lexFrom.eq_def]
  simp only [hdepth, hc, hleft, hright, hcomma]
  rfl

lemma lexFrom_word (hdepth : isLiteral depth = false) (hc : IsWordChar c) :
    lexFrom depth run here (c :: cs) =
      lexFrom depth (some (Run.push run here c)) (here.advance c) cs := by
  obtain ⟨hspace, hcomma, hleft, hright⟩ := hc
  rw [lexFrom.eq_def]
  simp only [beq_eq_false_iff_ne.mpr hleft, beq_eq_false_iff_ne.mpr hright,
    beq_eq_false_iff_ne.mpr hcomma, hspace, hdepth]
  rfl

lemma lexFrom_escape (hdepth : isLiteral depth = true) (hc : isEscapable c = true) :
    lexFrom depth run here ('\\' :: c :: cs) =
      lexFrom depth (some (Run.push run here c)) ((here.advance '\\').advance c) cs := by
  rw [lexFrom.eq_def]
  simp only [hdepth, hc]
  rfl

/-- A character of literal text that stands for itself: it has no meaning there, or it is a
backslash that does not take the next character. -/
def StandsForItself (c : Char) (cs : List Char) : Prop :=
  c ≠ '{' ∧ c ≠ '}' ∧ c ≠ '#' ∧ (c = '\\' → ∀ e ∈ cs.head?, isEscapable e = false)

/-- A backslash stands for itself in front of a character that it does not take. -/
lemma standsForItself_backslash {e : Char} (he : ¬ isEscapable e = true) (rest : List Char) :
    StandsForItself '\\' (e :: rest) := by
  refine ⟨by decide, by decide, by decide, fun _ d hd => ?_⟩
  obtain rfl := Option.some.inj hd
  simpa using he

/-- Other characters stand for themselves, and so does a backslash at the end. -/
lemma standsForItself_of_ne {cs : List Char} (hleft : ¬ (c == '{') = true)
    (hright : ¬ (c == '}') = true) (hhash : ¬ (c == '#') = true)
    (hlast : ∀ e rest, c = '\\' → cs = e :: rest → False) : StandsForItself c cs := by
  simp only [beq_iff_eq] at hleft hright hhash
  refine ⟨hleft, hright, hhash, fun hc d hd => ?_⟩
  obtain ⟨rest, hrest⟩ := List.head?_eq_some_iff.mp hd
  exact (hlast d rest hc hrest).elim

variable {cs} in
lemma lexFrom_literal (hdepth : isLiteral depth = true) (hc : StandsForItself c cs) :
    lexFrom depth run here (c :: cs) =
      lexFrom depth (some (Run.push run here c)) (here.advance c) cs := by
  obtain ⟨hleft, hright, hhash, hbackslash⟩ := hc
  rw [lexFrom.eq_def]
  simp only [beq_eq_false_iff_ne.mpr hleft, beq_eq_false_iff_ne.mpr hright,
    beq_eq_false_iff_ne.mpr hhash, hdepth, if_true]
  by_cases hc : c = '\\'
  · subst hc
    cases cs with
    | nil => rfl
    | cons e rest =>
        have he : isEscapable e = false := hbackslash rfl e rfl
        simp [he]
  · split
    · rename_i heq
      cases heq
    · simp [hc]

end Characters

/-! ### Accepted characters -/

/-- The characters that the lexer accepts inside so many open braces: all braces are closed in the
end, but for those in literal text that a backslash takes. -/
inductive Accepted : Nat → List Char → Prop where
  | done : Accepted 0 []
  | leftBrace {depth cs} : Accepted (depth + 1) cs → Accepted depth ('{' :: cs)
  | rightBrace {depth cs} : Accepted depth cs → Accepted (depth + 1) ('}' :: cs)
  | hash {depth cs} : isLiteral depth = true → Accepted depth cs → Accepted depth ('#' :: cs)
  | escape {depth c cs} : isLiteral depth = true → isEscapable c = true → Accepted depth cs →
      Accepted depth ('\\' :: c :: cs)
  | literal {depth c cs} : isLiteral depth = true → StandsForItself c cs → Accepted depth cs →
      Accepted depth (c :: cs)
  | comma {depth cs} : isLiteral depth = false → Accepted depth cs → Accepted depth (',' :: cs)
  | blank {depth c cs} : isLiteral depth = false → Text.isSpace c = true → Accepted depth cs →
      Accepted depth (c :: cs)
  | word {depth c cs} : isLiteral depth = false → IsWordChar c → Accepted depth cs →
      Accepted depth (c :: cs)

/-- Characters with tokens are accepted. -/
theorem accepted_of_lexFrom {depth : Nat} {run : Option Run} {here : Cursor} {cs : List Char} :
    ∀ tokens, lexFrom depth run here cs = .ok tokens → Accepted depth cs := by
  -- The cases of the lexer are the rules of accepted texts, but for the two in which there is an
  -- error. Literal text has three cases and two rules.
  fun_induction lexFrom depth run here cs with
  | case1 => exact fun _ _ => .done
  | case2 =>
      intro tokens h
      cases h
  | case3 depth run here c cs next hc ih =>
      intro tokens h
      obtain rfl := eq_of_beq hc
      obtain ⟨_, hrest, _⟩ := map_eq_ok.mp h
      exact .leftBrace (ih _ hrest)
  | case4 =>
      intro tokens h
      cases h
  | case5 run here c cs next _ hc outer ih =>
      intro tokens h
      obtain rfl := eq_of_beq hc
      obtain ⟨_, hrest, _⟩ := map_eq_ok.mp h
      exact .rightBrace (ih _ hrest)
  | case6 depth run here c cs next _ _ hdepth hc ih =>
      intro tokens h
      obtain rfl := eq_of_beq hc
      obtain ⟨_, hrest, _⟩ := map_eq_ok.mp h
      exact .hash hdepth (ih _ hrest)
  | case7 depth run here hdepth e rest he next _ _ _ ih =>
      exact fun _ h => .escape hdepth he (ih _ h)
  | case8 depth run here hdepth e rest he next _ _ _ ih =>
      exact fun tokens h => .literal hdepth (standsForItself_backslash he rest) (ih tokens h)
  | case9 depth run here hdepth c cs hsingle next hleft hright hhash ih =>
      exact fun tokens h =>
        .literal hdepth (standsForItself_of_ne hleft hright hhash hsingle) (ih tokens h)
  | case10 depth run here c cs next _ _ hdepth hc ih =>
      intro tokens h
      obtain rfl := eq_of_beq hc
      obtain ⟨_, hrest, _⟩ := map_eq_ok.mp h
      exact .comma (by simpa using hdepth) (ih _ hrest)
  | case11 depth run here c cs next _ _ hdepth _ hspace ih =>
      intro tokens h
      obtain ⟨_, hrest, _⟩ := map_eq_ok.mp h
      exact .blank (by simpa using hdepth) hspace (ih _ hrest)
  | case12 depth run here c cs next hleft hright hdepth hcomma hspace ih =>
      intro tokens h
      simp only [beq_iff_eq, Bool.not_eq_true] at hleft hright hcomma hspace hdepth
      exact .word hdepth ⟨hspace, hcomma, hleft, hright⟩ (ih tokens h)

end MessageCatalog.Pattern
