/-
Texts with duplicate keys.

The keys of a statement are checked when its right brace is read, however deep inside other
statements it stands, and nothing else is ever rejected for a duplicate key.

* `State.run_eq_error_iff`: a run fails at its first step that fails;
* `State.step_eq_duplicate_iff`: what one token finds out about keys;
* `parse_eq_duplicate_iff`: the texts that are rejected for a duplicate key.
-/
import MessageCatalog.Proofs.Pattern.Keys
import MessageCatalog.Proofs.Pattern.Located
import MessageCatalog.Proofs.Pattern.Recovery

namespace MessageCatalog.Pattern

/-! ### Runs -/

/-- A run fails at the first step that does. -/
lemma State.run_eq_error_iff {s : State} {tokens : List Token} {e : ParseError} :
    s.run tokens = .error e ↔ ∃ front token rest next, tokens = front ++ token :: rest ∧
      s.run front = .ok next ∧ next.step token = .error e := by
  constructor
  · intro h
    induction tokens generalizing s with
    | nil => cases h
    | cons first tokens ih =>
        rw [run] at h
        split at h
        · rename_i next hstep
          obtain ⟨front, token, rest, last, rfl, hrun, herror⟩ := ih h
          exact ⟨first :: front, token, rest, last, rfl, by rw [run, hstep]; exact hrun, herror⟩
        · rename_i cause hstep
          obtain rfl := Except.error.inj h
          exact ⟨[], first, tokens, s, rfl, rfl, hstep⟩
  · rintro ⟨front, token, rest, next, rfl, hrun, herror⟩
    rw [run_append, hrun]
    show next.run (token :: rest) = .error e
    rw [run, herror]

/-- A statement without cases repeats no key. -/
lemma Choice.not_repeatsAt_nil {brace : Span} {arg : String} {selector : Selector} {span : Span} :
    ¬(Choice.mk brace arg selector []).RepeatsAt span := by
  rw [RepeatsAt]
  split
  all_goals
    rintro ⟨before, c, after, h, _⟩
    simp at h

lemma State.inCases_eq_duplicate_iff {s : State} {choice : Choice} {token : Token} {span : Span} :
    s.inCases choice token = .error ⟨.duplicateKey, span⟩ ↔
      token.symbol = .rightBrace ∧ choice.RepeatsAt span := by
  rw [inCases]
  split
  · rename_i hsymbol
    rw [map_eq_error, Choice.close_eq_duplicate_iff, and_iff_right hsymbol]
  · rename_i hsymbol
    simp [hsymbol]
  · rename_i hbrace _
    exact iff_of_false (fun h => by cases h) fun h => hbrace h.1

/-- **A step finds a duplicate key only at the right brace of a statement that repeats one.** -/
theorem State.step_eq_duplicate_iff {s : State} {token : Token} {span : Span} :
    s.step token = .error ⟨.duplicateKey, span⟩ ↔
      ∃ choice, s.place = .cases choice ∧ token.symbol = .rightBrace ∧ choice.RepeatsAt span := by
  constructor
  · intro h
    rw [step] at h
    -- Only where a statement may be closed are keys compared. All other places have errors of their
    -- own, which are gone through here.
    cases hplace : s.place with
    | cases choice =>
        simp only [hplace, inCases_eq_duplicate_iff] at h
        exact ⟨choice, rfl, h⟩
    | offset brace arg kind =>
        -- A statement that has just begun has no cases, and so none that repeats a key.
        have hnone : ¬s.inCases ⟨brace, arg, .plural kind 0, []⟩ token =
            .error ⟨.duplicateKey, span⟩ :=
          fun h => Choice.not_repeatsAt_nil (inCases_eq_duplicate_iff.mp h).2
        simp only [hplace] at h
        split at h
        · split at h
          · exact absurd h hnone
          · cases h
          · rw [setOffset] at h
            split at h <;> cases h
        · exact absurd h hnone
    | message =>
        simp only [hplace, inMessage] at h
        split at h
        · cases h
        · split at h <;> cases h
        · cases h
        · split at h <;> cases h
        · cases h
    | offsetNumber brace arg kind word =>
        simp only [hplace, setOffset] at h
        split at h
        · split at h <;> cases h
        · cases h
    | _ =>
        simp only [hplace] at h
        split at h
        all_goals cases h
  · rintro ⟨choice, hplace, h⟩
    rw [step, hplace]
    exact inCases_eq_duplicate_iff.mpr h

/-! ### Texts -/

/-- A statement of a text is complete: the parser has read its cases, and its right brace is the
next token. -/
def Completes (text : String) (choice : Choice) : Prop :=
  ∃ front brace rest s, lex text = .ok (front ++ ⟨.rightBrace, brace⟩ :: rest) ∧
    State.start.run front = .ok s ∧ s.place = .cases choice

/-- **A text is rejected for a duplicate key if and only if one of its statements repeats a key**,
and the error is where the first such statement repeats its first one. -/
theorem parse_eq_duplicate_iff {text : String} {span : Span} :
    parse text = .error ⟨.duplicateKey, span⟩ ↔
      ∃ choice, Completes text choice ∧ choice.RepeatsAt span := by
  rw [parse, bind_eq_error]
  constructor
  · rintro (hlex | ⟨tokens, hlex, h⟩)
    · cases isLexical_of_lexFrom behind_nil.symm _ hlex
    rw [parseTokens] at h
    rcases bind_eq_error.mp h with hrun | ⟨s, -, hfinish⟩
    · obtain ⟨front, ⟨symbol, brace⟩, rest, s, rfl, hfront, hstep⟩ := State.run_eq_error_iff.mp hrun
      obtain ⟨choice, hplace, rfl, hrepeats⟩ := State.step_eq_duplicate_iff.mp hstep
      exact ⟨choice, ⟨front, brace, rest, s, hlex, hfront, hplace⟩, hrepeats⟩
    · rw [State.finish] at hfinish
      split at hfinish <;> cases hfinish
  · rintro ⟨choice, ⟨front, brace, rest, s, hlex, hfront, hplace⟩, hrepeats⟩
    have hstep : s.step ⟨.rightBrace, brace⟩ = .error ⟨.duplicateKey, span⟩ :=
      State.step_eq_duplicate_iff.mpr ⟨choice, hplace, rfl, hrepeats⟩
    have hrun := State.run_eq_error_iff.mpr ⟨front, _, rest, s, rfl, hfront, hstep⟩
    exact .inr ⟨_, hlex, bind_eq_error.mpr (.inl hrun)⟩

end MessageCatalog.Pattern
