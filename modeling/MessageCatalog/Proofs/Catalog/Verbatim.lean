/-
Patterns that are literal text.

A pattern whose braces all stand behind backslashes that take them is one literal, or nothing. Two
readings of its escapes have to agree for that: the lexer takes characters into runs, which end at
number signs, and `unescape` goes through all characters at once.

* `isPlain`: characters without braces, but for those that backslashes take;
* `reads_plain`: the parser makes one literal of such characters, or nothing;
* `message_plain`: such a pattern has a message, which says what is written.
-/
import MessageCatalog.Message.Render
import MessageCatalog.Plural.Language
import MessageCatalog.Proofs.Catalog.Compiler
import MessageCatalog.Proofs.Pattern.Joining
import MessageCatalog.Proofs.Pattern.Lexing

namespace MessageCatalog

namespace Pattern

/-! ### Characters -/

/-- Whether characters have no braces, but for those that a backslash takes. -/
def isPlain : List Char → Bool
  | [] => true
  | '\\' :: c :: cs => if isEscapable c then isPlain cs else isPlain (c :: cs)
  | c :: cs => c != '{' && c != '}' && isPlain cs

lemma isPlain_cons {c : Char} (hc : c ≠ '\\') (cs : List Char) :
    isPlain (c :: cs) = (c != '{' && c != '}' && isPlain cs) := by
  rw [isPlain]
  exact fun _ _ h => absurd h hc

lemma unescapeChars_cons {c : Char} {cs : List Char}
    (h : c = '\\' → ∀ e ∈ cs.head?, isEscapable e = false) :
    unescapeChars (c :: cs) = c :: unescapeChars cs := by
  by_cases hc : c = '\\'
  · subst hc
    cases cs with
    | nil => rfl
    | cons e rest => rw [unescapeChars, if_neg (by simp [h rfl e rfl])]
  · rw [unescapeChars]
    exact fun _ _ h => absurd h hc

lemma ne_of_not_isEscapable {c : Char} (h : isEscapable c = false) :
    c ≠ '\\' ∧ c ≠ '#' ∧ c ≠ '{' ∧ c ≠ '}' := by
  simpa [isEscapable, and_assoc] using h

/-- Escaped text has no braces but those behind backslashes. -/
theorem isPlain_escapeChars (cs : List Char) : isPlain (escapeChars cs) = true := by
  induction cs with
  | nil => rfl
  | cons c cs ih =>
      rw [escapeChars]
      split
      · rename_i hc
        rw [isPlain, if_pos hc, ih]
      · rename_i hc
        obtain ⟨hbackslash, _, hleft, hright⟩ := ne_of_not_isEscapable (by simpa using hc)
        simp [isPlain_cons hbackslash, hleft, hright, ih]

/-- Escaped text is read back. -/
theorem unescapeChars_escapeChars (cs : List Char) : unescapeChars (escapeChars cs) = cs := by
  induction cs with
  | nil => rfl
  | cons c cs ih =>
      rw [escapeChars]
      split
      · rename_i hc
        rw [unescapeChars, if_pos hc, ih]
      · rename_i hc
        obtain ⟨hbackslash, _⟩ := ne_of_not_isEscapable (by simpa using hc)
        rw [unescapeChars_cons fun h => absurd h hbackslash, ih]

/-! ### Reading -/

/-- What has been read of a run. -/
def Run.read : Option Run → String
  | some run => run.text
  | none => ""

lemma Run.read_push (run : Option Run) (here : Cursor) (c : Char) (cs : List Char) :
    Run.read (some (Run.push run here c)) ++ String.ofList cs =
      Run.read run ++ String.ofList (c :: cs) := by
  apply String.toList_injective
  cases run <;> simp [Run.read, Run.push]

/-- A run becomes literal text. -/
lemma Shows.flush {shown : String} {es : List (Element Span)} (h : Shows shown es)
    (run : Option Run) (here : Cursor) :
    ∃ es', (∀ rest, State.run ⟨es, .message, []⟩ (Run.flush 0 run here rest) =
        State.run ⟨es', .message, []⟩ rest) ∧
      Shows (shown ++ Run.read run) es' := by
  cases run with
  | none =>
      rw [Run.read, String.append_empty]
      exact ⟨es, fun _ => rfl, h⟩
  | some run => exact ⟨_, fun _ => rfl, h.pushLiteral run.text (run.start.to here.offset)⟩

/-- **Plain characters are read as the text that they spell**, in one literal with the text in front
of them. -/
theorem reads_plain {cs : List Char} (hcs : isPlain cs = true) (run : Option Run) (here : Cursor)
    {shown : String} {es : List (Element Span)} (hes : Shows shown es) :
    ∃ tokens es', lexFrom 0 run here cs = .ok tokens ∧
      State.run ⟨es, .message, []⟩ tokens = .ok ⟨es', .message, []⟩ ∧
      Shows (shown ++ (Run.read run ++ String.ofList (unescapeChars cs))) es' := by
  -- By induction on the plain text, with the run and the elements so far left open. In each case
  -- one piece of it joins the run.
  induction cs using isPlain.induct generalizing run here shown es with
  | case1 =>
      obtain ⟨es', hflush, hes'⟩ := hes.flush run here
      rw [unescapeChars, String.ofList_nil, String.append_empty]
      exact ⟨_, es', rfl, hflush [], hes'⟩
  | case2 c cs hc ih =>
      rw [isPlain, if_pos hc] at hcs
      rw [unescapeChars, if_pos hc, ← Run.read_push run here, lexFrom_escape run here cs rfl hc]
      exact ih hcs _ _ hes
  | case3 c cs hc ih =>
      rw [isPlain, if_neg hc] at hcs
      have hbackslash : StandsForItself '\\' (c :: cs) := by
        refine ⟨by decide, by decide, by decide, fun _ e he => ?_⟩
        obtain rfl := Option.some.inj he
        simpa using hc
      rw [unescapeChars, if_neg hc, ← Run.read_push run here,
        lexFrom_literal run here rfl hbackslash]
      exact ih hcs _ _ hes
  | case4 c cs hsingle ih =>
      rw [isPlain] at hcs
      · simp only [Bool.and_eq_true, bne_iff_ne] at hcs
        obtain ⟨⟨hleft, hright⟩, hcs⟩ := hcs
        have hend : c = '\\' → ∀ e ∈ cs.head?, isEscapable e = false := by
          intro hc e he
          obtain ⟨rest, hrest⟩ := List.head?_eq_some_iff.mp he
          exact (hsingle e rest hc hrest).elim
        rw [unescapeChars_cons hend]
        by_cases hhash : c = '#'
        · subst hhash
          -- A number sign ends the run in front of it, and is literal text itself.
          obtain ⟨before, hflush, hbefore⟩ := hes.flush run here
          have hsign := hbefore.pushLiteral "#" (here.to (here.offset + 1))
          obtain ⟨tokens, es', hlex, hrun, hes'⟩ := ih hcs none (here.advance '#') hsign
          have htext : shown ++ Run.read run ++ "#" ++ (Run.read none ++
                String.ofList (unescapeChars cs)) =
              shown ++ (Run.read run ++ String.ofList ('#' :: unescapeChars cs)) := by
            apply String.toList_injective
            simp [Run.read]
          rw [htext] at hes'
          rw [lexFrom_hash run here cs rfl, hlex]
          exact ⟨_, es', rfl, (hflush _).trans hrun, hes'⟩
        · rw [← Run.read_push run here, lexFrom_literal run here rfl ⟨hleft, hright, hhash, hend⟩]
          exact ih hcs _ _ hes
      · exact hsingle

/-- Plain text is a pattern, of one literal at most. -/
lemma parse_plain {text : String} (h : isPlain text.toList = true) :
    ∃ es, parse text = .ok es ∧ Shows (unescape text) es := by
  obtain ⟨tokens, es, hlex, hrun, hes⟩ := reads_plain h none .start .nothing
  have hparse : parseTokens tokens = .ok es.reverse := bind_eq_ok.mpr ⟨_, hrun, rfl⟩
  rw [Run.read, String.empty_append, String.empty_append, ← unescape] at hes
  exact ⟨es.reverse, bind_eq_ok.mpr ⟨tokens, hlex, hparse⟩, hes.reverse⟩

/-- A literal is a node that says it. -/
lemma Shows.compile {shown : String} {es : List (Element Span)} (h : Shows shown es)
    (context : Context) : ∃ m, Compile.message context es = .ok m ∧ m.nodes.length ≤ 1 ∧
      ∀ args, m.format args = .ok shown := by
  cases h with
  | nothing => exact ⟨⟨context.locale, []⟩, rfl, Nat.zero_le 1, fun _ => rfl⟩
  | literal =>
      refine ⟨⟨context.locale, [.text shown]⟩, rfl, le_refl 1, fun args => ?_⟩
      exact congrArg Except.ok String.append_empty

end Pattern

/-! ### Messages -/

namespace Compiler

open Pattern (escape isPlain unescape)

/-- **Literal patterns are shown verbatim.** If the default locale has a rule, then whatever the
switches of a compiler are, a text without braces, but for those that a backslash takes, has a
message of one node at most, which says for all arguments what the text spells. What `escape` writes
is such a text, and it spells what has been escaped. -/
theorem message_plain {compiler : Compiler}
    (hdefault : ∃ rule, compiler.rule compiler.resolver.default = .ok rule) :
    (∀ text, isPlain text.toList = true → ∃ m, compiler.message none text = .ok m ∧
      m.nodes.length ≤ 1 ∧ ∀ args, m.format args = .ok (unescape text)) ∧
    ∀ text, isPlain (escape text).toList = true ∧ unescape (escape text) = text ∧
      ∃ m, compiler.message none (escape text) = .ok m ∧ m.nodes.length ≤ 1 ∧
        ∀ args, m.format args = .ok text := by
  obtain ⟨rule, hrule⟩ := hdefault
  have hplain : ∀ text, isPlain text.toList = true → ∃ m, compiler.message none text = .ok m ∧
      m.nodes.length ≤ 1 ∧ ∀ args, m.format args = .ok (unescape text) := by
    intro text htext
    obtain ⟨es, hparse, hes⟩ := Pattern.parse_plain htext
    obtain ⟨m, hm, hshows⟩ := hes.compile (compiler.context compiler.resolver.default rule)
    refine ⟨m, ?_, hshows⟩
    simp only [message, select, Locale.Resolver.select, pattern, hrule, hparse, hm, Except.mapError,
      bind, Except.bind]
  refine ⟨hplain, fun text => ?_⟩
  have hescape : isPlain (escape text).toList = true := by
    rw [escape, String.toList_ofList]
    exact Pattern.isPlain_escapeChars text.toList
  have hunescape : unescape (escape text) = text := by
    rw [unescape, escape, String.toList_ofList, Pattern.unescapeChars_escapeChars,
      String.ofList_toList]
  obtain ⟨m, hm, hlength, hshows⟩ := hplain (escape text) hescape
  exact ⟨hescape, hunescape, m, hm, hlength, hunescape ▸ hshows⟩

/-- Number signs, an escaped brace, a backslash in front of a letter and one at the end. -/
theorem message_plain_english :
    let compiler : Compiler := ⟨⟨Plural.languages, ["en"], "en"⟩, {}, true, true, true⟩
    let text := "a # \\\x7b \\b é #\\"
    (∃ rule, compiler.rule compiler.resolver.default = .ok rule) ∧ isPlain text.toList = true ∧
      unescape text = "a # \x7b \\b é #\\" ∧
      ∃ m, compiler.message none text = .ok m ∧ m.nodes.length ≤ 1 ∧
        ∀ args, m.format args = .ok "a # \x7b \\b é #\\" := by
  intro compiler text
  have hok : passes (fun _ => true) (compiler.rule compiler.resolver.default) = true := by
    decide +kernel
  obtain ⟨rule, hrule, _⟩ := passes_eq_true hok
  have htext : isPlain text.toList = true := by decide +kernel
  have hunescape : unescape text = "a # \x7b \\b é #\\" := by decide +kernel
  obtain ⟨m, hm, hlength, hshows⟩ := (message_plain ⟨rule, hrule⟩).1 text htext
  exact ⟨⟨rule, hrule⟩, htext, hunescape, m, hm, hlength, hunescape ▸ hshows⟩

end Compiler

end MessageCatalog
