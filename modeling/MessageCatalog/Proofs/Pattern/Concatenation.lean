/-
One pattern behind another.

At the end of an accepted text the parser is back in the outermost message, with nothing open. What
it does with the text behind it is what it does with that text alone, but that the elements in front
stand below those that it reads.

* `Place.Alike`, `Choice.Alike`: places that say the same, wherever they are in a text;
* `Underlaid`, `State.Behind`: a state of the parser behind other elements;
* `State.Behind.step`, `State.Behind.run`: what one token does there, and many;
* `parse_append`: the elements of two texts, one behind the other.
-/
import MessageCatalog.Proofs.Pattern.Joining
import MessageCatalog.Proofs.Pattern.Recovery
import MessageCatalog.Proofs.Pattern.Seam

namespace MessageCatalog.Pattern

open Plural (Key Kind)

/-! ### Statements and places -/

/-- Statements that say the same, wherever they are in a text. -/
structure Choice.Alike (choice choice' : Choice) : Prop where
  arg : choice.arg = choice'.arg
  selector : choice.selector = choice'.selector
  cases : Element.stripSelectCases choice.cases = Element.stripSelectCases choice'.cases

/-- Places that say the same, wherever they are in a text. -/
inductive Place.Alike : Place → Place → Prop where
  | message : Alike .message .message
  | name {brace brace'} : Alike (.name brace) (.name brace')
  | named {brace brace' arg} : Alike (.named brace arg) (.named brace' arg)
  | type {brace brace' arg} : Alike (.type brace arg) (.type brace' arg)
  | call {brace brace' arg name} : Alike (.call brace arg name) (.call brace' arg name)
  | style {brace brace' arg name part parts} :
      Alike (.style brace arg name part parts) (.style brace' arg name part parts)
  | plural {brace brace' arg kind} : Alike (.plural brace arg kind) (.plural brace' arg kind)
  | offset {brace brace' arg kind} : Alike (.offset brace arg kind) (.offset brace' arg kind)
  | offsetNumber {brace brace' arg kind word word'} :
      Alike (.offsetNumber brace arg kind word) (.offsetNumber brace' arg kind word')
  | select {brace brace' arg} : Alike (.select brace arg) (.select brace' arg)
  | cases {choice choice'} : choice.Alike choice' → Alike (.cases choice) (.cases choice')
  | body {choice choice' key span span'} : choice.Alike choice' →
      Alike (.body choice key span) (.body choice' key span')

lemma stripSelectCases_eq_map {σ : Type} (cases : List (Case String σ (Element σ))) :
    Element.stripSelectCases cases =
      cases.map fun c => ⟨c.key, Element.stripAll c.body, ()⟩ := by
  induction cases with
  | nil => rfl
  | cons c rest ih => rw [Element.stripSelectCases, ih, List.map_cons]

lemma stripSelectCases_reverse {cases cases' : List (Case String Span (Element Span))}
    (h : Element.stripSelectCases cases = Element.stripSelectCases cases') :
    Element.stripSelectCases cases.reverse = Element.stripSelectCases cases'.reverse := by
  simp only [stripSelectCases_eq_map, List.map_reverse] at h ⊢
  rw [h]

/-- The keys of plural cases are read in the same way, whatever the places of the cases. -/
lemma pluralCases_alike {seen : List String} {written : List (Case String Span (Element Span))}
    {cases : List (Case Key Span (Element Span))} (h : pluralCases seen written = .ok cases)
    {written' : List (Case String Span (Element Span))}
    (hwritten : Element.stripSelectCases written = Element.stripSelectCases written') :
    ∃ cases', pluralCases seen written' = .ok cases' ∧
      Element.stripPluralCases cases' = Element.stripPluralCases cases := by
  simp only [pluralCases_eq_readKeys] at h ⊢
  induction written generalizing seen cases written' with
  | nil =>
      cases written' with
      | nil => exact ⟨cases, h, rfl⟩
      | cons => cases hwritten
  | cons first rest ih =>
      cases written' with
      | nil => cases hwritten
      | cons first' rest' =>
          simp only [Element.stripSelectCases, List.cons.injEq, Case.mk.injEq] at hwritten
          obtain ⟨⟨hsame, hbody, -⟩, hrest⟩ := hwritten
          obtain ⟨key, others, hkey, hfresh, hothers, rfl⟩ := readKeys_cons_eq_ok.mp h
          obtain ⟨others', hothers', hstrip⟩ := ih hrest hothers
          rw [hsame] at hkey
          refine ⟨⟨key, first'.body, first'.mark⟩ :: others',
            readKeys_cons_eq_ok.mpr ⟨key, others', hkey, hfresh, hothers', rfl⟩, ?_⟩
          rw [Element.stripPluralCases, Element.stripPluralCases, hstrip, hbody]

/-- A statement is closed in the same way, wherever it is in a text. -/
lemma Choice.Alike.close {choice choice' : Choice} (h : choice.Alike choice') {brace : Span}
    {e : Element Span} (hclose : choice.close brace = .ok e) (brace' : Span) :
    ∃ e', choice'.close brace' = .ok e' ∧ e'.strip = e.strip ∧ e.isLiteral = false := by
  obtain ⟨start, arg, selector, written⟩ := choice
  obtain ⟨start', arg', selector', written'⟩ := choice'
  obtain ⟨rfl, rfl, hwritten⟩ := h
  have hwritten := stripSelectCases_reverse hwritten
  rw [Choice.close] at hclose ⊢
  cases selector with
  | plural kind offset =>
      obtain ⟨cases, hcases, hclose⟩ := bind_eq_ok.mp hclose
      obtain ⟨cases', hcases', hstrip⟩ := pluralCases_alike hcases hwritten
      -- Closing looks at nothing but the keys, and those are the same in both statements.
      have hkeys : cases'.map (·.key) = cases.map (·.key) := by
        rw [← keys_stripPluralCases, hstrip, keys_stripPluralCases]
      have hany : (cases'.any fun c => c.key.isOther) = cases.any fun c => c.key.isOther := by
        have hmap := congrArg (fun keys => List.any keys Key.isOther) hkeys
        simpa only [List.any_map, Function.comp_def] using hmap
      split at hclose
      · rename_i hother
        obtain rfl := Except.ok.inj hclose
        refine ⟨_, bind_eq_ok.mpr ⟨cases', hcases', if_pos (hany.trans hother)⟩, ?_, rfl⟩
        rw [Element.strip, Element.strip, hstrip]
      · cases hclose
  | select =>
      obtain ⟨cases, hcases, hclose⟩ := bind_eq_ok.mp hclose
      obtain ⟨rfl, hnodup, -⟩ := selectCases_eq_ok_iff.mp hcases
      have hkeys : written.reverse.map (·.key) = written'.reverse.map (·.key) := by
        rw [← keys_stripSelectCases, hwritten, keys_stripSelectCases]
      have hcases' : selectCases [] written'.reverse = .ok written'.reverse :=
        selectCases_eq_ok_iff.mpr ⟨rfl, hkeys ▸ hnodup, by simp⟩
      have hany : (written'.reverse.any fun c => c.key == "other") =
          written.reverse.any fun c => c.key == "other" := by
        have hmap := congrArg (fun keys => List.any keys (· == "other")) hkeys.symm
        simpa only [List.any_map, Function.comp_def] using hmap
      split at hclose
      · rename_i hother
        obtain rfl := Except.ok.inj hclose
        refine ⟨_, bind_eq_ok.mpr ⟨_, hcases', if_pos (hany.trans hother)⟩, ?_, rfl⟩
        rw [Element.strip, Element.strip, hwritten]
      · cases hclose

/-! ### States behind other elements -/

/-- Elements and open cases that say the same, but that in the second there are further elements
in front of the outermost message. -/
inductive Underlaid (base : List (Element Unit)) : List (Element Span) → List OpenCase →
    List (Element Span) → List OpenCase → Prop where
  | bottom {es es'} : Element.stripAll es' = putAll (Element.stripAll es) base →
      Underlaid base es [] es' []
  | case {es es' c c' outer outer'} : Element.stripAll es' = Element.stripAll es →
      c.choice.Alike c'.choice → c.key = c'.key →
      Underlaid base c.before outer c'.before outer' →
      Underlaid base es (c :: outer) es' (c' :: outer')

/-- A state in the same place of the same message, behind further elements. -/
structure State.Behind (base : List (Element Unit)) (s s' : State) : Prop where
  rows : Underlaid base s.elements s.outer s'.elements s'.outer
  place : s.place.Alike s'.place

namespace Underlaid

variable {base : List (Element Unit)} {es es' : List (Element Span)} {outer outer' : List OpenCase}

/-- Number signs have a meaning in the same places. -/
lemma any_isPlural (h : Underlaid base es outer es' outer') :
    (outer'.any fun c => c.choice.isPlural) = outer.any fun c => c.choice.isPlural := by
  induction h with
  | bottom => rfl
  | case _ hchoice _ _ ih =>
      rw [List.any_cons, List.any_cons, ih, Choice.isPlural, Choice.isPlural, hchoice.selector]

lemma pushLiteral (h : Underlaid base es outer es' outer') (value : String) (span span' : Span) :
    Underlaid base (pushLiteral value span es) outer (pushLiteral value span' es') outer' := by
  cases h with
  | bottom hes =>
      refine .bottom ?_
      rw [stripAll_pushLiteral, stripAll_pushLiteral, hes, putLiteral_putAll]
  | case hes hchoice hkey hbefore =>
      refine .case ?_ hchoice hkey hbefore
      rw [stripAll_pushLiteral, stripAll_pushLiteral, hes]

lemma cons (h : Underlaid base es outer es' outer') {e e' : Element Span}
    (he : e'.strip = e.strip) (hlit : e.isLiteral = false) :
    Underlaid base (e :: es) outer (e' :: es') outer' := by
  cases h with
  | bottom hes =>
      -- What is no literal does not join what is in front of the outermost message.
      have hput : put e.strip (putAll (Element.stripAll es) base) =
          e.strip :: putAll (Element.stripAll es) base := by
        refine put_of_apart fun _ _ hboth => ?_
        rw [isLiteral_strip, hlit] at hboth
        cases hboth.2
      refine .bottom ?_
      rw [stripAll_cons, hes, he, stripAll_cons, ← hput]
      rfl
  | case hes hchoice hkey hbefore =>
      refine .case ?_ hchoice hkey hbefore
      rw [stripAll_cons, stripAll_cons, hes, he]

end Underlaid

lemma State.run_cons_eq_ok {s next : State} {token : Token} {rest : List Token} :
    s.run (token :: rest) = .ok next ↔
      ∃ middle, s.step token = .ok middle ∧ middle.run rest = .ok next := by
  rw [State.run]
  constructor
  · intro h
    cases hstep : s.step token with
    | error e =>
        rw [hstep] at h
        cases h
    | ok middle =>
        rw [hstep] at h
        exact ⟨middle, rfl, h⟩
  · rintro ⟨middle, hstep, hrest⟩
    rw [hstep]
    exact hrest

namespace State.Behind

variable {base : List (Element Unit)} {s s' next : State}

lemma push (h : s.Behind base s') {e e' : Element Span} (he : e'.strip = e.strip)
    (hlit : e.isLiteral = false) : (s.push e).Behind base (s'.push e') :=
  ⟨h.rows.cons he hlit, .message⟩

lemma inPlural (h : s.Behind base s') : s'.inPlural = s.inPlural :=
  h.rows.any_isPlural

lemma inMessage (h : s.Behind base s') {symbol : Symbol}
    {span : Span} (hs : s.inMessage ⟨symbol, span⟩ = .ok next) (span' : Span) :
    ∃ next', s'.inMessage ⟨symbol, span'⟩ = .ok next' ∧ next.Behind base next' := by
  rw [State.inMessage] at hs ⊢
  cases symbol with
  | text value =>
      obtain rfl := Except.ok.inj hs
      exact ⟨_, rfl, h.rows.pushLiteral value span span', h.place⟩
  | hash =>
      simp only [h.inPlural] at hs ⊢
      by_cases hplural : s.inPlural = true
      · rw [if_pos hplural] at hs ⊢
        obtain rfl := Except.ok.inj hs
        exact ⟨_, rfl, h.push rfl rfl⟩
      · rw [if_neg hplural] at hs ⊢
        obtain rfl := Except.ok.inj hs
        exact ⟨_, rfl, h.rows.pushLiteral "#" span span', h.place⟩
  | leftBrace =>
      obtain rfl := Except.ok.inj hs
      exact ⟨_, rfl, h.rows, .name⟩
  -- With no case open the brace is an error in the first state. Otherwise it ends a case in both.
  | rightBrace =>
      obtain ⟨es, place, outer⟩ := s
      obtain ⟨es', place', outer'⟩ := s'
      obtain ⟨hrows, -⟩ := h
      cases hrows with
      | bottom => cases hs
      | case hes hchoice hkey hbefore =>
          obtain rfl := Except.ok.inj hs
          refine ⟨_, rfl, hbefore, .cases ⟨hchoice.arg, hchoice.selector, ?_⟩⟩
          rw [Element.stripSelectCases, Element.stripSelectCases, hchoice.cases, stripAll_reverse,
            stripAll_reverse, hes, hkey]
  | comma => cases hs
  | word => cases hs

lemma inCases (h : s.Behind base s') {choice choice' : Choice} (hchoice : choice.Alike choice')
    {symbol : Symbol} {span : Span} (hs : s.inCases choice ⟨symbol, span⟩ = .ok next)
    (span' : Span) :
    ∃ next', s'.inCases choice' ⟨symbol, span'⟩ = .ok next' ∧ next.Behind base next' := by
  rw [State.inCases] at hs ⊢
  cases symbol with
  | rightBrace =>
      obtain ⟨e, he, rfl⟩ := map_eq_ok.mp hs
      obtain ⟨e', he', hstrip, hlit⟩ := hchoice.close he span'
      exact ⟨_, map_eq_ok.mpr ⟨e', he', rfl⟩, h.push hstrip hlit⟩
  | word key =>
      obtain rfl := Except.ok.inj hs
      exact ⟨_, rfl, h.rows, .body hchoice⟩
  | _ => cases hs

lemma setOffset (h : s.Behind base s') {brace word : Span} {arg : String} {kind : Kind}
    {number : List Char} (hs : s.setOffset brace arg kind number word = .ok next)
    (brace' word' : Span) :
    ∃ next', s'.setOffset brace' arg kind number word' = .ok next' ∧ next.Behind base next' := by
  rw [State.setOffset] at hs ⊢
  split at hs
  · obtain rfl := Except.ok.inj hs
    exact ⟨_, rfl, h.rows, .cases ⟨rfl, rfl, rfl⟩⟩
  · cases hs

lemma setType (h : s.Behind base s') (brace brace' : Span) (arg name : String) :
    (s.setType brace arg name).Behind base (s'.setType brace' arg name) := by
  unfold State.setType
  split
  · exact ⟨h.rows, .plural⟩
  · exact ⟨h.rows, .plural⟩
  · exact ⟨h.rows, .select⟩
  · exact ⟨h.rows, .call⟩

/-- **A symbol does the same behind other elements.** -/
theorem step (h : s.Behind base s') {symbol : Symbol} {span : Span}
    (hs : s.step ⟨symbol, span⟩ = .ok next) (span' : Span) :
    ∃ next', s'.step ⟨symbol, span'⟩ = .ok next' ∧ next.Behind base next' := by
  have hplaces := h.place
  rw [State.step] at hs ⊢
  generalize s.place = place at hs hplaces
  generalize s'.place = place' at hplaces
  -- The places say the same, so that a symbol that the first accepts is accepted by the second.
  -- Only spans differ in what becomes of it.
  cases hplaces with
  | message => exact h.inMessage hs span'
  | name =>
      cases symbol with
      | word arg =>
          obtain rfl := Except.ok.inj hs
          exact ⟨_, rfl, h.rows, .named⟩
      | _ => cases hs
  | named =>
      cases symbol with
      | rightBrace =>
          obtain rfl := Except.ok.inj hs
          exact ⟨_, rfl, h.push rfl rfl⟩
      | comma =>
          obtain rfl := Except.ok.inj hs
          exact ⟨_, rfl, h.rows, .type⟩
      | _ => cases hs
  | type =>
      cases symbol with
      | word name =>
          obtain rfl := Except.ok.inj hs
          exact ⟨_, rfl, h.setType _ _ _ name⟩
      | _ => cases hs
  | call =>
      cases symbol with
      | rightBrace =>
          obtain rfl := Except.ok.inj hs
          exact ⟨_, rfl, h.push rfl rfl⟩
      | comma =>
          obtain rfl := Except.ok.inj hs
          exact ⟨_, rfl, h.rows, .style⟩
      | _ => cases hs
  | style =>
      cases symbol with
      | rightBrace =>
          obtain rfl := Except.ok.inj hs
          exact ⟨_, rfl, h.push rfl rfl⟩
      | comma =>
          obtain rfl := Except.ok.inj hs
          exact ⟨_, rfl, h.rows, .style⟩
      | word word =>
          obtain rfl := Except.ok.inj hs
          exact ⟨_, rfl, h.rows, .style⟩
      | _ => cases hs
  | plural =>
      cases symbol with
      | comma =>
          obtain rfl := Except.ok.inj hs
          exact ⟨_, rfl, h.rows, .offset⟩
      | _ => cases hs
  | @offset brace brace' arg kind =>
      -- A symbol that is no offset belongs to the cases already.
      have hunshifted : Choice.Alike ⟨brace, arg, .plural kind 0, []⟩
          ⟨brace', arg, .plural kind 0, []⟩ := ⟨rfl, rfl, rfl⟩
      cases symbol with
      | word word =>
          simp only at hs ⊢
          split at hs
          · exact h.inCases hunshifted hs span'
          · obtain rfl := Except.ok.inj hs
            exact ⟨_, rfl, h.rows, .offsetNumber⟩
          · exact h.setOffset hs _ _
      | _ => exact h.inCases hunshifted hs span'
  | offsetNumber =>
      cases symbol with
      | word number => exact h.setOffset hs _ _
      | _ => cases hs
  | select =>
      cases symbol with
      | comma =>
          obtain rfl := Except.ok.inj hs
          exact ⟨_, rfl, h.rows, .cases ⟨rfl, rfl, rfl⟩⟩
      | _ => cases hs
  | cases hchoice => exact h.inCases hchoice hs span'
  | body hchoice =>
      cases symbol with
      | leftBrace =>
          obtain rfl := Except.ok.inj hs
          exact ⟨_, rfl, .case rfl hchoice rfl h.rows, .message⟩
      | _ => cases hs

/-- **Symbols lead to the same state behind other elements**, as each of them does. -/
theorem run (h : s.Behind base s') {tokens tokens' : List Token} (hs : s.run tokens = .ok next)
    (htokens : tokens'.map (·.symbol) = tokens.map (·.symbol)) :
    ∃ next', s'.run tokens' = .ok next' ∧ next.Behind base next' := by
  induction tokens generalizing s s' tokens' with
  | nil =>
      obtain rfl := List.map_eq_nil_iff.mp htokens
      obtain rfl := Except.ok.inj hs
      exact ⟨s', rfl, h⟩
  | cons token rest ih =>
      rw [List.map_cons] at htokens
      obtain ⟨token', rest', rfl, htoken, hrest⟩ := List.map_eq_cons_iff.mp htokens
      obtain ⟨middle, hmiddle, hs⟩ := run_cons_eq_ok.mp hs
      obtain ⟨middle', hmiddle', hbehind⟩ := h.step hmiddle token'.span
      obtain ⟨last, hrun, hlast⟩ := ih hbehind hs hrest
      rw [← htoken] at hmiddle'
      exact ⟨last, run_cons_eq_ok.mpr ⟨middle', hmiddle', hrun⟩, hlast⟩

end State.Behind

/-! ### Texts -/

/-- An accepted text leads the parser back to the outermost message. -/
lemma run_of_parse {text : String} {es : List (Element Span)} (h : parse text = .ok es) :
    ∃ tokens, lex text = .ok tokens ∧
      State.start.run tokens = .ok ⟨es.reverse, .message, []⟩ := by
  obtain ⟨tokens, hlex, hparse⟩ := tokens_of_parse h
  obtain ⟨⟨row, place, outer⟩, hrun, hfinish⟩ := bind_eq_ok.mp hparse
  rw [State.finish] at hfinish
  split at hfinish
  · rename_i hplace houter
    obtain rfl := Except.ok.inj hfinish
    simp only at hplace houter
    subst hplace houter
    exact ⟨tokens, hlex, by rw [hrun, List.reverse_reverse]⟩
  · cases hfinish

lemma parse_of_run {text : String} {tokens : List Token} (hlex : lex text = .ok tokens)
    {row : List (Element Span)} (hrun : State.start.run tokens = .ok ⟨row, .message, []⟩) :
    parse text = .ok row.reverse :=
  bind_eq_ok.mpr ⟨tokens, hlex, bind_eq_ok.mpr ⟨_, hrun, rfl⟩⟩

/-- Literal text is read in a message only. -/
lemma step_text {s next : State} {value : String} {span : Span}
    (h : s.step ⟨.text value, span⟩ = .ok next) :
    s.place = .message ∧ next = { s with elements := pushLiteral value span s.elements } := by
  obtain ⟨es, place, outer⟩ := s
  cases place with
  | message => exact ⟨rfl, (Except.ok.inj h).symm⟩
  | _ => cases h

/-- A text that starts with literal text is read like the rest of it behind that literal. -/
lemma run_text_first {more : String} {symbols : List Symbol} {tokens : List Token} {next : State}
    (htokens : tokens.map (·.symbol) = Run.symbols 0 none more ++ symbols)
    (hrun : State.start.run tokens = .ok next) :
    ∃ es rest, Shows more es ∧ rest.map (·.symbol) = symbols ∧
      State.run ⟨es, .message, []⟩ rest = .ok next := by
  rw [Run.symbols] at htokens
  split at htokens
  · rename_i hmore
    exact ⟨[], tokens, hmore ▸ .nothing, htokens, hrun⟩
  · obtain ⟨⟨_, span⟩, rest, rfl, rfl, hrest⟩ := List.map_eq_cons_iff.mp htokens
    obtain ⟨_, hfirst, hrun⟩ := State.run_cons_eq_ok.mp hrun
    obtain rfl := Except.ok.inj hfirst
    exact ⟨[.literal more span], rest, .literal, hrest, hrun⟩

/-- Where one text ends and another one goes on, a run at the end of the first takes the literal
text at the start of the second. -/
lemma run_behind {s next : State} {last : Option Run} {stop : Cursor} {row : List (Element Span)}
    (hs : s.run (Run.flush 0 last stop []) = .ok ⟨row, .message, []⟩) {more : String}
    {symbols : List Symbol} {tokens tokens' : List Token}
    (htokens : tokens.map (·.symbol) = Run.symbols 0 none more ++ symbols)
    (htokens' : tokens'.map (·.symbol) = Run.symbols 0 last more ++ symbols)
    (hrun : State.start.run tokens = .ok next) :
    ∃ next', s.run tokens' = .ok next' ∧ next.Behind (Element.stripAll row) next' := by
  cases last with
  | none =>
      obtain rfl := Except.ok.inj hs
      have hstart : State.start.Behind (Element.stripAll row) ⟨row, .message, []⟩ :=
        ⟨.bottom rfl, .message⟩
      exact hstart.run hrun (htokens'.trans htokens.symm)
  -- The run is the last literal of the first text, and together with the start of the second one it
  -- is one literal. Both ways the same literal comes to stand on the same elements.
  | some run =>
      obtain ⟨_, hstep, hend⟩ := State.run_cons_eq_ok.mp hs
      obtain rfl := Except.ok.inj hend
      obtain ⟨hplace, hnext⟩ := step_text hstep
      obtain ⟨es, place, outer⟩ := s
      simp only [State.mk.injEq] at hplace hnext
      obtain ⟨rfl, -, rfl⟩ := hnext
      subst hplace
      obtain ⟨fs, rest, hshows, hrest, hrun⟩ := run_text_first htokens hrun
      obtain ⟨⟨_, span⟩, rest', rfl, rfl, hrest'⟩ := List.map_eq_cons_iff.mp htokens'
      have hbehind : State.Behind
          (Element.stripAll (pushLiteral run.text (run.start.to stop.offset) es))
          ⟨fs, .message, []⟩ ⟨pushLiteral (run.text ++ more) span es, .message, []⟩ := by
        refine ⟨.bottom ?_, .message⟩
        rw [stripAll_pushLiteral, stripAll_pushLiteral, hshows.putAll_putLiteral]
      obtain ⟨next', hrun', hnext'⟩ := hbehind.run hrun (hrest'.trans hrest.symm)
      exact ⟨next', State.run_cons_eq_ok.mpr ⟨_, rfl, hrun'⟩, hnext'⟩

lemma separated_stripAll {es : List (Element Span)} (h : Separated es) :
    Separated (Element.stripAll es) := by
  rw [stripAll_eq_map, Separated, List.isChain_map]
  exact h.imp fun a b hab => by rwa [isLiteral_strip, isLiteral_strip]

/-- **The elements of two texts, one behind the other.** Unless the first of two accepted texts
ends in a backslash that takes a character from the second, both together are accepted, and their
elements are those of the first and those of the second. Where two literals meet, they become
one. -/
theorem parse_append {p q : String} {es fs : List (Element Span)} (hp : parse p = .ok es)
    (hq : parse q = .ok fs) (hend : Even (backslashesAtEnd p.toList)) :
    ∃ gs, parse (p ++ q) = .ok gs ∧
      Element.stripAll gs = joined (Element.stripAll es) (Element.stripAll fs) := by
  obtain ⟨first, hlexp, hrunp⟩ := run_of_parse hp
  obtain ⟨second, hlexq, hrunq⟩ := run_of_parse hq
  obtain ⟨front, last, stop, hseam⟩ := (accepted_of_lexFrom first hlexp).seam hend none .start
  obtain ⟨more, symbols, hfinds⟩ := (accepted_of_lexFrom second hlexq).exists_finds
  -- The tokens of the first text, and of both together, up to the run that is read at the seam.
  have hfirst : first = front ++ Run.flush 0 last stop [] := by
    have hall := hseam []
    rw [List.append_nil] at hall
    exact Except.ok.inj (hlexp.symm.trans hall)
  obtain ⟨others, hothers, hsymbols⟩ := hfinds last stop
  obtain ⟨second', hsecond', hsymbolsq⟩ := hfinds none .start
  obtain rfl := Except.ok.inj (hsecond'.symm.trans hlexq)
  have hlex : lex (p ++ q) = .ok (front ++ others) := by
    rw [lex, String.toList_append, hseam, hothers]
    rfl
  -- Up to the seam both runs are the same, and behind it the second text is read behind the first.
  rw [hfirst, State.run_append] at hrunp
  obtain ⟨s, hfront, hs⟩ := bind_eq_ok.mp hrunp
  obtain ⟨⟨row, place, outer⟩, hrun, ⟨hrows, hplace⟩⟩ := run_behind hs hsymbolsq hsymbols hrunq
  cases hplace
  cases hrows with
  | bottom hrow =>
      refine ⟨row.reverse, parse_of_run hlex ?_, ?_⟩
      · rw [State.run_append, hfront]
        exact hrun
      · have hseparated := separated_stripAll (isMessage_of_parse hq).separated
        rw [stripAll_reverse, hrow, stripAll_reverse, stripAll_reverse, putAll_reverse hseparated,
          List.reverse_reverse]

end MessageCatalog.Pattern
