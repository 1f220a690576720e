/-
What the check of keys decides.

* `CompileError.IsInvalidKey`: a label that its rule does not declare;
* `raises_message`: under rules that declare nothing, there are no such errors;
* `follows_bundle`: with other switches, a compiler makes the same bundles, recast, or has the same
  errors;
* `format_recast_unchecked`: messages say the same without the check as with it;
* `checks_decide_acceptance`: the check decides which sources are compiled, and nothing else.
-/
import MessageCatalog.Plural.Language
import MessageCatalog.Proofs.Catalog.Switches
import MessageCatalog.Proofs.Module.Link
import MessageCatalog.Proofs.Traversal

namespace MessageCatalog

open Pattern (Case Element)
open Plural (Key Kind Rule)

/-! ### Invalid keys -/

/-- The error for a label that the rule does not declare. -/
def StatementError.IsInvalidKey : StatementError → Prop
  | .invalidKey .. => True
  | .unknownFormatter .. => False

/-- The error for a label that the rule does not declare. -/
def CompileError.IsInvalidKey : CompileError → Prop
  | .statement error => error.IsInvalidKey
  | _ => False

/-- The check of keys has no other errors. -/
lemma raises_checkKeys (rule : Rule) (arg : String) (kind : Kind) (keys : List Key) :
    Raises StatementError.IsInvalidKey (checkKeys rule arg kind keys) := by
  rw [checkKeys]
  split
  · exact .ok _
  · split
    · exact .ok _
    · exact .error trivial

/-- A rule that declares nothing allows all keys. -/
lemma checkKeys_undeclared (rule : Rule) (arg : String) (kind : Kind) (keys : List Key) :
    checkKeys rule.undeclared arg kind keys = .ok () := by
  rw [checkKeys]
  cases kind <;> rfl

/-- Without the check, the errors for invalid keys go away. -/
lemma Context.spares_unchecked (context : Context) {s : Switches} (h : s.checkKeys = false) :
    context.Spares s StatementError.IsInvalidKey := by
  intro arg kind keys
  have hrule : s.rule context.rule = context.rule.undeclared := by
    rw [Switches.rule, h]
    rfl
  rw [hrule, checkKeys_undeclared]
  exact ⟨fun _ _ => rfl, fun e he => .inl (raises_checkKeys _ _ _ _ e he)⟩

/-! ### Compilation without the check -/

section Unchecked

variable {σ : Type} {context : Context}

mutual

/-- **Under a rule that declares nothing, no key of an element is invalid.** -/
theorem raises_element (hrule : context.rule.undeclared = context.rule) (scope : Option Scope) :
    ∀ e : Element σ, Raises (fun e => ¬e.IsInvalidKey) (Compile.element context scope e)
  | .literal value _ => by
      rw [Compile.element]
      exact .ok _
  | .argument name _ => by
      rw [Compile.element]
      exact .ok _
  | .call arg name style _ => by
      rw [Compile.element, Compile.call]
      split
      · exact .ok _
      · exact .error not_false
  | .plural arg kind offset cases _ => by
      rw [Compile.element, ← hrule, checkKeys_undeclared]
      exact (raises_pluralCases hrule _ cases).bind fun branches => .ok _
  | .select arg cases _ => by
      rw [Compile.element]
      exact (raises_selectCases hrule scope cases).bind fun branches => .ok _
  | .numberSign _ => by
      rw [Compile.element]
      exact .ok _

theorem raises_elements (hrule : context.rule.undeclared = context.rule) (scope : Option Scope) :
    ∀ es : List (Element σ), Raises (fun e => ¬e.IsInvalidKey) (Compile.elements context scope es)
  | [] => .ok _
  | e :: rest => by
      rw [Compile.elements]
      refine (raises_element hrule scope e).bind fun node => ?_
      exact (raises_elements hrule scope rest).bind fun others => .ok _

theorem raises_pluralCases (hrule : context.rule.undeclared = context.rule)
    (scope : Option Scope) : ∀ cases : List (Case Key σ (Element σ)),
      Raises (fun e => ¬e.IsInvalidKey) (Compile.pluralCases context scope cases)
  | [] => .ok _
  | ⟨key, body, _⟩ :: rest => by
      rw [Compile.pluralCases]
      refine (raises_elements hrule scope body).bind fun nodes => ?_
      exact (raises_pluralCases hrule scope rest).bind fun others => .ok _

theorem raises_selectCases (hrule : context.rule.undeclared = context.rule)
    (scope : Option Scope) : ∀ cases : List (Case String σ (Element σ)),
      Raises (fun e => ¬e.IsInvalidKey) (Compile.selectCases context scope cases)
  | [] => .ok _
  | ⟨key, body, _⟩ :: rest => by
      rw [Compile.selectCases]
      refine (raises_elements hrule scope body).bind fun nodes => ?_
      exact (raises_selectCases hrule scope rest).bind fun others => .ok _

end

/-- Under a rule that declares nothing, no key of a pattern is invalid. -/
theorem raises_message (hrule : context.rule.undeclared = context.rule)
    (pattern : List (Element σ)) :
    Raises (fun e => ¬e.IsInvalidKey) (Compile.message context pattern) :=
  (raises_elements hrule none pattern).bind fun _ => .ok _

end Unchecked

/-! ### Rendering -/

/-- Nodes say the same, whether the rules of their plurals declare categories or not. -/
lemma Switches.relates_unchecked (args : Arguments) (s : Switches) :
    Relates args s { s with checkKeys := false } (fun _ x x' => x = x') where
  nil := rfl
  same _ _ _ := rfl
  numberSign _ _ := rfl
  append h hy := by rw [h, hy]
  apart h := congrArg s.apart h

/-- **Messages say the same without the check as with it.** -/
theorem Message.format_recast_unchecked {m : LiveMessage} {s : Switches} (h : m.recast s = m)
    (args : Arguments) : (m.recast { s with checkKeys := false }).format args = m.format args := by
  have hformat := (Switches.relates_unchecked args s).format m
  rw [h] at hformat
  exact hformat.symm

namespace Compiler

variable {compiler : Compiler}

/-- **With other switches, a compiler makes the same bundle of a source, recast, or has the same
error.** -/
theorem follows_bundle {s : Switches} {spared : CompileError → Prop}
    (h : ∀ locale text, Follows (Message.recast s) spared (compiler.pattern locale text)
      ((compiler.switch s).pattern locale text)) (locale : Option String) (source : Source) :
    Follows (Bundle.map (Message.recast s)) spared (compiler.bundle locale source)
      ((compiler.switch s).bundle locale source) := by
  rw [bundle, bundle]
  refine (Follows.refl (compiler.select locale)).bind fun selected _ => ?_
  split
  · exact .error _
  · exact Bundle.follows_traverse h source selected

/-- Without the check, no key of a pattern is invalid. -/
lemma raises_pattern (h : compiler.checkKeys = false) (locale text : String) :
    Raises (fun e => ¬e.IsInvalidKey) (compiler.pattern locale text) := by
  intro e he
  rw [pattern] at he
  rcases bind_eq_error.mp he with hrule | ⟨rule, hrule, he⟩
  · rw [Compiler.rule] at hrule
    obtain ⟨_, _, rfl⟩ := mapError_eq_error.mp hrule
    exact not_false
  rcases bind_eq_error.mp he with hparse | ⟨elements, _, he⟩
  · obtain ⟨_, _, rfl⟩ := mapError_eq_error.mp hparse
    exact not_false
  obtain ⟨e', he', rfl⟩ := mapError_eq_error.mp he
  have hself : rule.undeclared = rule := rule_eq_self (s := ⟨false, false, false⟩) hrule h.symm
  exact raises_message hself elements e' he'

/-- The errors of the choice of a locale are no invalid keys. -/
lemma raises_select (locale : Option String) :
    Raises (fun e => ¬e.IsInvalidKey) (compiler.select locale) := by
  intro e he
  obtain ⟨_, _, rfl⟩ := mapError_eq_error.mp he
  exact not_false

/-- Without the check, no key of a source is invalid. -/
lemma raises_bundle (h : compiler.checkKeys = false) (locale : Option String) (source : Source) :
    Raises (fun e => ¬e.IsInvalidKey) (compiler.bundle locale source) := by
  rw [bundle]
  refine (raises_select locale).bind fun selected => ?_
  split
  · exact .error not_false
  · have hpattern : ∀ context text, True →
        Raises (fun e => ¬e.IsInvalidKey) (compiler.pattern context text) :=
      fun context text _ => raises_pattern h context text
    exact Bundle.raises_traverse (fun _ _ _ => trivial) hpattern source selected trivial

/-! ### Acceptance -/

/-- What is compiled with the check of keys is also compiled without it, and says the same. An error
with the check is an error without it, unless it is for an invalid key. Without the check, no error
is. -/
structure DecidesAcceptance {α : Type} (alike : α → α → Prop)
    (checked unchecked : Except CompileError α) : Prop where
  accepted : ∀ a, checked = .ok a → ∃ a', unchecked = .ok a' ∧ alike a a'
  rejected : ∀ e, checked = .error e → ¬e.IsInvalidKey → unchecked = .error e
  permits : ∀ e, unchecked = .error e → ¬e.IsInvalidKey

lemma decidesAcceptance_of_follows {α : Type} {alike : α → α → Prop}
    {checked unchecked : Except CompileError α} {f : α → α}
    (h : Follows f CompileError.IsInvalidKey checked unchecked)
    (hsame : ∀ a, checked = .ok a → alike a (f a))
    (hraises : Raises (fun e => ¬e.IsInvalidKey) unchecked) :
    DecidesAcceptance alike checked unchecked where
  accepted a ha := ⟨f a, h.1 a ha, hsame a ha⟩
  rejected e he hkey := (h.2 e he).resolve_left hkey
  permits := hraises

/-- **The check of keys decides what is compiled, and nothing else.** Two compilers that differ only
in this check make messages that say the same for all arguments, and bundles that say the same at
every path. -/
theorem checks_decide_acceptance (compiler : Compiler) (locale : Option String) :
    let checked : Compiler := { compiler with checkKeys := true }
    let unchecked : Compiler := { compiler with checkKeys := false }
    (∀ text, DecidesAcceptance (fun m m' => ∀ args, m'.format args = m.format args)
      (checked.message locale text) (unchecked.message locale text)) ∧
    ∀ source, DecidesAcceptance (fun b b' => (∀ args, b'.format args = b.format args) ∧
        ∀ path args, b'.formatAt path args = b.formatAt path args)
      (checked.bundle locale source) (unchecked.bundle locale source) := by
  intro checked unchecked
  let s : Switches := ⟨false, compiler.strict, compiler.isolate⟩
  -- Without checks the compiler does the same, but with other rules and without invalid keys.
  have hfollows : ∀ locale text, Follows (Message.recast s) CompileError.IsInvalidKey
      (checked.pattern locale text) (unchecked.pattern locale text) :=
    fun locale text => follows_pattern (s := s) (fun _ h => h) (fun h => nomatch h)
      (fun rule _ => (checked.context locale rule).spares_unchecked rfl) text
  have hsame {locale text : String} {m : LiveMessage} (h : checked.pattern locale text = .ok m)
      (args : Arguments) : (m.recast s).format args = m.format args :=
    Message.format_recast_unchecked (recast_pattern h) args
  refine ⟨fun text => ?_, fun source => ?_⟩
  · refine decidesAcceptance_of_follows
      ((Follows.refl (checked.select locale)).bind fun selected _ => hfollows selected text)
      (fun m hm => ?_)
      ((raises_select locale).bind fun selected => raises_pattern rfl selected text)
    obtain ⟨selected, _, hpattern⟩ := bind_eq_ok.mp hm
    exact hsame hpattern
  · refine decidesAcceptance_of_follows (follows_bundle hfollows locale source)
      (fun b hb => ?_) (raises_bundle rfl locale source)
    obtain ⟨selected, htraverse⟩ := bundle_eq_ok hb
    have hitems := Bundle.forall_items_of_traverse (fun _ _ _ hm => hsame hm) htraverse
    exact ⟨Bundle.format_congr hitems, Bundle.formatAt_congr hitems⟩

/-- Two labels of English pass the check, one of them in a plural below the other. A call that names
no formatter is an error with the check and without it. -/
theorem checks_decide_acceptance_english :
    let checked : Compiler := ⟨⟨Plural.languages, ["en"], "en"⟩, {}, true, true, true⟩
    let unchecked : Compiler := { checked with checkKeys := false }
    let source : Source := .group [("en", .group
      [("files", .one "{n, plural, one{{n, selectordinal, two{#} other{}}} other{#}}")])]
    ∃ b b', checked.bundle none source = .ok b ∧ unchecked.bundle none source = .ok b' ∧
      (∀ path args, b'.formatAt path args = b.formatAt path args) ∧
      ∃ e, checked.message none "{n, shout}" = .error e ∧ ¬e.IsInvalidKey ∧
        unchecked.message none "{n, shout}" = .error e := by
  intro checked unchecked source
  have hok : passes (fun _ => true) (checked.bundle none source) = true := by decide +kernel
  obtain ⟨b, hb, _⟩ := passes_eq_true hok
  have hfails : fails (fun e => decide (e = .statement (.unknownFormatter "shout" "n")))
      (checked.message none "{n, shout}") = true := by
    decide +kernel
  obtain ⟨e, herror, he⟩ := fails_eq_true hfails
  obtain rfl := of_decide_eq_true he
  obtain ⟨hmessages, hbundles⟩ := checks_decide_acceptance checked none
  obtain ⟨b', hb', _, hformatAt⟩ := (hbundles source).accepted b hb
  exact ⟨b, b', hb, hb', hformatAt, _, herror, not_false,
    (hmessages "{n, shout}").rejected _ herror not_false⟩

end Compiler

end MessageCatalog
