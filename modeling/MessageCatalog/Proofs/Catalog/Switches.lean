/-
Compilers with other switches.

* `Compiler.switch`: the same compiler with other switches;
* `follows_pattern`: it makes the same messages, recast, or has the same errors;
* `message_switch`: which errors there are does not depend on switches other than the one for keys.
-/
import MessageCatalog.Proofs.Catalog.Compiler
import MessageCatalog.Proofs.Message.Switches

namespace MessageCatalog

open Plural (Rule)

/-- A resolver that leaves out the categories of rules finds the same rules as one that need not. -/
lemma Locale.Resolver.follows_resolve (resolver : Locale.Resolver) {wide narrow : Bool}
    (h : narrow = true → wide = true) (locale : String) :
    Follows (fun rule : Rule => if narrow then rule else rule.undeclared) (fun _ => False)
      (resolver.resolve locale wide) (resolver.resolve locale narrow) := by
  rw [resolve, resolve]
  cases Id.parse locale with
  | error _ => exact .error _
  | ok id =>
      cases hfound : (id.lineage.map Id.text).findSome? resolver.provider with
      | none =>
          simp only [hfound]
          exact .error _
      | some rule =>
          simp only [hfound]
          cases narrow with
          | true =>
              obtain rfl := h rfl
              exact .ok rfl
          | false => exact .ok (by cases wide <;> rfl)

section Traverse

variable {α β β' γ ε : Type} {enter : γ → String → γ} {visit : γ → α → Except ε β}
  {visit' : γ → α → Except ε β'} {f : β → β'} {spared : ε → Prop}

mutual

/-- A visit follows another one if it does so at every item. -/
theorem Bundle.follows_traverse
    (h : ∀ context a, Follows f spared (visit context a) (visit' context a)) :
    ∀ (b : Bundle α) (context : γ), Follows (Bundle.map f) spared
      (b.traverse enter visit context) (b.traverse enter visit' context)
  | .one a, context => (h context a).map fun _ => rfl
  | .group entries, context => (follows_traverseEntries h entries context).map fun _ => rfl

theorem Bundle.follows_traverseEntries
    (h : ∀ context a, Follows f spared (visit context a) (visit' context a)) :
    ∀ (entries : List (String × Bundle α)) (context : γ), Follows (Bundle.mapEntries f) spared
      (traverseEntries enter visit context entries) (traverseEntries enter visit' context entries)
  | [], _ => .ok rfl
  | (key, b) :: rest, context => by
      rw [traverseEntries, traverseEntries]
      refine (follows_traverse h b _).bind fun first _ => ?_
      refine (follows_traverseEntries h rest context).bind fun others _ => ?_
      exact .ok rfl

end

end Traverse

namespace Compiler

/-- The switches of a compiler. -/
def switches (compiler : Compiler) : Switches :=
  ⟨compiler.checkKeys, compiler.strict, compiler.isolate⟩

/-- The same compiler with other switches. -/
def switch (compiler : Compiler) (s : Switches) : Compiler :=
  { compiler with checkKeys := s.checkKeys, strict := s.strict, isolate := s.isolate }

variable {compiler : Compiler} {s : Switches}

/-- A compiler has the rules that its switches want. -/
lemma rule_eq_self {locale : String} {rule : Rule} (h : compiler.rule locale = .ok rule)
    (hs : s.checkKeys = compiler.checkKeys) : s.rule rule = rule := by
  rw [Compiler.rule, mapError_eq_ok, Locale.Resolver.resolve] at h
  rw [Switches.rule, hs]
  split at h
  · cases h
  · split at h
    · obtain rfl := Except.ok.inj h
      cases compiler.checkKeys <;> rfl
    · cases h

/-- A locale has the same rule, as far as it is wanted. -/
lemma follows_rule (hs : s.checkKeys = true → compiler.checkKeys = true)
    {spared : CompileError → Prop} (locale : String) :
    Follows s.rule spared (compiler.rule locale) ((compiler.switch s).rule locale) :=
  (compiler.resolver.follows_resolve hs locale).mapError fun _ => False.elim

/-- **With other switches, a compiler makes the same message of a pattern, recast, or has the same
error.** -/
theorem follows_pattern {spared : StatementError → Prop} {spared' : CompileError → Prop}
    (hspared : ∀ e, spared e → spared' (.statement e))
    (hs : s.checkKeys = true → compiler.checkKeys = true) {locale : String}
    (hkeys : ∀ rule, compiler.rule locale = .ok rule →
      (compiler.context locale rule).Spares s spared) (text : String) :
    Follows (Message.recast s) spared' (compiler.pattern locale text)
      ((compiler.switch s).pattern locale text) := by
  rw [pattern, pattern]
  refine (follows_rule hs locale).bind fun rule hrule => ?_
  refine (Follows.refl _).bind fun elements _ => ?_
  exact (follows_message (hkeys rule hrule) elements).mapError hspared

/-- Nothing changes if the switches stay. -/
lemma recast_pattern {locale text : String} {m : LiveMessage}
    (h : compiler.pattern locale text = .ok m) : m.recast compiler.switches = m := by
  have hfollows : Follows (Message.recast compiler.switches) (fun _ => False)
      (compiler.pattern locale text) (compiler.pattern locale text) :=
    follows_pattern (s := compiler.switches) (fun _ => False.elim) (fun hkeys => hkeys)
      (fun rule hrule => Context.spares_of_rule (rule_eq_self hrule rfl)) text
  have hm := hfollows.1 m h
  rw [h] at hm
  exact (Except.ok.inj hm).symm

/-- **Whether a pattern has a message does not depend on switches other than the one for keys.** The
messages are the same, recast. -/
theorem message_switch (compiler : Compiler) (s : Switches)
    (hs : s.checkKeys = compiler.checkKeys) (locale : Option String) (text : String) :
    (∃ e, compiler.message locale text = .error e ∧
        (compiler.switch s).message locale text = .error e) ∨
      ∃ selected m, compiler.pattern selected text = .ok m ∧
        compiler.message locale text = .ok m ∧
        (compiler.switch s).message locale text = .ok (m.recast s) := by
  have hselect : (compiler.switch s).select locale = compiler.select locale := rfl
  rw [message, message, hselect]
  cases compiler.select locale with
  | error e => exact .inl ⟨e, rfl, rfl⟩
  | ok selected =>
      have hfollows : Follows (Message.recast s) (fun _ => False)
          (compiler.pattern selected text) ((compiler.switch s).pattern selected text) :=
        follows_pattern (fun _ => False.elim) (fun hkeys => hs ▸ hkeys)
          (fun rule hrule => Context.spares_of_rule (rule_eq_self hrule hs)) text
      rcases hfollows.cases with herror | ⟨m, hm, hm'⟩
      · exact .inl herror
      · exact .inr ⟨selected, m, hm, hm, hm'⟩

end Compiler

end MessageCatalog
