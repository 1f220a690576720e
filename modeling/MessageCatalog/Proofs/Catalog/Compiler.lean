/-
What bundles of compiled messages are like.

* `ordered_bundle`: the keys of a compiled source are in order, as those of the source are;
* `made_bundle`: all its messages have finite offsets and complete choices;
* `holds_bundle`: it has no rules and formatters but those of its compiler.
-/
import MessageCatalog.Catalog.Compiler
import MessageCatalog.Proofs.Bundle
import MessageCatalog.Proofs.Message.Compiled
import MessageCatalog.Proofs.Pattern.Acceptance

namespace MessageCatalog.Compiler

variable {compiler : Compiler}

/-- A pattern is compiled by way of its elements. -/
lemma pattern_eq_ok {locale text : String} {m : LiveMessage}
    (h : compiler.pattern locale text = .ok m) :
    ∃ rule elements, compiler.rule locale = .ok rule ∧ Pattern.parse text = .ok elements ∧
      Compile.message (compiler.context locale rule) elements = .ok m := by
  rw [pattern] at h
  obtain ⟨rule, hrule, h⟩ := bind_eq_ok.mp h
  obtain ⟨elements, helements, h⟩ := bind_eq_ok.mp h
  exact ⟨rule, elements, hrule, mapError_eq_ok.mp helements, mapError_eq_ok.mp h⟩

/-- The message of any text has finite offsets and complete choices. -/
theorem made_pattern {locale text : String} {m : LiveMessage}
    (h : compiler.pattern locale text = .ok m) : Node.AllOf Node.Made m.nodes := by
  obtain ⟨rule, elements, _, hparse, hmessage⟩ := pattern_eq_ok h
  obtain ⟨tokens, hlex, htokens⟩ := Pattern.tokens_of_parse hparse
  have hwell := Pattern.isMessage_of_parseTokens (Pattern.lex_wellFormed hlex) htokens
  exact all_made_message hwell.wellFormed hmessage

/-- Rules and formatters that a compiler has. -/
structure Holds (compiler : Compiler) (rules : List Plural.Rule)
    (formatters : List Formatting.Formatter) : Prop where
  rule : ∀ rule ∈ rules, ∃ locale, compiler.rule locale = .ok rule
  formatter : ∀ formatter ∈ formatters, ∃ name, compiler.registry.resolve? name = some formatter

/-- The message of any text has no rules and formatters but those of its compiler. -/
theorem holds_pattern {locale text : String} {m : LiveMessage}
    (h : compiler.pattern locale text = .ok m) :
    compiler.Holds (Node.rulesOfAll m.nodes) (Node.formattersOfAll m.nodes) := by
  obtain ⟨rule, elements, hrule, _, hmessage⟩ := pattern_eq_ok h
  have hholds := holds_message hmessage
  exact ⟨fun r hr => ⟨locale, (hholds.rule r hr).symm ▸ hrule⟩, hholds.formatter⟩

section Bundles

variable {locale : Option String} {source : Source} {b : Bundle LiveMessage}

/-- A bundle is what a visit of all patterns of its source makes. -/
lemma bundle_eq_ok (h : compiler.bundle locale source = .ok b) :
    ∃ selected, source.traverse compiler.localeBelow compiler.pattern selected = .ok b := by
  rw [bundle] at h
  obtain ⟨selected, _, h⟩ := bind_eq_ok.mp h
  split at h
  · cases h
  · exact ⟨selected, h⟩

/-- The keys of a compiled source are in order. -/
theorem ordered_bundle (ho : source.Ordered) (h : compiler.bundle locale source = .ok b) :
    b.Ordered := by
  obtain ⟨selected, htraverse⟩ := bundle_eq_ok h
  exact Bundle.ordered_of_traverse ho htraverse

/-- All messages of a compiled source have finite offsets and complete choices. -/
theorem made_bundle (h : compiler.bundle locale source = .ok b) :
    ∀ m ∈ b.items, Node.AllOf Node.Made m.nodes := by
  obtain ⟨selected, htraverse⟩ := bundle_eq_ok h
  exact Bundle.forall_items_of_traverse (fun _ _ _ hm => made_pattern hm) htraverse

/-- A compiled source has no rules and formatters but those of its compiler. -/
theorem holds_bundle (h : compiler.bundle locale source = .ok b) :
    compiler.Holds (Module.rulesOf b) (Module.formattersOf b) := by
  obtain ⟨selected, htraverse⟩ := bundle_eq_ok h
  have hitems := Bundle.forall_items_of_traverse (fun _ _ _ hm => holds_pattern hm) htraverse
  constructor
  · intro r hr
    obtain ⟨m, hm, hr⟩ := List.mem_flatMap.mp hr
    exact (hitems m hm).rule r hr
  · intro f hf
    obtain ⟨m, hm, hf⟩ := List.mem_flatMap.mp hf
    exact (hitems m hm).formatter f hf

end Bundles

end MessageCatalog.Compiler
