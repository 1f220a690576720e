/-
Plural keys from patterns to modules and back.

A key is read when a pattern is parsed, compared with the other keys of its statement as it is
shown, written into a module as it is shown, and read again when the module is loaded.

* `keysRead_bundle`, `keysRead_load`: the keys of all bundles that are compiled or loaded have been
  read from texts;
* `Spares`, `yields_load`: such a bundle is loaded from its module with the same keys, unless there
  is an error that has nothing to do with keys;
* `keys_normalised`: reading and showing keys fit together wherever they are used.
-/
import MessageCatalog.Proofs.Module.Labels
import MessageCatalog.Proofs.Module.Reexport
import MessageCatalog.Proofs.Pattern.Duplicates

namespace MessageCatalog

open Formatting (Formatter)
open Pattern (Choice Completes)
open Plural (Key Rule)

/-- The keys of everything that is compiled have been read. -/
lemma Compiler.keysRead_bundle {compiler : Compiler} {locale : Option String} {source : Source}
    {b : Bundle LiveMessage} (h : compiler.bundle locale source = .ok b) :
    ∀ m ∈ b.items, Node.AllOf Node.KeysRead m.nodes :=
  fun m hm => Node.AllOf.imp (fun _ hnode => hnode.keysRead) m.nodes (made_bundle h m hm)

namespace Module

/-- The keys of everything that is loaded have been read. -/
lemma keysRead_load {text : String} {host : Host} {b : Bundle LiveMessage}
    (h : load text host = .ok b) : ∀ m ∈ b.items, Node.AllOf Node.KeysRead m.nodes := by
  rw [load] at h
  split at h
  · rename_i m _
    obtain ⟨entry, -, -, hlinked⟩ := (admitted_of_link h).keys
    have hhanded : Node.HandedOn host (Entries.keys m.locales) (fun _ => True) Node.KeysRead := by
      intro stored live hlinked _
      cases hlinked with
      | plural listed given other inner =>
          intro c hc
          obtain ⟨stored, -, hread⟩ := key_of_linked inner hc
          exact ⟨stored.key, hread⟩
      | _ => trivial
    intro live hlive
    obtain ⟨stored, -, -, hnodes⟩ := exists_of_forall₂ hlinked hlive
    exact hnodes.all hhanded
      (Node.allOf_iff.mpr fun node _ => Node.all_of_forall (fun _ => trivial) node)
  · cases h

/-! ### Keys in modules -/

/-- An error that has nothing to do with plural keys. -/
def LoadError.Spares (e : LoadError) : Prop :=
  ∀ key, e ≠ .invalid (.badKey key)

section Load

variable {host : Host}

lemma yields_formatter (formatter : Formatter) :
    Yields LoadError.Spares (host.formatterFor formatter) (host.formatter formatter.reference) := by
  rw [Host.formatter, Host.formatterFor]
  cases host.formatter? formatter.reference with
  | none => exact .error _ fun _ h => by cases h
  | some given => exact .ok given

lemma yields_rule {imported : List String} {rules : Entries Rule}
    (hrules : ImportedFrom host imported rules) (rule : Rule) :
    Yields LoadError.Spares (host.ruleFor rule)
      ((Linking.imported host rules).rule rule.locale) := by
  simp only [Linking.imported]
  split
  · rename_i given hget
    rw [Host.ruleFor, (hrules _ _ hget).2]
    exact .ok given
  · exact .error _ fun _ h => by cases h

/-- **A key that is written into a module comes back as the same key.** Whatever else keeps a module
from being loaded, its keys do not; and what is loaded is the bundle with the keys that it had. -/
theorem yields_load {b : Bundle LiveMessage} {target : Target} {m : Module} (ho : b.Ordered)
    (hkeys : ∀ m ∈ b.items, Node.AllOf Node.KeysRead m.nodes)
    (hmodule : ofBundle b target = .ok m) :
    Yields LoadError.Spares (host.rebind b) (load m.text host) := by
  rw [load]
  rcases parse?_text_cases (ordered_ofBundle ho hmodule) with ⟨-, hread⟩ | ⟨-, hread⟩
  · rw [hread]
    show Yields LoadError.Spares (host.rebind b) (m.link host)
    rw [link_eq_linkBundle hmodule]
    -- Imports have errors of their own, none of which is about a key.
    cases hrules : importRules host (importsOf b) with
    | error e =>
        refine .error _ ?_
        rcases importRules_eq_error hrules with ⟨_, -, rfl, -⟩ | ⟨_, _, _, rfl⟩
        all_goals exact fun _ h => by cases h
    | ok rules =>
        cases hformatters : importFormatters host (referencesOf b) with
        | error e =>
            refine .error _ ?_
            obtain ⟨_, -, rfl, -⟩ := importFormatters_eq_error hformatters
            exact fun _ h => by cases h
        | ok _ =>
            have hfrom := (imports_of_importRules hrules).2
            exact yields_linkBundle
              (fun m hm => Node.AllOf.imp (fun _ h => ⟨h, .inr fun _ _ h => by cases h⟩) m.nodes
                (hkeys m hm))
              (fun formatter _ => yields_formatter formatter) fun rule _ => yields_rule hfrom rule
  · rw [hread]
    exact .error _ fun _ h => by cases h

end Load

/-- **Plural keys are normalised consistently.** A text is read as a key if and only if it is one of
the spellings of the key: a label, or an equals sign and the digits of a number of the signed
64-bit range, with any leading zeros and a sign. A key that has been read is read back from its own
text, and two such keys have the same text if and only if they are equal. So a plural whose keys can
all be read is rejected for a duplicate, although the texts of keys are compared, exactly if two of
its keys are equal, and a text is rejected for one exactly if one of its statements repeats a key,
at the place of the first one that does. And the keys of everything that is compiled or loaded have
been read; so no key keeps its module from being loaded, and what is loaded has all keys as they
were. -/
theorem keys_normalised :
    (∀ text key, Key.ofText? text = some key ↔ key.SpelledAs text) ∧
    (∀ text key, Key.ofText? text = some key → Key.ofText? key.text = some key) ∧
    (∀ s t a b, Key.ofText? s = some a → Key.ofText? t = some b → (a.text = b.text ↔ a = b)) ∧
    (∀ (choice : Choice) brace, choice.isPlural = true →
      (∀ c ∈ choice.cases, Key.ofText? c.key ≠ none) →
      ((∃ span, choice.close brace = .error ⟨.duplicateKey, span⟩) ↔
        ¬(choice.cases.map fun c => Key.ofText? c.key).Nodup)) ∧
    (∀ text span, Pattern.parse text = .error ⟨.duplicateKey, span⟩ ↔
      ∃ choice, Completes text choice ∧ choice.RepeatsAt span) ∧
    (∀ (compiler : Compiler) locale source b, compiler.bundle locale source = .ok b →
      ∀ m ∈ b.items, Node.AllOf Node.KeysRead m.nodes) ∧
    (∀ text host b, load text host = .ok b → ∀ m ∈ b.items, Node.AllOf Node.KeysRead m.nodes) ∧
    ∀ b target m host, b.Ordered → (∀ m ∈ b.items, Node.AllOf Node.KeysRead m.nodes) →
      ofBundle b target = .ok m →
      load m.text host = .ok (host.rebind b) ∨
        ∃ e, load m.text host = .error e ∧ ∀ key, e ≠ .invalid (.badKey key) :=
  ⟨fun _ _ => Key.ofText?_eq_some_iff, fun _ _ => Key.ofText?_text,
    fun _ _ _ _ => Key.text_eq_iff,
    fun _ brace hplural hread => Choice.close_plural_duplicate_iff hplural hread brace,
    fun _ _ => Pattern.parse_eq_duplicate_iff, fun _ _ _ _ => Compiler.keysRead_bundle,
    fun _ _ _ => keysRead_load, fun _ _ _ _ => yields_load⟩

/-- Padded and signed spellings, both ends of the range, a statement and a text that repeat a key in
two spellings, and a module that is made of such keys and loaded. -/
theorem keys_normalised_padded :
    let compiler : Compiler := ⟨⟨Plural.languages, ["en"], "en"⟩, {}, true, true, true⟩
    let source : Source := .one "{n, plural, =+01{one} =-0{none} other{#}}"
    let host : Host := { rules := Plural.languages }
    let choice : Choice := ⟨⟨0, 1, 1, 1⟩, "n", .plural .cardinal 0,
      [⟨"other", [], ⟨25, 33, 1, 26⟩⟩, ⟨"=01", [], ⟨18, 24, 1, 19⟩⟩, ⟨"=1", [], ⟨12, 17, 1, 13⟩⟩]⟩
    (Key.exact 1).SpelledAs "=+01" ∧
    Key.ofText? (Key.exact (-9223372036854775808)).text = some (.exact (-9223372036854775808)) ∧
    Key.ofText? (Key.exact 9223372036854775807).text = some (.exact 9223372036854775807) ∧
    ((Key.exact 0).text = (Key.label "0").text ↔ Key.exact 0 = Key.label "0") ∧
    (∃ span, choice.close ⟨33, 34, 1, 34⟩ = .error ⟨.duplicateKey, span⟩) ∧
    (∃ choice, Completes "{n, plural, =1{a} =01{b} other{c}}" choice ∧
      choice.RepeatsAt ⟨18, 24, 1, 19⟩) ∧
    ∃ b m, compiler.bundle none source = .ok b ∧ ofBundle b .default = .ok m ∧ b.Ordered ∧
      (∀ m ∈ b.items, Node.AllOf Node.KeysRead m.nodes) ∧
      load m.text host = .ok (host.rebind b) ∧
      ∀ m ∈ (host.rebind b).items, Node.AllOf Node.KeysRead m.nodes := by
  intro compiler source host choice
  obtain ⟨hspelled, htext, hiff, hclose, hparse, hcompiled, hloaded, hload⟩ := keys_normalised
  have hlow : Key.ofText? "=-009223372036854775808" = some (.exact (-9223372036854775808)) := by
    decide
  have hhigh : Key.ofText? "=9223372036854775807" = some (.exact 9223372036854775807) := by decide
  have hzero : Key.ofText? "=-0" = some (.exact 0) := by decide
  have hlabel : Key.ofText? "0" = some (.label "0") := by decide
  have htest : fails (fun e => decide (e = ⟨.duplicateKey, ⟨18, 24, 1, 19⟩⟩))
      (Pattern.parse "{n, plural, =1{a} =01{b} other{c}}") = true := by decide +kernel
  obtain ⟨_, hrepeat, herror⟩ := fails_eq_true htest
  obtain rfl := of_decide_eq_true herror
  refine ⟨(hspelled _ _).mp (by decide), htext _ _ hlow, htext _ _ hhigh,
    hiff _ _ _ _ hzero hlabel, (hclose choice _ rfl (by decide)).mpr (by decide),
    (hparse _ _).mp hrepeat, ?_⟩
  have hok : passes (fun b => passes (fun m => decide ((json m).depth ≤ Json.nestingLimit))
      (ofBundle b .default)) (compiler.bundle none source) = true := by
    decide +kernel
  obtain ⟨b, hcompile, hok⟩ := passes_eq_true hok
  obtain ⟨m, hmodule, hdepth⟩ := passes_eq_true hok
  have hnames : ∀ name rule, compiler.resolver.provider name = some rule → rule.locale = name := by
    intro name rule hrule
    obtain ⟨family, _, rfl⟩ := Option.map_eq_some_iff.mp hrule
    rfl
  obtain ⟨f, hlink, -⟩ := link_ofBundle (Compiler.made_bundle hcompile) hmodule
    (Host.supplies_bundle hnames hcompile : host.Supplies b)
  have hsource : source.Ordered := trivial
  have ho : b.Ordered := Compiler.ordered_bundle hsource hcompile
  have hkeys := hcompiled compiler none source b hcompile
  rcases hload b .default m host ho hkeys hmodule with h | ⟨e, herror, -⟩
  · exact ⟨b, m, hcompile, hmodule, ho, hkeys, h, hloaded m.text host _ h⟩
  · rw [load_eq_link hsource hcompile hmodule (of_decide_eq_true hdepth), hlink] at herror
    cases herror

end Module

end MessageCatalog
