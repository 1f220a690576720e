/-
What gets past the loader.

A text may be anything, and nothing is known of who wrote it.

* `Node.LinkedTo`, `Message.LinkedTo`: stored nodes and live ones in their places, with the rules
  and formatters that a host has under the names that are stored;
* `linkNode_linkedTo`: what is linked without an error is linked so;
* `LinkedTo.all`: what linking hands on to each node, it hands on to the whole tree;
* `AllLinkedTo.allHasOther`: all choices have a case for all other values;
* `imports_of_importRules`: what is imported without an error is what a host has;
* `Admitted`, `admitted_of_link`: all that is known of a module that has been loaded;
* `load_admitted`: nothing else is loaded, and what is loaded or compiled answers.
-/
import MessageCatalog.Proofs.Message.Answers
import MessageCatalog.Proofs.Module.Mapping
import MessageCatalog.Proofs.Traversal

namespace MessageCatalog

open Formatting (Formatter Reference)
open MessageCatalog.Module (LoadError)
open Plural (Category Key Kind Rule)

/-! ### Linked nodes -/

namespace Node

/-- A case for all other values. -/
def OtherStored (cases : List (Branch String StoredNode)) : Prop :=
  ∃ c ∈ cases, c.key = "other"

mutual

/-- A stored node and the live node that it became: each call has the formatter that the host has
under the reference, each plural the rule that the host has under the name, which is one of the
imported names, and each choice has a case for all other values. -/
inductive LinkedTo (host : Host) (imported : List String) : StoredNode → LiveNode → Prop where
  | text (value : String) : LinkedTo host imported (.text value) (.text value)
  | argument (name : String) : LinkedTo host imported (.argument name) (.argument name)
  | numberSign (arg : String) (offset : Float) (strict : Bool) :
      LinkedTo host imported (.numberSign arg offset strict) (.numberSign arg offset strict)
  | call {arg : String} {reference : Reference} {formatter : Formatter} {locale : String}
      {style : Option Formatting.Style} (given : host.formatter? reference = some formatter) :
      LinkedTo host imported (.call arg reference locale style) (.call arg formatter locale style)
  | plural {arg name : String} {kind : Kind} {offset : Float} {rule : Rule}
      {cases : List (Branch String StoredNode)} {branches : List (Branch Key LiveNode)}
      (listed : name ∈ imported) (given : host.rules name = some rule)
      (other : OtherStored cases) (inner : PluralLinkedTo host imported cases branches) :
      LinkedTo host imported (.plural arg kind offset name cases)
        (.plural arg kind offset rule branches)
  | select {arg : String} {cases : List (Branch String StoredNode)}
      {branches : List (Branch String LiveNode)} (other : OtherStored cases)
      (inner : SelectLinkedTo host imported cases branches) :
      LinkedTo host imported (.select arg cases) (.select arg branches)
  | isolate {stored : StoredNode} {live : LiveNode} (inner : LinkedTo host imported stored live) :
      LinkedTo host imported (.isolate stored) (.isolate live)

/-- Stored nodes and the live nodes that they became, one by one. -/
inductive AllLinkedTo (host : Host) (imported : List String) :
    List StoredNode → List LiveNode → Prop where
  | nil : AllLinkedTo host imported [] []
  | cons {stored : StoredNode} {live : LiveNode} {rest : List StoredNode} {others : List LiveNode}
      (first : LinkedTo host imported stored live) (tail : AllLinkedTo host imported rest others) :
      AllLinkedTo host imported (stored :: rest) (live :: others)

/-- Stored plural cases and the live ones that they became, one by one. -/
inductive PluralLinkedTo (host : Host) (imported : List String) :
    List (Branch String StoredNode) → List (Branch Key LiveNode) → Prop where
  | nil : PluralLinkedTo host imported [] []
  | cons {text : String} {key : Key} {body : List StoredNode} {nodes : List LiveNode}
      {rest : List (Branch String StoredNode)} {others : List (Branch Key LiveNode)}
      (read : Key.ofText? text = some key) (first : AllLinkedTo host imported body nodes)
      (tail : PluralLinkedTo host imported rest others) :
      PluralLinkedTo host imported (⟨text, body⟩ :: rest) (⟨key, nodes⟩ :: others)

/-- Stored select cases and the live ones that they became, one by one. -/
inductive SelectLinkedTo (host : Host) (imported : List String) :
    List (Branch String StoredNode) → List (Branch String LiveNode) → Prop where
  | nil : SelectLinkedTo host imported [] []
  | cons {key : String} {body : List StoredNode} {nodes : List LiveNode}
      {rest : List (Branch String StoredNode)} {others : List (Branch String LiveNode)}
      (first : AllLinkedTo host imported body nodes)
      (tail : SelectLinkedTo host imported rest others) :
      SelectLinkedTo host imported (⟨key, body⟩ :: rest) (⟨key, nodes⟩ :: others)

end

section Other

variable {host : Host} {imported : List String}

/-- The case for all other values is still there when the keys of a plural are read. -/
lemma PluralLinkedTo.other {cases : List (Branch String StoredNode)}
    {branches : List (Branch Key LiveNode)} (h : PluralLinkedTo host imported cases branches)
    (hother : OtherStored cases) : ∃ c ∈ branches, c.key = .label "other" := by
  induction cases generalizing branches with
  | nil =>
      obtain ⟨_, hc, _⟩ := hother
      cases hc
  | cons first rest ih =>
      obtain ⟨c, hc, hkey⟩ := hother
      cases h with
      | @cons text key body nodes _ others read _ tail =>
          rcases List.mem_cons.mp hc with rfl | hc
          · obtain rfl : text = "other" := hkey
            have hlabel : Key.ofText? "other" = some (.label "other") := rfl
            obtain rfl := Option.some.inj (hlabel.symm.trans read)
            exact ⟨_, List.mem_cons_self, rfl⟩
          · obtain ⟨c', hc', hkey'⟩ := ih tail ⟨c, hc, hkey⟩
            exact ⟨c', List.mem_cons_of_mem _ hc', hkey'⟩

/-- The case for all other values is still there when a select is linked. -/
lemma SelectLinkedTo.other {cases : List (Branch String StoredNode)}
    {branches : List (Branch String LiveNode)} (h : SelectLinkedTo host imported cases branches)
    (hother : OtherStored cases) : ∃ c ∈ branches, c.key = "other" := by
  induction cases generalizing branches with
  | nil =>
      obtain ⟨_, hc, _⟩ := hother
      cases hc
  | cons first rest ih =>
      obtain ⟨c, hc, hkey⟩ := hother
      cases h with
      | cons _ tail =>
          rcases List.mem_cons.mp hc with rfl | hc
          · exact ⟨_, List.mem_cons_self, hkey⟩
          · obtain ⟨c', hc', hkey'⟩ := ih tail ⟨c, hc, hkey⟩
            exact ⟨c', List.mem_cons_of_mem _ hc', hkey'⟩

/-- A choice that is linked has a case for all other values. -/
lemma LinkedTo.hasOther {stored : StoredNode} {live : LiveNode}
    (h : LinkedTo host imported stored live) : live.HasOther := by
  cases h with
  | plural _ _ other inner => exact inner.other other
  | select other inner => exact inner.other other
  | _ => trivial

/-- A statement about stored nodes and one about live nodes, of which linking hands the first one on
as the second. -/
def HandedOn (host : Host) (imported : List String) (p : StoredNode → Prop)
    (q : LiveNode → Prop) : Prop :=
  ∀ stored live, LinkedTo host imported stored live → p stored → q live

section All

variable {p : StoredNode → Prop} {q : LiveNode → Prop}

mutual

/-- **What linking hands on at each node, it hands on to the whole tree.** -/
theorem LinkedTo.all (hpq : HandedOn host imported p q) : ∀ {stored : StoredNode}
    {live : LiveNode}, LinkedTo host imported stored live → stored.All p → live.All q
  | _, _, .text value, h => by
      simp only [All] at h ⊢
      exact hpq _ _ (.text value) h
  | _, _, .argument name, h => by
      simp only [All] at h ⊢
      exact hpq _ _ (.argument name) h
  | _, _, .numberSign arg offset strict, h => by
      simp only [All] at h ⊢
      exact hpq _ _ (.numberSign arg offset strict) h
  | _, _, .call given, h => by
      simp only [All] at h ⊢
      exact hpq _ _ (.call given) h
  | _, _, .plural listed given other inner, h => by
      rw [All] at h ⊢
      exact ⟨hpq _ _ (.plural listed given other inner) h.1, inner.all hpq h.2⟩
  | _, _, .select other inner, h => by
      rw [All] at h ⊢
      exact ⟨hpq _ _ (.select other inner) h.1, inner.all hpq h.2⟩
  | _, _, .isolate inner, h => by
      rw [All] at h ⊢
      exact ⟨hpq _ _ (.isolate inner) h.1, inner.all hpq h.2⟩

theorem AllLinkedTo.all (hpq : HandedOn host imported p q) : ∀ {stored : List StoredNode}
    {live : List LiveNode}, AllLinkedTo host imported stored live → AllOf p stored → AllOf q live
  | _, _, .nil, _ => by simp only [AllOf]
  | _, _, .cons first tail, h => by
      rw [AllOf] at h ⊢
      exact ⟨first.all hpq h.1, tail.all hpq h.2⟩

theorem PluralLinkedTo.all (hpq : HandedOn host imported p q) :
    ∀ {cases : List (Branch String StoredNode)} {branches : List (Branch Key LiveNode)},
    PluralLinkedTo host imported cases branches →
    AllPlural p cases → AllPlural q branches
  | _, _, .nil, _ => by simp only [AllPlural]
  | _, _, .cons _ first tail, h => by
      rw [AllPlural] at h ⊢
      exact ⟨first.all hpq h.1, tail.all hpq h.2⟩

theorem SelectLinkedTo.all (hpq : HandedOn host imported p q) :
    ∀ {cases : List (Branch String StoredNode)} {branches : List (Branch String LiveNode)},
    SelectLinkedTo host imported cases branches →
    AllSelect p cases → AllSelect q branches
  | _, _, .nil, _ => by simp only [AllSelect]
  | _, _, .cons first tail, h => by
      rw [AllSelect] at h ⊢
      exact ⟨first.all hpq h.1, tail.all hpq h.2⟩

end

end All

/-- **All choices in linked nodes have a case for all other values.** -/
theorem AllLinkedTo.allHasOther {stored : List StoredNode} {live : List LiveNode}
    (h : AllLinkedTo host imported stored live) : AllOf HasOther live :=
  have hpq : HandedOn host imported (fun _ => True) HasOther :=
    fun _ _ hlinked _ => hlinked.hasOther
  h.all hpq (allOf_iff.mpr fun node _ => all_of_forall (fun _ => trivial) node)

end Other

end Node

/-- A stored message and the live message that it became. -/
def Message.LinkedTo (host : Host) (imported : List String) (stored : StoredMessage)
    (live : LiveMessage) : Prop :=
  live.locale = stored.locale ∧ Node.AllLinkedTo host imported stored.nodes live.nodes

namespace Module

/-! ### Linking -/

lemma other_of_checkOther {arg : String} {cases : List (Branch String StoredNode)}
    (h : checkOther arg cases = .ok ()) : Node.OtherStored cases := by
  rw [checkOther] at h
  split at h
  · rename_i hany
    obtain ⟨c, hc, hkey⟩ := List.any_eq_true.mp hany
    exact ⟨c, hc, eq_of_beq hkey⟩
  · cases h

lemma ofText?_of_linkKey {text : String} {key : Key} (h : linkKey text = .ok key) :
    Key.ofText? text = some key := by
  rw [linkKey] at h
  split at h
  · rename_i hread
    obtain rfl := Except.ok.inj h
    exact hread
  · cases h

lemma formatter?_of_formatter {host : Host} {reference : Reference} {formatter : Formatter}
    (h : host.formatter reference = .ok formatter) :
    host.formatter? reference = some formatter := by
  rw [Host.formatter] at h
  split at h
  · rename_i hgiven
    obtain rfl := Except.ok.inj h
    exact hgiven
  · cases h

/-- Rules that a host has under imported names. -/
def ImportedFrom (host : Host) (imported : List String) (rules : Entries Rule) : Prop :=
  ∀ name rule, Entries.get? rules name = some rule →
    name ∈ imported ∧ host.rules name = some rule

section Link

variable {host : Host} {rules : Entries Rule} {imported : List String}

lemma ImportedFrom.of_rule (hrules : ImportedFrom host imported rules) {name : String} {rule : Rule}
    (h : (Linking.imported host rules).rule name = .ok rule) :
    name ∈ imported ∧ host.rules name = some rule := by
  simp only [Linking.imported] at h
  split at h
  · rename_i hget
    obtain rfl := Except.ok.inj h
    exact hrules name _ hget
  · cases h

mutual

/-- **A node that is linked without an error is linked as its names say.** -/
theorem linkNode_linkedTo (hrules : ImportedFrom host imported rules) :
    ∀ {stored : StoredNode} {live : LiveNode}, linkNode (.imported host rules) stored = .ok live →
      stored.LinkedTo host imported live
  | .text value, live, h => by
      rw [linkNode] at h
      obtain rfl := Except.ok.inj h
      exact .text value
  | .argument name, live, h => by
      rw [linkNode] at h
      obtain rfl := Except.ok.inj h
      exact .argument name
  | .numberSign arg offset strict, live, h => by
      rw [linkNode] at h
      obtain rfl := Except.ok.inj h
      exact .numberSign arg offset strict
  | .call arg reference locale style, live, h => by
      rw [linkNode] at h
      obtain ⟨formatter, hformatter, h⟩ := bind_eq_ok.mp h
      obtain rfl := Except.ok.inj h
      exact .call (formatter?_of_formatter hformatter)
  | .plural arg kind offset name cases, live, h => by
      rw [linkNode] at h
      obtain ⟨rule, hrule, h⟩ := bind_eq_ok.mp h
      obtain ⟨_, hother, h⟩ := bind_eq_ok.mp h
      obtain ⟨branches, hbranches, h⟩ := bind_eq_ok.mp h
      obtain rfl := Except.ok.inj h
      obtain ⟨hlisted, hgiven⟩ := hrules.of_rule hrule
      exact .plural hlisted hgiven (other_of_checkOther hother)
        (linkPlural_linkedTo hrules hbranches)
  | .select arg cases, live, h => by
      rw [linkNode] at h
      obtain ⟨_, hother, h⟩ := bind_eq_ok.mp h
      obtain ⟨branches, hbranches, h⟩ := bind_eq_ok.mp h
      obtain rfl := Except.ok.inj h
      exact .select (other_of_checkOther hother) (linkSelect_linkedTo hrules hbranches)
  | .isolate inner, live, h => by
      rw [linkNode] at h
      obtain ⟨node, hnode, h⟩ := bind_eq_ok.mp h
      obtain rfl := Except.ok.inj h
      exact .isolate (linkNode_linkedTo hrules hnode)

theorem linkNodes_linkedTo (hrules : ImportedFrom host imported rules) :
    ∀ {stored : List StoredNode} {live : List LiveNode},
    linkNodes (.imported host rules) stored = .ok live →
      Node.AllLinkedTo host imported stored live
  | [], live, h => by
      rw [linkNodes] at h
      obtain rfl := Except.ok.inj h
      exact .nil
  | node :: rest, live, h => by
      rw [linkNodes] at h
      obtain ⟨first, hfirst, h⟩ := bind_eq_ok.mp h
      obtain ⟨others, hothers, h⟩ := bind_eq_ok.mp h
      obtain rfl := Except.ok.inj h
      exact .cons (linkNode_linkedTo hrules hfirst) (linkNodes_linkedTo hrules hothers)

theorem linkPlural_linkedTo (hrules : ImportedFrom host imported rules) :
    ∀ {cases : List (Branch String StoredNode)} {branches : List (Branch Key LiveNode)},
    linkPlural (.imported host rules) cases = .ok branches →
      Node.PluralLinkedTo host imported cases branches
  | [], branches, h => by
      rw [linkPlural] at h
      obtain rfl := Except.ok.inj h
      exact .nil
  | ⟨text, body⟩ :: rest, branches, h => by
      rw [linkPlural] at h
      obtain ⟨key, hkey, h⟩ := bind_eq_ok.mp h
      obtain ⟨nodes, hnodes, h⟩ := bind_eq_ok.mp h
      obtain ⟨others, hothers, h⟩ := bind_eq_ok.mp h
      obtain rfl := Except.ok.inj h
      exact .cons (ofText?_of_linkKey hkey) (linkNodes_linkedTo hrules hnodes)
        (linkPlural_linkedTo hrules hothers)

theorem linkSelect_linkedTo (hrules : ImportedFrom host imported rules) :
    ∀ {cases : List (Branch String StoredNode)} {branches : List (Branch String LiveNode)},
    linkSelect (.imported host rules) cases = .ok branches →
      Node.SelectLinkedTo host imported cases branches
  | [], branches, h => by
      rw [linkSelect] at h
      obtain rfl := Except.ok.inj h
      exact .nil
  | ⟨key, body⟩ :: rest, branches, h => by
      rw [linkSelect] at h
      obtain ⟨nodes, hnodes, h⟩ := bind_eq_ok.mp h
      obtain ⟨others, hothers, h⟩ := bind_eq_ok.mp h
      obtain rfl := Except.ok.inj h
      exact .cons (linkNodes_linkedTo hrules hnodes) (linkSelect_linkedTo hrules hothers)

end

/-- A message that is linked without an error is linked as its names say. -/
lemma linkMessage_linkedTo (hrules : ImportedFrom host imported rules) {stored : StoredMessage}
    {live : LiveMessage} (h : linkMessage (.imported host rules) stored = .ok live) :
    stored.LinkedTo host imported live := by
  rw [linkMessage] at h
  obtain ⟨nodes, hnodes, h⟩ := bind_eq_ok.mp h
  obtain rfl := Except.ok.inj h
  exact ⟨rfl, linkNodes_linkedTo hrules hnodes⟩

/-- **A bundle that is linked without an error has the keys of the stored one, and its messages are
linked as their names say.** -/
theorem linkBundle_linkedTo (hrules : ImportedFrom host imported rules) {entry : Entry}
    {b : Bundle LiveMessage} (h : linkBundle (.imported host rules) entry = .ok b) :
    b.keyTree = entry.keyTree ∧
      List.Forall₂ (Message.LinkedTo host imported) entry.items b.items := by
  rw [linkBundle] at h
  refine ⟨Bundle.keyTree_of_traverse h, (Bundle.items_of_traverse h).imp ?_⟩
  rintro stored live ⟨_, hlive⟩
  exact linkMessage_linkedTo hrules hlive

end Link

/-! ### Imports -/

/-- The labels that are imported for a kind. -/
def Import.labels (categories : Import) : Kind → List String
  | .cardinal => categories.cardinal
  | .ordinal => categories.ordinal

/-- A host has the rules that are imported, and they declare all imported labels of a kind if they
declare any. -/
def Imports (host : Host) (entries : Entries Import) : Prop :=
  ∀ e ∈ entries, ∃ rule, host.rules e.1 = some rule ∧
    ∀ kind, rule.declared kind ≠ [] → e.2.labels kind ⊆ rule.labels kind

/-- A label that is known is one of the declared labels. -/
lemma mem_labels_of_isKnownLabel {rule : Rule} {kind : Kind} {label : String}
    (h : isKnownLabel (rule.declared kind) label = true) : label ∈ rule.labels kind := by
  rw [isKnownLabel] at h
  split at h
  · rename_i category hcategory
    obtain rfl := Category.label_of_ofLabel? hcategory
    exact List.mem_map_of_mem (List.contains_iff_mem.mp h)
  · cases h

lemma labels_of_checkLabels {locale : String} {rule : Rule} {kind : Kind} {labels : List String}
    (h : checkLabels locale rule kind labels = .ok ()) (hdeclared : rule.declared kind ≠ []) :
    labels ⊆ rule.labels kind := by
  have hnonempty : (rule.declared kind).isEmpty = false := List.isEmpty_eq_false_iff.mpr hdeclared
  simp only [checkLabels, hnonempty, Bool.false_eq_true, if_false] at h
  split at h
  · cases h
  · rename_i hnone
    intro label hlabel
    have hknown := List.find?_eq_none.mp hnone label hlabel
    exact mem_labels_of_isKnownLabel (by simpa using hknown)

lemma rule_of_importRule {host : Host} {locale : String} {categories : Import} {rule : Rule}
    (h : importRule host locale categories = .ok rule) :
    host.rules locale = some rule ∧
      ∀ kind, rule.declared kind ≠ [] → categories.labels kind ⊆ rule.labels kind := by
  rw [importRule] at h
  obtain ⟨given, hgiven, h⟩ := bind_eq_ok.mp h
  obtain ⟨_, hcardinal, h⟩ := bind_eq_ok.mp h
  obtain ⟨_, hordinal, h⟩ := bind_eq_ok.mp h
  obtain rfl := Except.ok.inj h
  rw [Host.rule] at hgiven
  split at hgiven
  · rename_i hrule
    obtain rfl := Except.ok.inj hgiven
    refine ⟨hrule, fun kind => ?_⟩
    cases kind with
    | cardinal => exact labels_of_checkLabels hcardinal
    | ordinal => exact labels_of_checkLabels hordinal
  · cases hgiven

/-- **Rules that are imported without an error are those of the host**, and they declare the
imported labels. -/
theorem imports_of_importRules {host : Host} {entries : Entries Import} {rules : Entries Rule}
    (h : importRules host entries = .ok rules) :
    Imports host entries ∧ ImportedFrom host (Entries.keys entries) rules := by
  induction entries generalizing rules with
  | nil =>
      obtain rfl := Except.ok.inj h
      exact ⟨fun _ he => (nomatch he), fun _ _ hget => (nomatch hget)⟩
  | cons first rest ih =>
      rw [importRules] at h
      obtain ⟨rule, hrule, h⟩ := bind_eq_ok.mp h
      obtain ⟨others, hothers, h⟩ := bind_eq_ok.mp h
      obtain rfl := Except.ok.inj h
      obtain ⟨hgiven, hlabels⟩ := rule_of_importRule hrule
      obtain ⟨himports, hfrom⟩ := ih hothers
      constructor
      · intro e he
        rcases List.mem_cons.mp he with rfl | he
        · exact ⟨rule, hgiven, hlabels⟩
        · exact himports e he
      -- Of several imports of one name, the first is looked up.
      · intro name found hget
        rw [Entries.get?_cons] at hget
        split at hget
        · rename_i hname
          obtain rfl := Option.some.inj hget
          exact ⟨hname ▸ List.mem_cons_self, hname ▸ hgiven⟩
        · obtain ⟨hlisted, hfound⟩ := hfrom name found hget
          exact ⟨List.mem_cons_of_mem _ hlisted, hfound⟩

/-! ### Loading -/

/-- What is known of a module that has been loaded as a bundle. -/
structure Admitted (m : Module) (host : Host) (b : Bundle LiveMessage) : Prop where
  /-- The module was written for a runtime that is supported. -/
  runtime : m.runtime.isSupported = true
  /-- Its hash is that of the canonical text of its body. -/
  digest : Digest.Hash.ofText? m.digest = some (Digest.sha256 m.body.canonical.toUTF8.toList)
  /-- The host has the rules that it imports, with all imported labels. -/
  imports : Imports host m.locales
  /-- The bundle has the keys of what the target offers. -/
  keys : ∃ entry, m.body.entry m.target = .ok entry ∧ b.keyTree = entry.keyTree ∧
    List.Forall₂ (Message.LinkedTo host (Entries.keys m.locales)) entry.items b.items

lemma digest_of_verify {m : Module} (h : m.verify = .ok ()) :
    m.runtime.isSupported = true ∧ Digest.Hash.ofText? m.digest = some m.body.hash := by
  rw [verify] at h
  split at h
  · cases h
  rename_i hruntime
  split at h
  · cases h
  rename_i hash hread
  split at h
  · rename_i heq
    exact ⟨by simpa using hruntime, heq ▸ hread⟩
  · cases h

/-- **A module that is linked without an error is admitted.** -/
theorem admitted_of_link {m : Module} {host : Host} {b : Bundle LiveMessage}
    (h : m.link host = .ok b) : m.Admitted host b := by
  rw [link] at h
  obtain ⟨_, hverify, h⟩ := bind_eq_ok.mp h
  obtain ⟨rules, hrules, h⟩ := bind_eq_ok.mp h
  obtain ⟨_, _, h⟩ := bind_eq_ok.mp h
  obtain ⟨entry, hentry, h⟩ := bind_eq_ok.mp h
  obtain ⟨hruntime, hdigest⟩ := digest_of_verify hverify
  obtain ⟨himports, hfrom⟩ := imports_of_importRules hrules
  obtain ⟨hkeys, hlinked⟩ := linkBundle_linkedTo hfrom h
  exact ⟨hruntime, hdigest, himports, entry, hentry, hkeys, hlinked⟩

lemma exists_of_forall₂ {α β : Type} {r : α → β → Prop} {as : List α} {bs : List β} {b : β}
    (h : List.Forall₂ r as bs) (hb : b ∈ bs) : ∃ a ∈ as, r a b := by
  induction h with
  | nil => cases hb
  | cons hr _ ih =>
      rcases List.mem_cons.mp hb with rfl | hb
      · exact ⟨_, List.mem_cons_self, hr⟩
      · obtain ⟨a, ha, hr⟩ := ih hb
        exact ⟨a, List.mem_cons_of_mem _ ha, hr⟩

/-- The messages of a module that is admitted are sound. -/
theorem Admitted.sound {m : Module} {host : Host} {b : Bundle LiveMessage}
    (h : m.Admitted host b) : ∀ message ∈ b.items, message.Sound := by
  obtain ⟨entry, _, _, hlinked⟩ := h.keys
  intro live hlive
  obtain ⟨stored, _, _, hmessage⟩ := exists_of_forall₂ hlinked hlive
  exact Message.sound_of_hasOther hmessage.allHasOther

/-- **Nothing ill-formed gets past the loader.** Whatever a text is and wherever it comes from, if
it is loaded, then it is the text of a module that is admitted. All messages that are loaded are
sound, and so are all messages that are compiled: no choice in them, at any depth, is ever without
a case, and no format fails but for a strict number sign whose argument counts as no number. -/
theorem load_admitted :
    (∀ (text : String) (host : Host) (b : Bundle LiveMessage), load text host = .ok b →
      (∃ m, parse? text = some m ∧ m.Admitted host b) ∧
        ∀ message ∈ b.items, Message.Sound message) ∧
    ∀ (compiler : Compiler) (locale : Option String) (source : Source) (b : Bundle LiveMessage),
      compiler.bundle locale source = .ok b → ∀ message ∈ b.items, Message.Sound message := by
  constructor
  · intro text host b h
    rw [load] at h
    split at h
    · rename_i m hread
      have hadmitted := admitted_of_link h
      exact ⟨⟨m, hread, hadmitted⟩, hadmitted.sound⟩
    · cases h
  · intro compiler locale source b h message hmessage
    exact Message.sound_of_made (Compiler.made_bundle h message hmessage)

/-- A message with a strict number sign inside two choices is loaded from its module. -/
theorem load_admitted_english :
    let compiler : Compiler := ⟨⟨Plural.languages, ["en"], "en"⟩, {}, true, true, false⟩
    let source : Source := .one "{n, plural, one{one} other{{g, select, x{#} other{{n}}}}}"
    let host : Host := { rules := Plural.languages }
    ∃ b m loaded, compiler.bundle none source = .ok b ∧ ofBundle b .default = .ok m ∧
      load m.text host = .ok loaded ∧ (∃ m', parse? m.text = some m' ∧ m'.Admitted host loaded) ∧
      (∀ message ∈ loaded.items, message.Sound) ∧ ∀ message ∈ b.items, message.Sound := by
  intro compiler source host
  have hok : passes (fun b => passes (fun m => decide ((json m).depth ≤ Json.nestingLimit))
      (ofBundle b .default)) (compiler.bundle none source) = true := by
    decide +kernel
  obtain ⟨b, hcompile, hok⟩ := passes_eq_true hok
  obtain ⟨m, hmodule, hok⟩ := passes_eq_true hok
  have hdepth : (json m).depth ≤ Json.nestingLimit := of_decide_eq_true hok
  have hnames : ∀ name rule, compiler.resolver.provider name = some rule → rule.locale = name := by
    intro name rule hrule
    obtain ⟨family, _, rfl⟩ := Option.map_eq_some_iff.mp hrule
    rfl
  have hhost : host.Supplies b := Host.supplies_bundle hnames hcompile
  obtain ⟨f, hlink, _⟩ := link_ofBundle (Compiler.made_bundle hcompile) hmodule hhost
  have hsource : source.Ordered := trivial
  have hload : load m.text host = .ok (b.map f) := by
    rw [load_eq_link hsource hcompile hmodule hdepth]
    exact hlink
  obtain ⟨hloaded, hcompiled⟩ := load_admitted
  obtain ⟨hadmitted, hsound⟩ := hloaded m.text host (b.map f) hload
  exact ⟨b, m, b.map f, hcompile, hmodule, hload, hadmitted, hsound,
    hcompiled compiler none source b hcompile⟩

end Module

end MessageCatalog
