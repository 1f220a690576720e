/-
Modules are read back from their text.

* `storable_json`: a text can hold the JSON of a module, if all its offsets are finite;
* `form_ofJson`: what is read of the form of a module is the whole form;
* `parse?_text`, `eq_of_parse?_text`: so a module is read back from its text, and no other one is.
-/
import MessageCatalog.Proofs.Json.Written
import MessageCatalog.Proofs.Message.Compiled
import MessageCatalog.Proofs.Module.Codec

namespace MessageCatalog.Module

open Formatting (Reference Style)
open Json (Form Storable StorableItems StorableMembers)

/-! ### Modules that a text can hold -/

lemma storableItems_map {α : Type} {write : α → Json} (h : ∀ a, Storable (write a))
    (values : List α) : StorableItems (values.map write) := by
  induction values with
  | nil => trivial
  | cons a rest ih => exact ⟨h a, ih⟩

lemma storableMembers_append {members others : List (String × Json)}
    (h : StorableMembers members) (ho : StorableMembers others) :
    StorableMembers (members ++ others) := by
  induction members with
  | nil => exact ho
  | cons member rest ih => exact ⟨h.1, ih h.2⟩

lemma storable_optionalMember {key : String} {value : Option Json}
    (h : ∀ j ∈ value, Storable j) : StorableMembers (optionalMember key value) := by
  cases value with
  | none => trivial
  | some j => exact ⟨h j rfl, trivial⟩

lemma storable_textsJson (texts : List String) : Storable (textsJson texts) :=
  @storableItems_map _ Json.string (fun _ => trivial) texts

lemma storable_styleJson (style : Style) : Storable (styleJson style) := by
  cases style with
  | single text => trivial
  | list texts => exact storable_textsJson texts

lemma storable_referenceJson (reference : Reference) : Storable (referenceJson reference) := by
  cases reference <;> exact ⟨trivial, trivial⟩

mutual

/-- A text can hold a node whose offsets are finite. -/
theorem storable_nodeJson : ∀ node : StoredNode, node.All Node.Finite → Storable (nodeJson node)
  | .text _, _ => by simp [nodeJson, Storable, StorableMembers]
  | .argument _, _ => by simp [nodeJson, Storable, StorableMembers]
  | .numberSign _ offset _, h => by
      have hoffset : Number.isFinite offset = true := by simpa only [Node.All, Node.Finite] using h
      simp [nodeJson, Storable, StorableMembers, hoffset]
  | .call _ formatter _ style, _ => by
      rw [nodeJson]
      refine storableMembers_append ?_ (storable_optionalMember ?_)
      · exact ⟨trivial, trivial, storable_referenceJson formatter, trivial, trivial⟩
      · intro j hj
        obtain ⟨s, _, rfl⟩ := Option.map_eq_some_iff.mp hj
        exact storable_styleJson s
  | .plural _ _ offset _ cases, h => by
      rw [Node.All] at h
      have hoffset : Number.isFinite offset = true := h.1
      have hcases := storable_casesJson cases h.2
      simp [nodeJson, Storable, StorableMembers, hoffset, hcases]
  | .select _ cases, h => by
      rw [Node.All] at h
      have hcases := storable_casesJson cases (Node.allPlural_of_allSelect cases h.2)
      simp [nodeJson, Storable, StorableMembers, hcases]
  | .isolate inner, h => by
      rw [Node.All] at h
      have hinner := storable_nodeJson inner h.2
      simp [nodeJson, Storable, StorableMembers, hinner]

theorem storable_nodesJson : ∀ nodes : List StoredNode, Node.AllOf Node.Finite nodes →
    StorableItems (nodesJson nodes)
  | [], _ => by
      rw [nodesJson]
      trivial
  | node :: rest, h => by
      rw [Node.AllOf] at h
      rw [nodesJson]
      exact ⟨storable_nodeJson node h.1, storable_nodesJson rest h.2⟩

theorem storable_casesJson : ∀ cases : List (Branch String StoredNode),
    Node.AllPlural Node.Finite cases → StorableItems (casesJson cases)
  | [], _ => by
      rw [casesJson]
      trivial
  | ⟨_, body⟩ :: rest, h => by
      rw [Node.AllPlural] at h
      rw [casesJson]
      exact ⟨⟨trivial, storable_nodesJson body h.1, trivial⟩, storable_casesJson rest h.2⟩

end

/-- The offsets in the messages of an entry are finite. -/
def Entry.Finite (entry : Entry) : Prop :=
  ∀ m ∈ entry.items, Node.AllOf Node.Finite m.nodes

mutual

theorem storable_entryJson : ∀ entry : Entry, Entry.Finite entry → Storable (entryJson entry)
  | .one m, h => by
      have hnodes := storable_nodesJson m.nodes (h m List.mem_cons_self)
      simp [entryJson, messageJson, Storable, StorableMembers, hnodes]
  | .group entries, h => by
      have hentries := storable_entriesJson entries h
      simp [entryJson, Storable, StorableMembers, hentries]

theorem storable_entriesJson : ∀ entries : List (String × Entry),
    (∀ m ∈ Bundle.itemsOfEntries entries, Node.AllOf Node.Finite m.nodes) →
      StorableMembers (entriesJson entries)
  | [], _ => by
      rw [entriesJson]
      trivial
  | (_, entry) :: rest, h => by
      have hentry := storable_entryJson entry fun m hm => h m (List.mem_append_left _ hm)
      have hrest := storable_entriesJson rest fun m hm => h m (List.mem_append_right _ hm)
      rw [entriesJson]
      exact ⟨hentry, hrest⟩

end

/-- The offsets in a body are finite. -/
def Body.Finite (body : Body) : Prop :=
  ∀ entry ∈ body.forms, Entry.Finite entry

/-- A text can hold a body whose offsets are finite. -/
theorem storable_bodyJson {body : Body} (h : body.Finite) : Storable (bodyJson body) := by
  obtain ⟨inDefault, inExports, inAssign⟩ := body.mem_forms
  rw [bodyJson]
  refine storableMembers_append (storableMembers_append ?_ ?_) ?_
  · refine storable_optionalMember fun j hj => ?_
    obtain ⟨entry, he, rfl⟩ := Option.map_eq_some_iff.mp hj
    exact storable_entryJson entry (h entry (inDefault entry he))
  · refine storable_optionalMember fun j hj => ?_
    obtain ⟨entries, he, rfl⟩ := Option.map_eq_some_iff.mp hj
    exact storable_entriesJson entries (h _ (inExports entries he))
  · refine storable_optionalMember fun j hj => ?_
    obtain ⟨entry, he, rfl⟩ := Option.map_eq_some_iff.mp hj
    exact storable_entryJson entry (h entry (inAssign entry he))

/-- A text can hold imports by locale. -/
lemma storable_importsJson (locales : Entries Import) :
    StorableMembers (locales.map fun (locale, categories) => (locale, importJson categories)) := by
  induction locales with
  | nil => trivial
  | cons entry rest ih =>
      refine ⟨?_, ih⟩
      exact ⟨storable_textsJson _, storable_textsJson _, trivial⟩

/-- **A text can hold a module whose offsets are finite.** -/
theorem storable_json {m : Module} (h : m.body.Finite) : Storable (json m) := by
  have htarget : Storable (targetJson m.target) := by
    cases m.target with
    | universal path => cases path <;> simp [targetJson, optionalMember, Storable, StorableMembers]
    | _ => simp [targetJson, Storable, StorableMembers]
  have hformatters : StorableItems (m.formatters.map referenceJson) :=
    storableItems_map storable_referenceJson m.formatters
  have hversion : (m.runtime.version.toNat : Int) < 2 ^ 64 := by
    have := m.runtime.version.toNat_lt
    omega
  refine ⟨⟨trivial, ⟨Int.natCast_nonneg _, hversion⟩, storable_textsJson _, trivial⟩, htarget,
    storable_importsJson m.locales, hformatters, trivial, storable_bodyJson h, trivial⟩

/-! ### What is read of a form -/

/-- A record is its own form, if all its members are fields and are read whole. -/
lemma record_ofJson {fields : List (String × (Form → Form))} {members : List (String × Json)}
    (h : ∀ member ∈ members, ∃ part, fields.lookup member.1 = some part ∧
      part (Form.ofJson member.2) = Form.ofJson member.2) :
    Form.record fields (Form.ofJson (.object members)) = Form.ofJson (.object members) := by
  rw [Form.ofJson, Form.record]
  congr 1
  induction members with
  | nil => rfl
  | cons member rest ih =>
      obtain ⟨key, value⟩ := member
      obtain ⟨part, hlookup, hpart⟩ := h (key, value) List.mem_cons_self
      have hrest := ih fun member hm => h member (List.mem_cons_of_mem _ hm)
      simp only at hlookup hpart
      rw [Form.ofMembers, List.filterMap_cons_some (b := (some key, Form.ofJson value)), hrest]
      simp only [hlookup, Option.map_some, hpart]

/-- A table is its own form, if all its values are read whole. -/
lemma table_ofJson {part : Form → Form} {members : List (String × Json)}
    (h : ∀ member ∈ members, part (Form.ofJson member.2) = Form.ofJson member.2) :
    Form.table part (Form.ofJson (.object members)) = Form.ofJson (.object members) := by
  rw [Form.ofJson, Form.table]
  congr 1
  induction members with
  | nil => rfl
  | cons member rest ih =>
      obtain ⟨key, value⟩ := member
      have hvalue := h (key, value) List.mem_cons_self
      have hrest := ih fun member hm => h member (List.mem_cons_of_mem _ hm)
      simp only at hvalue
      rw [Form.ofMembers, List.map_cons, hrest]
      simp only [hvalue]

lemma messageForm_ofJson (m : StoredMessage) :
    messageForm (Form.ofJson (messageJson m)) = Form.ofJson (messageJson m) := by
  apply record_ofJson
  simp [List.lookup]

mutual

theorem entryForm_ofJson : ∀ entry : Entry,
    entryForm (Form.ofJson (entryJson entry)) = Form.ofJson (entryJson entry)
  | .one m => by
      have hm := messageForm_ofJson m
      simp only [entryJson, Form.ofJson, Form.ofMembers, entryForm, variantForms] at hm ⊢
      rw [hm]
  | .group entries => by
      have hentries := entryForms_ofMembers entries
      simp only [entryJson, Form.ofJson, Form.ofMembers, entryForm, variantForms, hentries]

theorem entryForms_ofMembers : ∀ entries : List (String × Entry),
    entryForms (Form.ofMembers (entriesJson entries)) = Form.ofMembers (entriesJson entries)
  | [] => rfl
  | (key, entry) :: rest => by
      rw [entriesJson, Form.ofMembers, entryForms, entryForm_ofJson entry,
        entryForms_ofMembers rest]

end

/-- A member of an object whose value may be left out has the value. -/
lemma mem_optionalMember {key : String} {value : Option Json} {member : String × Json}
    (h : member ∈ optionalMember key value) : member.1 = key ∧ member.2 ∈ value := by
  cases value with
  | none => cases h
  | some j =>
      obtain rfl := List.mem_singleton.mp h
      exact ⟨rfl, rfl⟩

/-- What is read of the form of a body is the whole form. -/
theorem bodyForm_ofJson (body : Body) :
    bodyForm (Form.ofJson (bodyJson body)) = Form.ofJson (bodyJson body) := by
  refine record_ofJson fun member hmember => ?_
  obtain ⟨key, value⟩ := member
  rcases List.mem_append.mp hmember with hmember | hmember
  · rcases List.mem_append.mp hmember with hmember | hmember
    · obtain ⟨rfl, hvalue⟩ := mem_optionalMember hmember
      obtain ⟨entry, _, rfl⟩ := Option.map_eq_some_iff.mp hvalue
      exact ⟨entryForm, by simp [List.lookup], entryForm_ofJson entry⟩
    · obtain ⟨rfl, hvalue⟩ := mem_optionalMember hmember
      obtain ⟨entries, _, rfl⟩ := Option.map_eq_some_iff.mp hvalue
      refine ⟨Form.table entryForm, by simp [List.lookup], table_ofJson fun member hm => ?_⟩
      rw [entriesJson_eq_map] at hm
      obtain ⟨e, _, rfl⟩ := List.mem_map.mp hm
      exact entryForm_ofJson e.2
  · obtain ⟨rfl, hvalue⟩ := mem_optionalMember hmember
    obtain ⟨entry, _, rfl⟩ := Option.map_eq_some_iff.mp hvalue
    exact ⟨entryForm, by simp [List.lookup], entryForm_ofJson entry⟩

/-- What is read of the form of imports by locale is the whole form. -/
lemma tableForm_importsJson (locales : Entries Import) :
    Form.table (Form.record [("cardinal", id), ("ordinal", id)])
      (Form.ofJson (.object (locales.map fun (locale, categories) =>
        (locale, importJson categories)))) =
      Form.ofJson (.object (locales.map fun (locale, categories) =>
        (locale, importJson categories))) := by
  refine table_ofJson fun member hm => ?_
  obtain ⟨entry, _, rfl⟩ := List.mem_map.mp hm
  exact record_ofJson (by simp [List.lookup])

/-- **What is read of the form of a module is the whole form.** -/
theorem form_ofJson (m : Module) : form (Form.ofJson (json m)) = Form.ofJson (json m) := by
  have hruntime : Form.record [("name", id), ("version", id), ("primitives", id)]
      (Form.ofJson (runtimeJson m.runtime)) = Form.ofJson (runtimeJson m.runtime) :=
    record_ofJson (by simp [List.lookup])
  have hlocales := tableForm_importsJson m.locales
  have hbody := bodyForm_ofJson m.body
  apply record_ofJson
  simp [List.lookup, hruntime, hlocales, hbody]

/-! ### Texts -/

/-- **A module is read back from its text**, as long as the text is not nested too deeply. -/
theorem parse?_text {m : Module} (ho : m.Ordered) (hfinite : m.body.Finite)
    (hdepth : (json m).depth ≤ Json.nestingLimit) : parse? m.text = some m := by
  have hwhole : Form.parse? m.text = some (Form.ofJson (json m)) :=
    Json.parse?_pretty (storable_json hfinite)
  have hvalue := Form.value?_ofJson (json m) Json.nestingLimit hdepth
  simp [parse?, hwhole, form_ofJson, hvalue, ofJson?_json ho]

/-- **Nothing else is read from the text of a module**, however deeply it is nested. -/
theorem eq_of_parse?_text {m m' : Module} (ho : m.Ordered) (hfinite : m.body.Finite)
    (h : parse? m.text = some m') : m' = m := by
  have hwhole : Form.parse? m.text = some (Form.ofJson (json m)) :=
    Json.parse?_pretty (storable_json hfinite)
  rw [parse?, hwhole, Option.bind_eq_bind, Option.bind_some, form_ofJson] at h
  obtain ⟨j, hj, hread⟩ := Option.bind_eq_some_iff.mp h
  obtain rfl := Json.eq_of_value?_ofJson hj
  exact Option.some.inj (hread.symm.trans (ofJson?_json ho))

end MessageCatalog.Module
