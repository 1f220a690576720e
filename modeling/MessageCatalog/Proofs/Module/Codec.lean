/-
Modules are read back from their JSON.

* `nodeOfJson?_nodeJson`, `entryOfJson?_entryJson`, `bodyOfJson?_bodyJson`: so are their parts;
* `Body.Ordered`, `Ordered`: the keys of all groups are in order;
* `ofJson?_json`: so a whole module is read back.
-/
import MessageCatalog.Module.Reader
import MessageCatalog.Module.Writer
import MessageCatalog.Proofs.Bundle

namespace MessageCatalog.Module

open Formatting (Reference Style)
open Json (Form depthOfItems depthOfMembers)
open Plural (Kind)

/-! ### Fields -/

section Fields

/-- Values that are read back are read back one by one. -/
lemma mapM_map {α β : Type} {read : β → Option α} {write : α → β}
    (hread : ∀ a, read (write a) = some a) (values : List α) :
    (values.map write).mapM read = some values := by
  induction values with
  | nil => rfl
  | cons a rest ih =>
      rw [List.map_cons, List.mapM_cons, hread, ih]
      rfl

variable {α : Type} {read : Json → Option α} {write : α → Json}

/-- A field that may be left out is read back, if no value is written as null. -/
lemma optional?_map {value : Option α} (hread : ∀ a ∈ value, read (write a) = some a)
    (hnull : ∀ a, write a ≠ .null) : Json.optional? read (value.map write) = some value := by
  cases value with
  | none => rfl
  | some a =>
      rw [Option.map_some, Json.optional?, hread a rfl]
      · rfl
      · exact hnull a

end Fields

lemma textsOfJson?_textsJson (texts : List String) :
    textsOfJson? (textsJson texts) = some texts := by
  show (texts.map Json.string).mapM Json.text? = some texts
  exact @mapM_map _ _ Json.text? Json.string (fun _ => rfl) texts

/-! ### Nodes -/

lemma styleOfJson?_styleJson (style : Style) : styleOfJson? (styleJson style) = some style := by
  cases style with
  | single text => rfl
  | list texts =>
      show (textsOfJson? (textsJson texts)).map Style.list = _
      rw [textsOfJson?_textsJson]
      rfl

lemma styleJson_ne_null (style : Style) : styleJson style ≠ .null := by
  cases style <;> exact fun h => nomatch h

lemma referenceOfJson?_referenceJson (reference : Reference) :
    referenceOfJson? (referenceJson reference) = some reference := by
  cases reference <;> rfl

/-- A node is read off the rest of its record, once its kind has been read. -/
lemma nodeAtDepth?_object {kind : Json → Option String}
    (hkind : ∀ text, kind (.string text) = some text) (depth : Nat) (name : String)
    {members : List (String × Json)} (h : ∀ member ∈ members, member.1 ≠ "op") :
    nodeAtDepth? kind (depth + 1) (.object (("op", .string name) :: members)) =
      nodeOfRecord? (nodeAtDepth? innerKind? depth) name (.object members) := by
  have hop : members.filter (fun member => member.1 == "op") = [] := by
    rw [List.filter_eq_nil_iff]
    intro member hmember
    simpa using h member hmember
  have hothers : members.filter (fun member => member.1 != "op") = members := by
    rw [List.filter_eq_self]
    intro member hmember
    simpa using h member hmember
  simp [nodeAtDepth?, Json.tagged?, Json.field?, hkind, hop, hothers]

/-- A case is read back, if its nodes are. -/
lemma caseOfJson?_of_nodes {node : Json → Option StoredNode} {body : List StoredNode}
    (h : (nodesJson body).mapM node = some body) (key : String) :
    caseOfJson? node (.object [("key", .string key), ("body", .array (nodesJson body))]) =
      some ⟨key, body⟩ := by
  simp [caseOfJson?, Json.fields?, Json.field?, Json.text?, Json.list?, h]

mutual

/-- A node is read back, with at least as many levels as its JSON has. -/
theorem nodeAtDepth?_nodeJson : ∀ (node : StoredNode) {kind : Json → Option String} {depth : Nat},
    (∀ text, kind (.string text) = some text) → (nodeJson node).depth ≤ depth →
      nodeAtDepth? kind depth (nodeJson node) = some node
  | node, kind, 0, hkind, h => by
      cases node <;> simp [nodeJson, Json.depth] at h
  | .text value, kind, depth + 1, hkind, h => by
      rw [nodeJson, nodeAtDepth?_object hkind _ _ (by simp)]
      rfl
  | .argument name, kind, depth + 1, hkind, h => by
      rw [nodeJson, nodeAtDepth?_object hkind _ _ (by simp)]
      rfl
  | .numberSign arg offset strict, kind, depth + 1, hkind, h => by
      rw [nodeJson, nodeAtDepth?_object hkind _ _ (by simp)]
      rfl
  | .call arg formatter locale style, kind, depth + 1, hkind, h => by
      have hstyle : Json.optional? styleOfJson? (style.map styleJson) = some style :=
        optional?_map (fun style _ => styleOfJson?_styleJson style) styleJson_ne_null
      have hformatter := referenceOfJson?_referenceJson formatter
      rw [nodeJson, List.cons_append, nodeAtDepth?_object hkind _ _
        (by cases style <;> simp [optionalMember])]
      -- A missing style is left out of the record, and reading takes what is missing as none.
      cases style with
      | none =>
          simp [nodeOfRecord?, Json.fields?, Json.field?, Json.text?, optionalMember, hformatter,
            Json.optional?]
      | some style =>
          rw [Option.map_some] at hstyle
          simp [nodeOfRecord?, Json.fields?, Json.field?, Json.text?, optionalMember, hformatter,
            hstyle]
  | .plural arg kind' offset locale cases, kind, depth + 1, hkind, h => by
      have hdepth : depthOfItems (casesJson cases) ≤ depth := by
        simp only [nodeJson, Json.depth, depthOfMembers] at h
        omega
      have hcases := mapM_casesJson cases hdepth
      rw [nodeJson, nodeAtDepth?_object hkind _ _ (by simp)]
      simp [nodeOfRecord?, Json.fields?, Json.field?, Json.text?, Json.number?, Json.label?,
        Kind.ofLabel?_label, Json.list?, hcases]
  | .select arg cases, kind, depth + 1, hkind, h => by
      have hdepth : depthOfItems (casesJson cases) ≤ depth := by
        simp only [nodeJson, Json.depth, depthOfMembers] at h
        omega
      have hcases := mapM_casesJson cases hdepth
      rw [nodeJson, nodeAtDepth?_object hkind _ _ (by simp)]
      simp [nodeOfRecord?, Json.fields?, Json.field?, Json.text?, Json.list?, hcases]
  | .isolate inner, kind, depth + 1, hkind, h => by
      have hdepth : (nodeJson inner).depth ≤ depth := by
        simp only [nodeJson, Json.depth, depthOfMembers] at h
        omega
      have hinner : nodeAtDepth? innerKind? depth (nodeJson inner) = some inner :=
        nodeAtDepth?_nodeJson inner (fun _ => rfl) hdepth
      rw [nodeJson, nodeAtDepth?_object hkind _ _ (by simp)]
      simp [nodeOfRecord?, Json.fields?, Json.field?, hinner]

/-- Nodes are read back one by one. -/
theorem mapM_nodesJson : ∀ (nodes : List StoredNode) {depth : Nat},
    depthOfItems (nodesJson nodes) ≤ depth →
      (nodesJson nodes).mapM (nodeAtDepth? innerKind? depth) = some nodes
  | [], _, _ => by
      rw [nodesJson]
      rfl
  | node :: rest, depth, h => by
      rw [nodesJson, depthOfItems, Nat.max_le] at h
      have hnode : nodeAtDepth? innerKind? depth (nodeJson node) = some node :=
        nodeAtDepth?_nodeJson node (fun _ => rfl) h.1
      have hrest := mapM_nodesJson rest h.2
      rw [nodesJson, List.mapM_cons, hnode, hrest]
      rfl

/-- Cases are read back one by one. -/
theorem mapM_casesJson : ∀ (cases : List (Branch String StoredNode)) {depth : Nat},
    depthOfItems (casesJson cases) ≤ depth →
      (casesJson cases).mapM (caseOfJson? (nodeAtDepth? innerKind? depth)) = some cases
  | [], _, _ => by
      rw [casesJson]
      rfl
  | ⟨key, body⟩ :: rest, depth, h => by
      rw [casesJson, depthOfItems, Nat.max_le] at h
      have hdepth : depthOfItems (nodesJson body) ≤ depth := by
        simp only [Json.depth, depthOfMembers] at h
        omega
      have hcase := caseOfJson?_of_nodes (mapM_nodesJson body hdepth) key
      have hrest := mapM_casesJson rest h.2
      rw [casesJson, List.mapM_cons, hcase, hrest]
      rfl

end

/-- **A node of a message is read back.** -/
theorem nodeOfJson?_nodeJson (node : StoredNode) : nodeOfJson? (nodeJson node) = some node :=
  nodeAtDepth?_nodeJson node (fun _ => rfl) (le_refl _)

lemma nodesJson_eq_map (nodes : List StoredNode) : nodesJson nodes = nodes.map nodeJson := by
  induction nodes with
  | nil => rw [nodesJson, List.map_nil]
  | cons node rest ih => rw [nodesJson, ih, List.map_cons]

/-! ### Bundles -/

lemma messageOfJson?_messageJson (m : StoredMessage) : messageOfJson? (messageJson m) = some m := by
  have hnodes : (nodesJson m.nodes).mapM nodeOfJson? = some m.nodes := by
    rw [nodesJson_eq_map, mapM_map nodeOfJson?_nodeJson]
  simp [messageOfJson?, messageJson, Json.fields?, Json.field?, Json.text?, Json.list?, hnodes]

/-- Values under keys in order are read back, if the values are. -/
lemma entries?_of_mapM {α : Type} {read : Json → Option α} {members : List (String × Json)}
    {entries : Entries α} (ho : entries.Ordered)
    (h : members.mapM (fun member => (read member.2).map fun value => (member.1, value)) =
      some entries) : Json.entries? read (.object members) = some entries := by
  rw [Json.entries?, h, Option.map_some, Entries.ofList_of_ordered ho]

mutual

/-- An entry in order is read back, with at least as many levels as its JSON has. -/
theorem entryAtDepth?_entryJson : ∀ (entry : Entry) {depth : Nat}, entry.Ordered →
    (entryJson entry).depth ≤ depth → entryAtDepth? depth (entryJson entry) = some entry
  | entry, 0, _, h => by
      cases entry <;> simp [entryJson, Json.depth] at h
  | .one m, depth + 1, _, h => by
      simp [entryJson, entryAtDepth?, Json.single?, messageOfJson?_messageJson]
  | .group entries, depth + 1, ho, h => by
      have hdepth : depthOfMembers (entriesJson entries) ≤ depth := by
        simp only [entryJson, Json.depth, depthOfMembers] at h
        omega
      have hentries := entries?_of_mapM ho.1 (mapM_entriesJson entries ho.2 hdepth)
      simp [entryJson, entryAtDepth?, Json.single?, hentries]

/-- Entries are read back one by one. -/
theorem mapM_entriesJson : ∀ (entries : List (String × Entry)) {depth : Nat},
    Bundle.OrderedEntries entries → depthOfMembers (entriesJson entries) ≤ depth →
      (entriesJson entries).mapM (fun member =>
        (entryAtDepth? depth member.2).map fun entry => (member.1, entry)) = some entries
  | [], _, _, _ => rfl
  | (key, entry) :: rest, depth, ho, h => by
      rw [entriesJson, depthOfMembers, Nat.max_le] at h
      have hentry := entryAtDepth?_entryJson entry ho.1 h.1
      have hrest := mapM_entriesJson rest ho.2 h.2
      rw [entriesJson, List.mapM_cons, hentry, hrest]
      rfl

end

/-- **An entry in order is read back.** -/
theorem entryOfJson?_entryJson {entry : Entry} (h : entry.Ordered) :
    entryOfJson? (entryJson entry) = some entry :=
  entryAtDepth?_entryJson entry h (le_refl _)

lemma entriesJson_eq_map (entries : List (String × Entry)) :
    entriesJson entries = entries.map fun e => (e.1, entryJson e.2) := by
  induction entries with
  | nil => rw [entriesJson, List.map_nil]
  | cons entry rest ih => rw [entriesJson, ih, List.map_cons]

lemma mapM_entryOfJson? : ∀ entries : List (String × Entry), Bundle.OrderedEntries entries →
    (entriesJson entries).mapM (fun member =>
      (entryOfJson? member.2).map fun entry => (member.1, entry)) = some entries
  | [], _ => rfl
  | (key, entry) :: rest, h => by
      have hrest := mapM_entryOfJson? rest h.2
      rw [entriesJson, List.mapM_cons, entryOfJson?_entryJson h.1, hrest]
      rfl

/-- The bundles that a body offers, each in the form of an entry. -/
def Body.forms (body : Body) : List Entry :=
  body.default.toList ++ ((body.exports.map .group).toList ++ body.assign.toList)

/-- The keys of all groups in a body are in order. -/
def Body.Ordered (body : Body) : Prop :=
  ∀ entry ∈ body.forms, entry.Ordered

lemma Body.mem_forms (body : Body) :
    (∀ entry ∈ body.default, entry ∈ body.forms) ∧
      (∀ entries ∈ body.exports, .group entries ∈ body.forms) ∧
        ∀ entry ∈ body.assign, entry ∈ body.forms := by
  refine ⟨fun entry h => ?_, fun entries h => ?_, fun entry h => ?_⟩
  · exact List.mem_append_left _ (Option.mem_toList.mpr h)
  · refine List.mem_append_right _ (List.mem_append_left _ (Option.mem_toList.mpr ?_))
    exact Option.mem_map_of_mem _ h
  · exact List.mem_append_right _ (List.mem_append_right _ (Option.mem_toList.mpr h))

lemma entryJson_ne_null (entry : Entry) : entryJson entry ≠ .null := by
  cases entry <;> simp [entryJson]

/-- **A body in order is read back.** -/
theorem bodyOfJson?_bodyJson {body : Body} (h : body.Ordered) :
    bodyOfJson? (bodyJson body) = some body := by
  obtain ⟨inDefault, inExports, inAssign⟩ := body.mem_forms
  have hdefault : Json.optional? entryOfJson? (body.default.map entryJson) = some body.default :=
    optional?_map (fun entry he => entryOfJson?_entryJson (h _ (inDefault entry he)))
      entryJson_ne_null
  have hexports : Json.optional? (Json.entries? entryOfJson?)
      (body.exports.map fun entries => .object (entriesJson entries)) = some body.exports := by
    refine optional?_map (fun entries he => ?_) fun _ hnull => nomatch hnull
    obtain ⟨ho, hinner⟩ := h _ (inExports entries he)
    refine entries?_of_mapM ho ?_
    exact mapM_entryOfJson? entries hinner
  have hassign : Json.optional? entryOfJson? (body.assign.map entryJson) = some body.assign :=
    optional?_map (fun entry he => entryOfJson?_entryJson (h _ (inAssign entry he)))
      entryJson_ne_null
  obtain ⟨default, exports, assign⟩ := body
  simp only at hdefault hexports hassign
  cases default <;> cases exports <;> cases assign <;>
    simp_all [bodyOfJson?, bodyJson, optionalMember, Json.fields?, Json.field?]

/-! ### Modules -/

/-- The keys of a module and of all groups in its body are in order. -/
structure Ordered (m : Module) : Prop where
  locales : m.locales.Ordered
  body : m.body.Ordered

lemma runtimeOfJson?_runtimeJson (runtime : Runtime) :
    runtimeOfJson? (runtimeJson runtime) = some runtime := by
  have hversion : Json.natural? 4294967296 (.integer runtime.version.toNat) =
      some runtime.version.toNat :=
    if_pos runtime.version.toNat_lt
  simp [runtimeOfJson?, runtimeJson, Json.fields?, Json.field?, Json.text?, textsOfJson?_textsJson,
    hversion]

lemma targetOfJson?_targetJson (target : Target) :
    targetOfJson? (targetJson target) = some target := by
  cases target with
  | named => rfl
  | default => rfl
  | path path => rfl
  | universal path => cases path <;> rfl

lemma importOfJson?_importJson (categories : Import) :
    importOfJson? (importJson categories) = some categories := by
  simp [importOfJson?, importJson, Json.fields?, Json.field?, textsOfJson?_textsJson]

/-- Imports by locale are read back, if the locales are in order. -/
lemma entries?_importJson {locales : Entries Import} (h : locales.Ordered) :
    Json.entries? importOfJson? (.object (locales.map fun (locale, categories) =>
      (locale, importJson categories))) = some locales := by
  apply entries?_of_mapM h
  have hread (entry : String × Import) :
      (importOfJson? (importJson entry.2)).map (fun value => (entry.1, value)) = some entry := by
    rw [importOfJson?_importJson]
    rfl
  exact mapM_map hread locales

/-- **A module in order is read back from its JSON.** -/
theorem ofJson?_json {m : Module} (h : m.Ordered) : ofJson? (json m) = some m := by
  have hlocales := entries?_importJson h.locales
  have hformatters : (m.formatters.map referenceJson).mapM referenceOfJson? = some m.formatters :=
    mapM_map referenceOfJson?_referenceJson m.formatters
  simp [ofJson?, json, Json.fields?, Json.field?, Json.text?, Json.list?,
    runtimeOfJson?_runtimeJson, targetOfJson?_targetJson, bodyOfJson?_bodyJson h.body, hlocales,
    hformatters]

end MessageCatalog.Module
