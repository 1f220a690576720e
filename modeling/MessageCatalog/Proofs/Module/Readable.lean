/-
Which modules are read back from their text.

An offset that is not finite is written as null, which is not read as a number. So a module is read
back if all its offsets are finite and its text is not nested too deeply, and it is not read at all
otherwise.

* `Json.prettyAt_written`: a value has the text of what the text holds of it;
* `nodeAtDepth?_written`, `entryAtDepth?_written`, `finite_of_bodyOfJson?_written`: what has an
  offset that is not finite is not read;
* `Readable`, `parse?_text_cases`: the modules that are read back, and all others.
-/
import MessageCatalog.Proofs.Json.Compact
import MessageCatalog.Proofs.Module.Canonical
import MessageCatalog.Proofs.Module.Nesting

namespace MessageCatalog

/-! ### Texts of values -/

namespace Json

lemma written_array (items : List Json) : (array items).written = .array (writtenItems items) :=
  rfl

lemma written_object (members : List (String × Json)) :
    (object members).written = .object (writtenMembers members) := rfl

mutual

/-- If a text can hold a value, it holds all of it. -/
theorem written_of_storable : ∀ j : Json, j.Storable → j.written = j
  | .null, _ | .bool _, _ | .integer _, _ | .string _, _ => rfl
  | .real _, h => if_pos h
  | .array items, h => congrArg Json.array (writtenItems_of_storable items h)
  | .object members, h => congrArg Json.object (writtenMembers_of_storable members h)

theorem writtenItems_of_storable : ∀ items : List Json, StorableItems items →
    writtenItems items = items
  | [], _ => rfl
  | item :: rest, h => by
      rw [writtenItems, written_of_storable item h.1, writtenItems_of_storable rest h.2]

theorem writtenMembers_of_storable : ∀ members : List (String × Json), StorableMembers members →
    writtenMembers members = members
  | [], _ => rfl
  | (key, value) :: rest, h => by
      rw [writtenMembers, written_of_storable value h.1, writtenMembers_of_storable rest h.2]

end

lemma prettyItems_comma (level : Nat) (item next : Json) (rest : List Json) :
    prettyItems level (item :: next :: rest) =
      newline level ++ (item.prettyAt level ++ ',' :: prettyItems level (next :: rest)) :=
  rfl

lemma prettyMembers_comma (level : Nat) (key : String) (value : Json) (next : String × Json)
    (rest : List (String × Json)) :
    prettyMembers level ((key, value) :: next :: rest) =
      newline level ++ (quoted key ++
        ':' :: ' ' :: (value.prettyAt level ++ ',' :: prettyMembers level (next :: rest))) :=
  rfl

mutual

/-- A value has the text of what the text holds of it, at any level. -/
theorem prettyAt_written (level : Nat) : ∀ j : Json, j.written.prettyAt level = j.prettyAt level
  | .null => rfl
  | .bool _ => rfl
  | .integer _ => rfl
  | .real x => by
      by_cases hfinite : Number.isFinite x = true
      · rw [written, if_pos hfinite]
      · rw [written, if_neg hfinite, prettyAt, prettyAt, realText, if_neg hfinite]
  | .string _ => rfl
  | .array [] => rfl
  | .array (item :: rest) => by
      have hitems := prettyItems_written (level + 1) (item :: rest)
      rw [writtenItems] at hitems
      rw [written, writtenItems, prettyAt, prettyAt, hitems] <;> exact List.cons_ne_nil _ _
  | .object [] => rfl
  | .object ((key, value) :: rest) => by
      have hmembers := prettyMembers_written (level + 1) ((key, value) :: rest)
      rw [writtenMembers] at hmembers
      rw [written, writtenMembers, prettyAt, prettyAt, hmembers] <;> exact List.cons_ne_nil _ _

theorem prettyItems_written (level : Nat) : ∀ items : List Json,
    prettyItems level (writtenItems items) = prettyItems level items
  | [] => rfl
  | [item] => by
      rw [writtenItems, writtenItems, prettyItems, prettyItems, prettyAt_written level item]
  | item :: next :: rest => by
      have hrest := prettyItems_written level (next :: rest)
      rw [writtenItems] at hrest
      rw [writtenItems, writtenItems, prettyItems_comma, prettyItems_comma,
        prettyAt_written level item, hrest]

theorem prettyMembers_written (level : Nat) : ∀ members : List (String × Json),
    prettyMembers level (writtenMembers members) = prettyMembers level members
  | [] => rfl
  | [(key, value)] => by
      rw [writtenMembers, writtenMembers, prettyMembers, prettyMembers,
        prettyAt_written level value]
  | (key, value) :: (key', value') :: rest => by
      have hrest := prettyMembers_written level ((key', value') :: rest)
      rw [writtenMembers] at hrest
      rw [writtenMembers, writtenMembers, prettyMembers_comma, prettyMembers_comma,
        prettyAt_written level value, hrest]

end

end Json

namespace Module

open Json (Form Storable written writtenItems writtenMembers)

/-! ### Nodes -/

lemma number?_written {offset : Float} (h : Number.isFinite offset ≠ true) :
    (Json.real offset).written.number? = none := by
  rw [written, if_neg h, Json.number?] <;> rintro _ ⟨⟩

lemma mapM_cons_eq_none {α β : Type} {read : α → Option β} {a : α} {rest : List α}
    (h : read a = none ∨ rest.mapM read = none) : (a :: rest).mapM read = none := by
  rw [List.mapM_cons]
  rcases h with h | h
  · rw [h]
    rfl
  · rw [h]
    cases read a <;> rfl

/-- The kind of a node stays as it is. -/
lemma written_kind (name : String) (members : List (String × Json)) :
    (Json.object (("op", .string name) :: members)).written =
      .object (("op", .string name) :: writtenMembers members) := rfl

mutual

/-- **A node with an offset that is not finite is not read**, wherever in it the offset is. -/
theorem nodeAtDepth?_written : ∀ (node : StoredNode) {kind : Json → Option String} {depth : Nat},
    (∀ text, kind (.string text) = some text) → ¬node.All Node.Finite →
      nodeAtDepth? kind depth (nodeJson node).written = none
  | _, _, 0, _, _ => rfl
  | .text _, _, _, _, h | .argument _, _, _, _, h | .call .., _, _, _, h => by
      simp [Node.All, Node.Finite] at h
  | .numberSign arg offset strict, kind, depth + 1, hkind, h => by
      have hnumber : (Json.real offset).written.number? = none :=
        number?_written (by simpa [Node.All, Node.Finite] using h)
      rw [nodeJson, written_kind, nodeAtDepth?_object hkind _ _ (by simp [writtenMembers])]
      simp [nodeOfRecord?, writtenMembers, Json.fields?, Json.field?, hnumber]
  | .plural arg kind' offset locale cases, kind, depth + 1, hkind, h => by
      rw [Node.All, not_and_or] at h
      rw [nodeJson, written_kind, nodeAtDepth?_object hkind _ _ (by simp [writtenMembers])]
      -- The offset is no finite number and has been written as null, or such a number is inside.
      rcases h with h | h
      · have hnumber := number?_written h
        simp [nodeOfRecord?, writtenMembers, Json.fields?, Json.field?, hnumber]
      · have hnone : (writtenItems (casesJson cases)).mapM
            (caseOfJson? (nodeAtDepth? innerKind? depth)) = none :=
          mapM_casesJson_written cases h
        simp [nodeOfRecord?, writtenMembers, Json.fields?, Json.field?, Json.written_array,
          Json.list?, hnone]
  | .select arg cases, kind, depth + 1, hkind, h => by
      have hnone : (writtenItems (casesJson cases)).mapM
          (caseOfJson? (nodeAtDepth? innerKind? depth)) = none := by
        refine mapM_casesJson_written cases fun hcases => h ?_
        rw [Node.All, Node.allSelect_iff]
        exact ⟨trivial, Node.allPlural_iff.mp hcases⟩
      rw [nodeJson, written_kind, nodeAtDepth?_object hkind _ _ (by simp [writtenMembers])]
      simp [nodeOfRecord?, writtenMembers, Json.fields?, Json.field?, Json.written_array,
        Json.list?, hnone]
  | .isolate inner, kind, depth + 1, hkind, h => by
      rw [Node.All] at h
      have hnone : nodeAtDepth? innerKind? depth (nodeJson inner).written = none :=
        nodeAtDepth?_written inner (fun _ => rfl) fun hinner => h ⟨trivial, hinner⟩
      rw [nodeJson, written_kind, nodeAtDepth?_object hkind _ _ (by simp [writtenMembers])]
      simp [nodeOfRecord?, writtenMembers, Json.fields?, Json.field?, hnone]

theorem mapM_nodesJson_written : ∀ (nodes : List StoredNode) {depth : Nat},
    ¬Node.AllOf Node.Finite nodes →
      (writtenItems (nodesJson nodes)).mapM (nodeAtDepth? innerKind? depth) = none
  | [], _, h => absurd (by rw [Node.AllOf]; trivial) h
  | node :: rest, depth, h => by
      rw [Node.AllOf, not_and_or] at h
      rw [nodesJson, writtenItems]
      exact mapM_cons_eq_none <| h.imp (nodeAtDepth?_written node fun _ => rfl)
        (mapM_nodesJson_written rest)

theorem mapM_casesJson_written : ∀ (cases : List (Branch String StoredNode)) {depth : Nat},
    ¬Node.AllPlural Node.Finite cases →
      (writtenItems (casesJson cases)).mapM (caseOfJson? (nodeAtDepth? innerKind? depth)) = none
  | [], _, h => absurd (by rw [Node.AllPlural]; trivial) h
  | ⟨key, body⟩ :: rest, depth, h => by
      rw [Node.AllPlural, not_and_or] at h
      rw [casesJson, writtenItems]
      refine mapM_cons_eq_none (h.imp (fun hbody => ?_) (mapM_casesJson_written rest))
      have hnone : (writtenItems (nodesJson body)).mapM (nodeAtDepth? innerKind? depth) = none :=
        mapM_nodesJson_written body hbody
      rw [Json.written_object]
      simp [caseOfJson?, writtenMembers, Json.fields?, Json.field?, Json.written_array, Json.list?,
        hnone]

end

/-! ### Bundles -/

lemma messageOfJson?_written {m : StoredMessage} (h : ¬Node.AllOf Node.Finite m.nodes) :
    messageOfJson? (messageJson m).written = none := by
  have hnodes : ∀ nodes, ¬Node.AllOf Node.Finite nodes →
      (writtenItems (nodesJson nodes)).mapM nodeOfJson? = none := by
    intro nodes h
    induction nodes with
    | nil => exact absurd (by rw [Node.AllOf]; trivial) h
    | cons node rest ih =>
        rw [Node.AllOf, not_and_or] at h
        rw [nodesJson, writtenItems]
        exact mapM_cons_eq_none (h.imp (nodeAtDepth?_written node fun _ => rfl) ih)
  rw [messageJson, Json.written_object]
  simp [messageOfJson?, writtenMembers, Json.fields?, Json.field?, Json.written_array, Json.list?,
    hnodes m.nodes h]

mutual

/-- **An entry with an offset that is not finite is not read.** -/
theorem entryAtDepth?_written : ∀ (entry : Entry) {depth : Nat}, ¬Entry.Finite entry →
    entryAtDepth? depth (entryJson entry).written = none
  | _, 0, _ => rfl
  | .one m, depth + 1, h => by
      have hm : ¬Node.AllOf Node.Finite m.nodes := fun hm => h fun m' hm' =>
        List.mem_singleton.mp hm' ▸ hm
      rw [entryJson, Json.written_object, writtenMembers, writtenMembers, entryAtDepth?]
      simp [Json.single?, messageOfJson?_written hm]
  | .group entries, depth + 1, h => by
      have hnone := mapM_entriesJson_written entries (entryAtDepth? depth)
        (fun _ => ⟨depth, rfl⟩) h
      rw [entryJson, Json.written_object, writtenMembers, writtenMembers, entryAtDepth?]
      simp [Json.single?, Json.written_object, Json.entries?, hnone]

theorem mapM_entriesJson_written : ∀ (entries : List (String × Entry))
    (read : Json → Option Entry), (∀ j, ∃ depth, read j = entryAtDepth? depth j) →
    (¬∀ m ∈ Bundle.itemsOfEntries entries, Node.AllOf Node.Finite m.nodes) →
      (writtenMembers (entriesJson entries)).mapM (fun member =>
        (read member.2).map fun entry => (member.1, entry)) = none
  | [], _, _, h => absurd (fun _ hm => nomatch hm) h
  | (key, entry) :: rest, read, hread, h => by
      rw [Bundle.itemsOfEntries, List.forall_mem_append, not_and_or] at h
      rw [entriesJson, writtenMembers]
      refine mapM_cons_eq_none (h.imp (fun hentry => ?_) (mapM_entriesJson_written rest read hread))
      obtain ⟨depth, hdepth⟩ := hread (entryJson entry).written
      rw [hdepth, entryAtDepth?_written entry hentry, Option.map_none]

end

/-- What is read of the text of a body, form by form. -/
lemma bodyOfJson?_written_eq (body : Body) : bodyOfJson? (bodyJson body).written = (do
    return ⟨← Json.optional? entryOfJson? (body.default.map fun entry => (entryJson entry).written),
      ← Json.optional? (Json.entries? entryOfJson?)
        (body.exports.map fun entries => (Json.object (entriesJson entries)).written),
      ← Json.optional? entryOfJson? (body.assign.map fun entry => (entryJson entry).written)⟩) := by
  obtain ⟨default, exports, assign⟩ := body
  cases default <;> cases exports <;> cases assign <;> rfl

/-- What may be left out is read only if it can be read. -/
lemma forall_of_optional?_map {α : Type} {read : Json → Option α} {write : α → Json} {p : α → Prop}
    (hread : ∀ a, ¬p a → read (write a) = none) (hnull : ∀ a, write a ≠ .null)
    {value result : Option α} (h : Json.optional? read (value.map write) = some result) :
    ∀ a ∈ value, p a := by
  rintro a rfl
  by_contra hp
  rw [Option.map_some, Json.optional?, hread a hp] at h
  · cases h
  · exact hnull a

/-- **A body that is read from its text has finite offsets.** -/
theorem finite_of_bodyOfJson?_written {body body' : Body}
    (h : bodyOfJson? (bodyJson body).written = some body') : body.Finite := by
  rw [bodyOfJson?_written_eq] at h
  obtain ⟨_, hdefault, h⟩ := optionBind_eq_some.mp h
  obtain ⟨_, hexports, h⟩ := optionBind_eq_some.mp h
  obtain ⟨_, hassign, -⟩ := optionBind_eq_some.mp h
  have hentry : ∀ entry : Entry, ¬entry.Finite → entryOfJson? (entryJson entry).written = none :=
    fun entry => entryAtDepth?_written entry
  have hnull : ∀ entry : Entry, (entryJson entry).written ≠ .null := by
    intro entry
    cases entry <;> simp [entryJson, Json.written_object]
  refine Body.forall_forms ?_ ?_ ?_
  · exact forall_of_optional?_map hentry hnull hdefault
  · refine forall_of_optional?_map (fun entries hentries => ?_) (fun _ => Json.noConfusion) hexports
    have hnone := mapM_entriesJson_written entries entryOfJson? (fun j => ⟨j.depth, rfl⟩) hentries
    rw [Json.written_object, Json.entries?, hnone, Option.map_none]
  · exact forall_of_optional?_map hentry hnull hassign

/-! ### What is read of the text of a body -/

mutual

theorem entryForm_written : ∀ entry : Entry,
    entryForm (Form.ofJson (entryJson entry).written) = Form.ofJson (entryJson entry).written
  | .one m => by
      have hm : messageForm (Form.ofJson (messageJson m).written) =
          Form.ofJson (messageJson m).written := by
        rw [messageJson, Json.written_object]
        exact record_ofJson (by simp [writtenMembers, List.lookup])
      simp only [entryJson, Json.written_object, writtenMembers, Form.ofJson, Form.ofMembers,
        entryForm, variantForms] at hm ⊢
      rw [hm]
  | .group entries => by
      have hentries := entryForms_written entries
      simp only [entryJson, Json.written_object, writtenMembers, Form.ofJson, Form.ofMembers,
        entryForm, variantForms, hentries]

theorem entryForms_written : ∀ entries : List (String × Entry),
    entryForms (Form.ofMembers (writtenMembers (entriesJson entries))) =
      Form.ofMembers (writtenMembers (entriesJson entries))
  | [] => rfl
  | (key, entry) :: rest => by
      rw [entriesJson, writtenMembers, Form.ofMembers, entryForms, entryForm_written entry,
        entryForms_written rest]

end

lemma mem_writtenMembers {member : String × Json} {members : List (String × Json)}
    (h : member ∈ writtenMembers members) :
    ∃ other ∈ members, member = (other.1, other.2.written) := by
  induction members with
  | nil => cases h
  | cons other rest ih =>
      rw [writtenMembers] at h
      rcases List.mem_cons.mp h with rfl | h
      · exact ⟨other, List.mem_cons_self, rfl⟩
      · obtain ⟨found, hfound, heq⟩ := ih h
        exact ⟨found, List.mem_cons_of_mem _ hfound, heq⟩

/-- What is read of the text of a body is all of it. -/
theorem bodyForm_written (body : Body) :
    bodyForm (Form.ofJson (bodyJson body).written) = Form.ofJson (bodyJson body).written := by
  rw [bodyJson, Json.written_object]
  refine record_ofJson fun member hmember => ?_
  obtain ⟨⟨key, value⟩, hother, rfl⟩ := mem_writtenMembers hmember
  rcases List.mem_append.mp hother with hother | hother
  · rcases List.mem_append.mp hother with hother | hother
    · obtain ⟨rfl, hvalue⟩ := mem_optionalMember hother
      obtain ⟨entry, -, rfl⟩ := Option.map_eq_some_iff.mp hvalue
      exact ⟨entryForm, by simp [List.lookup], entryForm_written entry⟩
    · obtain ⟨rfl, hvalue⟩ := mem_optionalMember hother
      obtain ⟨entries, -, rfl⟩ := Option.map_eq_some_iff.mp hvalue
      refine ⟨Form.table entryForm, by simp [List.lookup], table_ofJson fun member hm => ?_⟩
      obtain ⟨other, hother, rfl⟩ := mem_writtenMembers hm
      rw [entriesJson_eq_map] at hother
      obtain ⟨e, -, rfl⟩ := List.mem_map.mp hother
      exact entryForm_written e.2
  · obtain ⟨rfl, hvalue⟩ := mem_optionalMember hother
    obtain ⟨entry, -, rfl⟩ := Option.map_eq_some_iff.mp hvalue
    exact ⟨entryForm, by simp [List.lookup], entryForm_written entry⟩

/-! ### Modules -/

/-- What the text of a module holds of it. -/
def textual (m : Module) : Json :=
  .object [("runtime", runtimeJson m.runtime), ("export", targetJson m.target),
    ("locales", .object (m.locales.map fun (locale, categories) =>
      (locale, importJson categories))),
    ("formatters", .array (m.formatters.map referenceJson)),
    ("digest", .string m.digest), ("body", (bodyJson m.body).written)]

/-- A text can hold all of a module but for its body. -/
lemma storable_textual (m : Module) : (textual m).Storable ∧ (json m).written = textual m := by
  have hempty : Storable (json { m with body := {} }) :=
    storable_json fun _ hform => nomatch hform
  obtain ⟨hruntime, htarget, hlocales, hformatters, hdigest, -, -⟩ := hempty
  refine ⟨⟨hruntime, htarget, hlocales, hformatters, hdigest,
    Json.storable_written _ (plain_bodyJson m.body), trivial⟩, ?_⟩
  rw [json, Json.written_object]
  simp only [writtenMembers]
  rw [Json.written_of_storable _ hruntime, Json.written_of_storable _ htarget,
    Json.written_of_storable (.object _) hlocales, Json.written_of_storable (.array _) hformatters,
    Json.written_of_storable _ hdigest, textual]

/-- The form of the text of a module, of which nothing is left out. -/
lemma parse?_text_form (m : Module) : Form.parse? m.text = some (Form.ofJson (textual m)) ∧
    form (Form.ofJson (textual m)) = Form.ofJson (textual m) := by
  obtain ⟨hstorable, hwritten⟩ := storable_textual m
  constructor
  · have htext : m.text = (textual m).pretty := by
      rw [← hwritten, Json.pretty, Json.prettyAt_written]
      rfl
    rw [htext, Json.parse?_pretty hstorable]
  · have hruntime : Form.record [("name", id), ("version", id), ("primitives", id)]
        (Form.ofJson (runtimeJson m.runtime)) = Form.ofJson (runtimeJson m.runtime) :=
      record_ofJson (by simp [List.lookup])
    have hlocales := tableForm_importsJson m.locales
    have hbody := bodyForm_written m.body
    apply record_ofJson
    simp [List.lookup, hruntime, hlocales, hbody]

/-- **A module that is read from its text has finite offsets.** -/
theorem finite_of_parse?_text {m m' : Module} (h : parse? m.text = some m') : m.body.Finite := by
  obtain ⟨hparse, hform⟩ := parse?_text_form m
  rw [parse?, hparse, Option.bind_eq_bind, Option.bind_some, hform] at h
  obtain ⟨j, hj, hread⟩ := Option.bind_eq_some_iff.mp h
  obtain rfl := Json.eq_of_value?_ofJson hj
  have hfields : (textual m).fields? ["runtime", "export", "locales", "formatters", "digest",
      "body"] = some [some (runtimeJson m.runtime), some (targetJson m.target),
        some (.object (m.locales.map fun (locale, categories) => (locale, importJson categories))),
        some (.array (m.formatters.map referenceJson)), some (.string m.digest),
        some (bodyJson m.body).written] := rfl
  rw [ofJson?, hfields, Option.bind_eq_bind, Option.bind_some] at hread
  obtain ⟨_, -, hread⟩ := optionBind_eq_some.mp hread
  obtain ⟨_, -, hread⟩ := optionBind_eq_some.mp hread
  obtain ⟨_, -, hread⟩ := optionBind_eq_some.mp hread
  obtain ⟨_, -, hread⟩ := optionBind_eq_some.mp hread
  obtain ⟨_, -, hread⟩ := optionBind_eq_some.mp hread
  obtain ⟨body, hbody, -⟩ := optionBind_eq_some.mp hread
  exact finite_of_bodyOfJson?_written hbody

/-- The modules that are read back from their text: their offsets are finite, and the text is not
nested too deeply. -/
structure Readable (m : Module) : Prop where
  finite : m.body.Finite
  depth : (json m).depth ≤ Json.nestingLimit

/-- **Either a module is read back from its text, or nothing is read from it**, and which of the two
can be told from the module. -/
theorem parse?_text_cases {m : Module} (ho : m.Ordered) :
    (Readable m ∧ parse? m.text = some m) ∨ (¬Readable m ∧ parse? m.text = none) := by
  by_cases h : Readable m
  · exact .inl ⟨h, parse?_text ho h.finite h.depth⟩
  · refine .inr ⟨h, Option.eq_none_iff_forall_ne_some.mpr fun m' hread => h ?_⟩
    have hfinite := finite_of_parse?_text hread
    refine ⟨hfinite, Nat.not_lt.mp fun hdeep => ?_⟩
    rw [parse?_text_of_deep hfinite hdeep] at hread
    cases hread

end Module

end MessageCatalog
