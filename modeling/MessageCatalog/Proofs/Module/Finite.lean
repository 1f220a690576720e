/-
The offsets of a module that is read are finite.

* `finite_fields?`, `finite_tagged?`, `forall_of_list?`, …: the readers of records take parts of a
  value;
* `finite_nodeOfJson?`, `finite_entryOfJson?`, `finite_bodyOfJson?`: what is read of a value with
  finite numbers has finite offsets;
* `finite_form`: what is read of a form has finite numbers;
* `finite_parse?`: so a module in a text has finite offsets.
-/
import MessageCatalog.Proofs.Json.Finite
import MessageCatalog.Proofs.Module.Export

namespace MessageCatalog

variable {α β : Type}

lemma optionBind_eq_some {x : Option α} {f : α → Option β} {b : β} :
    (x >>= f) = some b ↔ ∃ a, x = some a ∧ f a = some b :=
  Option.bind_eq_some_iff

/-- What a list is changed into is made of its members. -/
lemma forall_of_mapM {read : α → Option β} {p : β → Prop} {as : List α} {bs : List β}
    (hread : ∀ a ∈ as, ∀ b, read a = some b → p b) (h : as.mapM read = some bs) :
    ∀ b ∈ bs, p b := by
  induction as generalizing bs with
  | nil =>
      obtain rfl := Option.some.inj h
      exact fun b hb => nomatch hb
  | cons a rest ih =>
      rw [List.mapM_cons] at h
      obtain ⟨b, hb, h⟩ := optionBind_eq_some.mp h
      obtain ⟨others, hothers, h⟩ := optionBind_eq_some.mp h
      obtain rfl := Option.some.inj h
      obtain ⟨ha, hrest⟩ := List.forall_mem_cons.mp hread
      exact List.forall_mem_cons.mpr ⟨ha b hb, ih hrest hothers⟩

/-! ### Readers of records -/

namespace Json

lemma finite_number? {j : Json} {x : Float} (hj : j.Finite) (h : j.number? = some x) :
    Number.isFinite x = true := by
  cases j with
  | integer n =>
      obtain rfl := Option.some.inj h
      exact hj
  | real y =>
      obtain rfl := Option.some.inj h
      exact hj
  | _ => cases h

lemma finite_field? {members : List (String × Json)} {name : String} {value : Option Json}
    (hmembers : FiniteMembers members) (h : field? members name = some value) :
    ∀ j ∈ value, j.Finite := by
  rw [field?] at h
  split at h
  · obtain rfl := Option.some.inj h
    exact fun j hj => nomatch hj
  · rename_i key found hfilter
    obtain rfl := Option.some.inj h
    intro j hj
    obtain rfl := Option.some.inj hj
    have hmem : (key, found) ∈ members :=
      (List.mem_filter.mp (hfilter ▸ List.mem_singleton_self (key, found))).1
    exact finiteMembers_iff.mp hmembers _ hmem
  · cases h

/-- The values of the fields of a record are parts of the record. -/
lemma finite_fields? {j : Json} {names : List String} {values : List (Option Json)}
    (hj : j.Finite) (h : j.fields? names = some values) :
    ∀ value ∈ values, ∀ v ∈ value, v.Finite := by
  cases j with
  | object members =>
      rw [fields?] at h
      exact forall_of_mapM (fun name _ value hvalue => finite_field? hj hvalue) h
  | array items =>
      rw [fields?] at h
      split at h
      · obtain rfl := Option.some.inj h
        intro value hvalue v hv
        rcases List.mem_append.mp hvalue with hvalue | hvalue
        · obtain ⟨item, hitem, rfl⟩ := List.mem_map.mp hvalue
          obtain rfl := Option.some.inj hv
          exact finiteItems_iff.mp hj item hitem
        · rw [List.eq_of_mem_replicate hvalue] at hv
          cases hv
      · cases h
  | _ => cases h

/-- A record without its kind is a part of the record. -/
lemma finite_tagged? {j : Json} {name : String} {kind : Json → Option String} {k : String}
    {record : Json} (hj : j.Finite) (h : j.tagged? name kind = some (k, record)) :
    record.Finite := by
  cases j with
  | object members =>
      rw [tagged?] at h
      split at h
      · obtain ⟨_, _, heq⟩ := Option.map_eq_some_iff.mp h
        obtain ⟨_, rfl⟩ := Prod.mk.inj heq
        exact finiteMembers_iff.mpr fun e he =>
          finiteMembers_iff.mp hj e (List.mem_filter.mp he).1
      · cases h
  | array items =>
      cases items with
      | nil => cases h
      | cons tag items =>
          rw [tagged?] at h
          obtain ⟨_, _, heq⟩ := Option.map_eq_some_iff.mp h
          obtain ⟨_, rfl⟩ := Prod.mk.inj heq
          exact hj.2
  | _ => cases h

lemma finite_single? {j value : Json} {key : String} (hj : j.Finite)
    (h : j.single? = some (key, value)) : value.Finite := by
  rw [single?.eq_def] at h
  split at h
  · obtain rfl := Option.some.inj h
    exact hj.1
  · cases h

lemma forall_of_list? {read : Json → Option α} {p : α → Prop} {j : Json} {values : List α}
    (hread : ∀ item, item.Finite → ∀ a, read item = some a → p a) (hj : j.Finite)
    (h : list? read j = some values) : ∀ a ∈ values, p a := by
  cases j with
  | array items =>
      exact forall_of_mapM (fun item hitem => hread item (finiteItems_iff.mp hj item hitem)) h
  | _ => cases h

lemma forall_of_entries? {read : Json → Option α} {p : α → Prop} {j : Json} {values : Entries α}
    (hread : ∀ item, item.Finite → ∀ a, read item = some a → p a) (hj : j.Finite)
    (h : entries? read j = some values) : ∀ e ∈ values, p e.2 := by
  cases j with
  | object members =>
      obtain ⟨pairs, hpairs, rfl⟩ := Option.map_eq_some_iff.mp h
      have hall : ∀ e ∈ pairs, p e.2 := by
        refine forall_of_mapM (fun member hmember e he => ?_) hpairs
        obtain ⟨a, ha, rfl⟩ := Option.map_eq_some_iff.mp he
        exact hread member.2 (finiteMembers_iff.mp hj member hmember) a ha
      exact fun e he => hall e (Entries.mem_of_mem_ofList he)
  | _ => cases h

lemma forall_of_optional? {read : Json → Option α} {p : α → Prop} {value : Option Json}
    {result : Option α} (hread : ∀ j, j.Finite → ∀ a, read j = some a → p a)
    (hvalue : ∀ j ∈ value, j.Finite) (h : optional? read value = some result) :
    ∀ a ∈ result, p a := by
  rw [optional?.eq_def] at h
  split at h
  · obtain rfl := Option.some.inj h
    intro a ha
    cases ha
  · obtain rfl := Option.some.inj h
    intro a ha
    cases ha
  · rename_i j _
    obtain ⟨found, hfound, rfl⟩ := Option.map_eq_some_iff.mp h
    intro a ha
    obtain rfl := Option.some.inj ha
    exact hread j (hvalue j rfl) found hfound

end Json

namespace Module

open Json (Form)

/-! ### Nodes -/

/-- The cases of a choice have finite offsets if the nodes in them have. -/
lemma finite_caseOfJson? {node : Json → Option StoredNode}
    (hnode : ∀ j, j.Finite → ∀ n, node j = some n → n.All Node.Finite) {j : Json} (hj : j.Finite)
    {c : Branch String StoredNode} (h : caseOfJson? node j = some c) :
    Node.AllOf Node.Finite c.body := by
  rw [caseOfJson?] at h
  obtain ⟨values, hvalues, h⟩ := optionBind_eq_some.mp h
  have hfinite := Json.finite_fields? hj hvalues
  split at h
  · rename_i key body
    obtain ⟨text, _, h⟩ := optionBind_eq_some.mp h
    obtain ⟨nodes, hnodes, h⟩ := optionBind_eq_some.mp h
    obtain rfl := Option.some.inj h
    have hbody : body.Finite := hfinite (some body) (by simp) body rfl
    exact Node.allOf_iff.mpr (Json.forall_of_list? hnode hbody hnodes)
  · cases h

/-- A node has finite offsets if the nodes in it have. -/
lemma finite_nodeOfRecord? {node : Json → Option StoredNode}
    (hnode : ∀ j, j.Finite → ∀ n, node j = some n → n.All Node.Finite) {kind : String}
    {record : Json} (hrecord : record.Finite) {n : StoredNode}
    (h : nodeOfRecord? node kind record = some n) : n.All Node.Finite := by
  have hcase : ∀ j, j.Finite → ∀ c, caseOfJson? node j = some c → Node.AllOf Node.Finite c.body :=
    fun j hj c => finite_caseOfJson? hnode hj
  rw [nodeOfRecord?.eq_def] at h
  split at h
  case h_8 => cases h
  all_goals
    obtain ⟨values, hvalues, h⟩ := optionBind_eq_some.mp h
    have hfinite := Json.finite_fields? hrecord hvalues
    split at h
    case h_2 => cases h
  -- `text`, `arg`
  · obtain ⟨_, _, h⟩ := optionBind_eq_some.mp h
    obtain rfl := Option.some.inj h
    simp [Node.All, Node.Finite]
  · obtain ⟨_, _, h⟩ := optionBind_eq_some.mp h
    obtain rfl := Option.some.inj h
    simp [Node.All, Node.Finite]
  -- `number`
  · rename_i offset _
    obtain ⟨_, _, h⟩ := optionBind_eq_some.mp h
    obtain ⟨x, hx, h⟩ := optionBind_eq_some.mp h
    obtain ⟨_, _, h⟩ := optionBind_eq_some.mp h
    obtain rfl := Option.some.inj h
    have hoffset : offset.Finite := hfinite (some offset) (by simp) offset rfl
    simpa [Node.All, Node.Finite] using Json.finite_number? hoffset hx
  -- `call`
  · obtain ⟨_, _, h⟩ := optionBind_eq_some.mp h
    obtain ⟨_, _, h⟩ := optionBind_eq_some.mp h
    obtain ⟨_, _, h⟩ := optionBind_eq_some.mp h
    obtain ⟨_, _, h⟩ := optionBind_eq_some.mp h
    obtain rfl := Option.some.inj h
    simp [Node.All, Node.Finite]
  -- `plural`
  · rename_i offset _ cases
    obtain ⟨_, _, h⟩ := optionBind_eq_some.mp h
    obtain ⟨_, _, h⟩ := optionBind_eq_some.mp h
    obtain ⟨x, hx, h⟩ := optionBind_eq_some.mp h
    obtain ⟨_, _, h⟩ := optionBind_eq_some.mp h
    obtain ⟨branches, hbranches, h⟩ := optionBind_eq_some.mp h
    obtain rfl := Option.some.inj h
    have hoffset : offset.Finite := hfinite (some offset) (by simp) offset rfl
    have hcases : cases.Finite := hfinite (some cases) (by simp) cases rfl
    rw [Node.All]
    exact ⟨Json.finite_number? hoffset hx,
      Node.allPlural_iff.mpr (Json.forall_of_list? hcase hcases hbranches)⟩
  -- `select`
  · rename_i cases
    obtain ⟨_, _, h⟩ := optionBind_eq_some.mp h
    obtain ⟨branches, hbranches, h⟩ := optionBind_eq_some.mp h
    obtain rfl := Option.some.inj h
    have hcases : cases.Finite := hfinite (some cases) (by simp) cases rfl
    rw [Node.All]
    exact ⟨trivial, Node.allSelect_iff.mpr (Json.forall_of_list? hcase hcases hbranches)⟩
  -- `isolate`
  · rename_i inner
    obtain ⟨n, hn, h⟩ := optionBind_eq_some.mp h
    obtain rfl := Option.some.inj h
    have hinner : inner.Finite := hfinite (some inner) (by simp) inner rfl
    rw [Node.All]
    exact ⟨trivial, hnode inner hinner n hn⟩

lemma finite_nodeAtDepth? {kind : Json → Option String} {depth : Nat} {j : Json} (hj : j.Finite)
    {node : StoredNode} (h : nodeAtDepth? kind depth j = some node) : node.All Node.Finite := by
  induction depth generalizing kind j node with
  | zero => cases h
  | succ depth ih =>
      rw [nodeAtDepth?] at h
      split at h
      · rename_i name record htagged
        exact finite_nodeOfRecord? (fun inner hinner n hn => ih hinner hn)
          (Json.finite_tagged? hj htagged) h
      · cases h

/-- **A node that is read has finite offsets.** -/
theorem finite_nodeOfJson? {j : Json} (hj : j.Finite) {node : StoredNode}
    (h : nodeOfJson? j = some node) : node.All Node.Finite :=
  finite_nodeAtDepth? hj h

/-! ### Bundles -/

lemma finite_messageOfJson? {j : Json} (hj : j.Finite) {m : StoredMessage}
    (h : messageOfJson? j = some m) : Node.AllOf Node.Finite m.nodes := by
  rw [messageOfJson?] at h
  obtain ⟨values, hvalues, h⟩ := optionBind_eq_some.mp h
  have hfinite := Json.finite_fields? hj hvalues
  split at h
  · rename_i locale nodes
    obtain ⟨_, _, h⟩ := optionBind_eq_some.mp h
    obtain ⟨read, hread, h⟩ := optionBind_eq_some.mp h
    obtain rfl := Option.some.inj h
    have hnodes : nodes.Finite := hfinite (some nodes) (by simp) nodes rfl
    exact Node.allOf_iff.mpr
      (Json.forall_of_list? (fun item hitem node => finite_nodeOfJson? hitem) hnodes hread)
  · cases h

/-- The items of entries are those of the single ones. -/
lemma exists_of_mem_items {entries : List (String × Entry)} {m : StoredMessage}
    (h : m ∈ (Bundle.group entries).items) : ∃ e ∈ entries, m ∈ e.2.items := by
  rw [Bundle.items] at h
  induction entries with
  | nil => cases h
  | cons entry rest ih =>
      rw [Bundle.itemsOfEntries] at h
      rcases List.mem_append.mp h with h | h
      · exact ⟨entry, List.mem_cons_self, h⟩
      · obtain ⟨e, he, hm⟩ := ih h
        exact ⟨e, List.mem_cons_of_mem _ he, hm⟩

/-- A group of entries with finite offsets has finite offsets. -/
lemma finite_group {entries : List (String × Entry)} (h : ∀ e ∈ entries, Entry.Finite e.2) :
    Entry.Finite (.group entries) := by
  intro m hm
  obtain ⟨e, he, hm⟩ := exists_of_mem_items hm
  exact h e he m hm

lemma finite_entryAtDepth? {depth : Nat} {j : Json} (hj : j.Finite) {entry : Entry}
    (h : entryAtDepth? depth j = some entry) : Entry.Finite entry := by
  induction depth generalizing j entry with
  | zero => cases h
  | succ depth ih =>
      rw [entryAtDepth?] at h
      split at h
      · rename_i value hsingle
        obtain ⟨m, hm, rfl⟩ := Option.map_eq_some_iff.mp h
        intro message hmessage
        obtain rfl := List.mem_singleton.mp hmessage
        exact finite_messageOfJson? (Json.finite_single? hj hsingle) hm
      · rename_i value hsingle
        obtain ⟨entries, hentries, rfl⟩ := Option.map_eq_some_iff.mp h
        exact finite_group (Json.forall_of_entries? (fun item hitem entry => ih hitem)
          (Json.finite_single? hj hsingle) hentries)
      · cases h

/-- **An entry that is read has finite offsets.** -/
theorem finite_entryOfJson? {j : Json} (hj : j.Finite) {entry : Entry}
    (h : entryOfJson? j = some entry) : Entry.Finite entry :=
  finite_entryAtDepth? hj h

/-- **A body that is read has finite offsets.** -/
theorem finite_bodyOfJson? {j : Json} (hj : j.Finite) {body : Body}
    (h : bodyOfJson? j = some body) : body.Finite := by
  have hentry : ∀ j, j.Finite → ∀ entry, entryOfJson? j = some entry → Entry.Finite entry :=
    fun j hj entry => finite_entryOfJson? hj
  rw [bodyOfJson?] at h
  obtain ⟨values, hvalues, h⟩ := optionBind_eq_some.mp h
  have hfinite := Json.finite_fields? hj hvalues
  split at h
  · rename_i default exports assign
    obtain ⟨inDefault, hdefault, h⟩ := optionBind_eq_some.mp h
    obtain ⟨inExports, hexports, h⟩ := optionBind_eq_some.mp h
    obtain ⟨inAssign, hassign, h⟩ := optionBind_eq_some.mp h
    obtain rfl := Option.some.inj h
    refine Body.forall_forms ?_ ?_ ?_
    · exact Json.forall_of_optional? hentry (hfinite default (by simp)) hdefault
    · refine fun entries hentries => finite_group ?_
      exact Json.forall_of_optional? (fun j hj entries => Json.forall_of_entries? hentry hj)
        (hfinite exports (by simp)) hexports entries hentries
    · exact Json.forall_of_optional? hentry (hfinite assign (by simp)) hassign
  · cases h

/-! ### Modules -/

lemma finite_ofJson? {j : Json} (hj : j.Finite) {m : Module} (h : ofJson? j = some m) :
    m.body.Finite := by
  rw [ofJson?] at h
  obtain ⟨values, hvalues, h⟩ := optionBind_eq_some.mp h
  have hfinite := Json.finite_fields? hj hvalues
  split at h
  · rename_i _ _ _ _ _ body
    obtain ⟨_, _, h⟩ := optionBind_eq_some.mp h
    obtain ⟨_, _, h⟩ := optionBind_eq_some.mp h
    obtain ⟨_, _, h⟩ := optionBind_eq_some.mp h
    obtain ⟨_, _, h⟩ := optionBind_eq_some.mp h
    obtain ⟨_, _, h⟩ := optionBind_eq_some.mp h
    obtain ⟨read, hread, h⟩ := optionBind_eq_some.mp h
    obtain rfl := Option.some.inj h
    exact finite_bodyOfJson? (hfinite (some body) (by simp) body rfl) hread
  · cases h

/-- A record whose fields are read whole has no other numbers than what it is a part of. -/
lemma finite_record_id {fields : List (String × (Form → Form))}
    (hfields : ∀ field ∈ fields, field.2 = id) {form : Form} (h : form.Finite) :
    (Form.record fields form).Finite := by
  refine Form.finite_record (fun field hfield form hform => ?_) h
  rw [hfields field hfield]
  exact hform

lemma finite_messageForm {form : Form} (h : form.Finite) : (messageForm form).Finite :=
  finite_record_id (by simp) h

mutual

/-- What is read of an entry has finite numbers. -/
theorem finite_entryForm : ∀ {form : Form}, form.Finite → (entryForm form).Finite
  | .leaf _, h => by
      rw [entryForm]
      · exact h
      · exact fun _ heq => nomatch heq
  | .array _, h => by
      rw [entryForm]
      · exact h
      · exact fun _ heq => nomatch heq
  | .object members, .object h => by
      rw [entryForm]
      exact .object (finite_variantForms h)

theorem finite_variantForms : ∀ {members : List (Option String × Form)},
    (∀ e ∈ members, e.2.Finite) → ∀ e ∈ variantForms members, e.2.Finite
  | [], h => by
      rw [variantForms]
      exact h
  | (key, form) :: rest, h => by
      obtain ⟨hform, hrest⟩ := List.forall_mem_cons.mp h
      have htail := finite_variantForms hrest
      rw [variantForms.eq_def]
      split
      · rename_i heq
        cases heq
      · rename_i heq
        cases heq
        exact List.forall_mem_cons.mpr ⟨finite_messageForm hform, htail⟩
      · rename_i heq
        cases heq
        cases hform with
        | object hentries =>
            exact List.forall_mem_cons.mpr ⟨.object (finite_entryForms hentries), htail⟩
      · rename_i heq
        cases heq
        exact List.forall_mem_cons.mpr ⟨hform, htail⟩

theorem finite_entryForms : ∀ {entries : List (Option String × Form)},
    (∀ e ∈ entries, e.2.Finite) → ∀ e ∈ entryForms entries, e.2.Finite
  | [], h => by
      rw [entryForms]
      exact h
  | (key, entry) :: rest, h => by
      obtain ⟨hentry, hrest⟩ := List.forall_mem_cons.mp h
      rw [entryForms]
      exact List.forall_mem_cons.mpr ⟨finite_entryForm hentry, finite_entryForms hrest⟩

end

/-- What is read of a body has finite numbers. -/
lemma finite_bodyForm {form : Form} (h : form.Finite) : (bodyForm form).Finite := by
  have hentry : ∀ form, form.Finite → (entryForm form).Finite := fun _ => finite_entryForm
  refine Form.finite_record (fun field hfield form hform => ?_) h
  simp only [List.mem_cons, List.not_mem_nil, or_false] at hfield
  rcases hfield with rfl | rfl | rfl
  · exact finite_entryForm hform
  · exact Form.finite_table hentry hform
  · exact finite_entryForm hform

/-- What is read of a module has finite numbers. -/
lemma finite_form {whole : Form} (h : whole.Finite) : (form whole).Finite := by
  have himport : ∀ part : Form, part.Finite →
      (Form.record [("cardinal", id), ("ordinal", id)] part).Finite :=
    fun _ => finite_record_id (by simp)
  refine Form.finite_record (fun field hfield part hpart => ?_) h
  simp only [List.mem_cons, List.not_mem_nil, or_false] at hfield
  rcases hfield with rfl | rfl | rfl | rfl | rfl | rfl
  · exact finite_record_id (by simp) hpart
  · exact hpart
  · exact Form.finite_table himport hpart
  · exact hpart
  · exact hpart
  · exact finite_bodyForm hpart

/-- **A module in a text has finite offsets.** -/
theorem finite_parse? {text : String} {m : Module} (h : parse? text = some m) :
    m.body.Finite := by
  rw [parse?] at h
  obtain ⟨whole, hwhole, h⟩ := optionBind_eq_some.mp h
  obtain ⟨j, hj, h⟩ := optionBind_eq_some.mp h
  exact finite_ofJson? (Form.finite_value? (finite_form (Json.finite_parse? hwhole)) hj) h

end Module

end MessageCatalog
