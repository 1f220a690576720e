/-
A module whose body has been changed is not loaded.

* `plain_bodyJson`: there are no nulls and integers in the JSON of a body;
* `bodyJson_injective`: different bodies have different JSON;
* `eq_of_canonical`: a body with finite offsets shares its canonical text with no other body;
* `Digest.Collide`: different bytes with one hash;
* `load_tampered`: so a text with the hash of a module but with another body is refused, unless it
  holds such a collision.
-/
import MessageCatalog.Proofs.Json.Compact
import MessageCatalog.Proofs.Module.Finite
import MessageCatalog.Proofs.Module.Load

namespace MessageCatalog

/-! ### Bytes -/

lemma toList_loop (bytes : ByteArray) (i : Nat) (read : List UInt8) :
    ByteArray.toList.loop bytes i read = read.reverse ++ bytes.data.toList.drop i := by
  fun_induction ByteArray.toList.loop bytes i read with
  | case1 i read hi ih =>
      have hlength : i < bytes.data.toList.length := hi
      have hget : bytes.get! i = bytes.data.toList[i] := getElem!_pos bytes.data i hi
      rw [ih, List.drop_eq_getElem_cons hlength, hget, List.reverse_cons, List.append_assoc,
        List.singleton_append]
  | case2 i read hi =>
      have hlength : bytes.data.toList.length ≤ i := Nat.not_lt.mp hi
      rw [List.drop_eq_nil_of_le hlength, List.append_nil]

/-- Different texts have different bytes. -/
lemma eq_of_bytes {s t : String} (h : s.toUTF8.toList = t.toUTF8.toList) : s = t := by
  rw [ByteArray.toList, ByteArray.toList, toList_loop, toList_loop] at h
  apply String.toByteArray_inj.mp
  apply ByteArray.ext
  exact Array.toList_inj.mp h

/-- Different bytes with one hash. -/
structure Digest.Collide (xs ys : List UInt8) : Prop where
  distinct : xs ≠ ys
  same : Digest.sha256 xs = Digest.sha256 ys

namespace Module

open Formatting (Reference Style)
open Json (Plain PlainItems PlainMembers)

/-! ### JSON without nulls and integers -/

lemma plainMembers_append {members others : List (String × Json)} (h : PlainMembers members)
    (ho : PlainMembers others) : PlainMembers (members ++ others) := by
  induction members with
  | nil => exact ho
  | cons member rest ih => exact ⟨h.1, ih h.2⟩

lemma plain_optionalMember {key : String} {value : Option Json} (h : ∀ j ∈ value, Plain j) :
    PlainMembers (optionalMember key value) := by
  cases value with
  | none => trivial
  | some j => exact ⟨h j rfl, trivial⟩

lemma plain_styleJson (style : Style) : Plain (styleJson style) := by
  cases style with
  | single text => trivial
  | list texts =>
      show PlainItems (texts.map Json.string)
      induction texts with
      | nil => trivial
      | cons text rest ih => exact ⟨trivial, ih⟩

lemma plain_referenceJson (reference : Reference) : Plain (referenceJson reference) := by
  cases reference <;> exact ⟨trivial, trivial⟩

mutual

theorem plain_nodeJson : ∀ node : StoredNode, Plain (nodeJson node)
  | .text _ => by simp [nodeJson, Plain, PlainMembers]
  | .argument _ => by simp [nodeJson, Plain, PlainMembers]
  | .numberSign _ _ _ => by simp [nodeJson, Plain, PlainMembers]
  | .call _ formatter _ style => by
      rw [nodeJson]
      refine plainMembers_append ?_ (plain_optionalMember ?_)
      · exact ⟨trivial, trivial, plain_referenceJson formatter, trivial, trivial⟩
      · intro j hj
        obtain ⟨s, _, rfl⟩ := Option.map_eq_some_iff.mp hj
        exact plain_styleJson s
  | .plural _ _ _ _ cases => by
      have hcases := plain_casesJson cases
      simp [nodeJson, Plain, PlainMembers, hcases]
  | .select _ cases => by
      have hcases := plain_casesJson cases
      simp [nodeJson, Plain, PlainMembers, hcases]
  | .isolate inner => by
      have hinner := plain_nodeJson inner
      simp [nodeJson, Plain, PlainMembers, hinner]

theorem plain_nodesJson : ∀ nodes : List StoredNode, PlainItems (nodesJson nodes)
  | [] => by
      rw [nodesJson]
      trivial
  | node :: rest => by
      rw [nodesJson]
      exact ⟨plain_nodeJson node, plain_nodesJson rest⟩

theorem plain_casesJson : ∀ cases : List (Branch String StoredNode), PlainItems (casesJson cases)
  | [] => by
      rw [casesJson]
      trivial
  | ⟨_, body⟩ :: rest => by
      rw [casesJson]
      exact ⟨⟨trivial, plain_nodesJson body, trivial⟩, plain_casesJson rest⟩

end

mutual

theorem plain_entryJson : ∀ entry : Entry, Plain (entryJson entry)
  | .one m => by
      have hnodes := plain_nodesJson m.nodes
      simp [entryJson, messageJson, Plain, PlainMembers, hnodes]
  | .group entries => by
      have hentries := plain_entriesJson entries
      simp [entryJson, Plain, PlainMembers, hentries]

theorem plain_entriesJson : ∀ entries : List (String × Entry), PlainMembers (entriesJson entries)
  | [] => by
      rw [entriesJson]
      trivial
  | (_, entry) :: rest => by
      rw [entriesJson]
      exact ⟨plain_entryJson entry, plain_entriesJson rest⟩

end

/-- **There are no nulls and integers in the JSON of a body.** -/
theorem plain_bodyJson (body : Body) : Plain (bodyJson body) := by
  rw [bodyJson]
  refine plainMembers_append (plainMembers_append ?_ ?_) ?_
  · refine plain_optionalMember fun j hj => ?_
    obtain ⟨entry, _, rfl⟩ := Option.map_eq_some_iff.mp hj
    exact plain_entryJson entry
  · refine plain_optionalMember fun j hj => ?_
    obtain ⟨entries, _, rfl⟩ := Option.map_eq_some_iff.mp hj
    exact plain_entriesJson entries
  · refine plain_optionalMember fun j hj => ?_
    obtain ⟨entry, _, rfl⟩ := Option.map_eq_some_iff.mp hj
    exact plain_entryJson entry

/-! ### Different bodies -/

/-- Different messages have different JSON, as they are read back from it. -/
lemma messageJson_injective : Function.Injective messageJson := by
  intro m m' h
  have hread := congrArg messageOfJson? h
  rw [messageOfJson?_messageJson, messageOfJson?_messageJson] at hread
  exact Option.some.inj hread

mutual

theorem eq_of_entryJson : ∀ {entry entry' : Entry}, entryJson entry = entryJson entry' →
    entry = entry'
  | .one m, .one m', h => by
      simp only [entryJson, Json.object.injEq, List.cons.injEq, Prod.mk.injEq, true_and,
        and_true] at h
      rw [messageJson_injective h]
  | .one m, .group entries, h => by simp [entryJson] at h
  | .group entries, .one m, h => by simp [entryJson] at h
  | .group entries, .group entries', h => by
      simp only [entryJson, Json.object.injEq, List.cons.injEq, Prod.mk.injEq, true_and,
        and_true] at h
      rw [eq_of_entriesJson h]

theorem eq_of_entriesJson : ∀ {entries entries' : List (String × Entry)},
    entriesJson entries = entriesJson entries' → entries = entries'
  | [], [], _ => rfl
  | [], _ :: _, h => by simp [entriesJson] at h
  | _ :: _, [], h => by simp [entriesJson] at h
  | (key, entry) :: rest, (key', entry') :: rest', h => by
      simp only [entriesJson, List.cons.injEq, Prod.mk.injEq] at h
      obtain ⟨⟨rfl, hentry⟩, hrest⟩ := h
      rw [eq_of_entryJson hentry, eq_of_entriesJson hrest]

end

/-- Each part of a body is found under its key, whatever other parts there are. -/
lemma lookup_forms (default exports assign : Option Json) :
    (optionalMember "default" default ++ optionalMember "exports" exports ++
        optionalMember "assign" assign).lookup "default" = default ∧
      (optionalMember "default" default ++ optionalMember "exports" exports ++
        optionalMember "assign" assign).lookup "exports" = exports ∧
      (optionalMember "default" default ++ optionalMember "exports" exports ++
        optionalMember "assign" assign).lookup "assign" = assign := by
  cases default <;> cases exports <;> cases assign <;> simp [optionalMember, List.lookup]

/-- **Different bodies have different JSON**: another form, another key, another locale or another
field of a node can be told from it. -/
theorem bodyJson_injective : Function.Injective bodyJson := by
  intro body body' h
  have hmembers := Json.object.inj h
  obtain ⟨hdefault, hexports, hassign⟩ := lookup_forms (body.default.map entryJson)
    (body.exports.map fun entries => .object (entriesJson entries)) (body.assign.map entryJson)
  obtain ⟨hdefault', hexports', hassign'⟩ := lookup_forms (body'.default.map entryJson)
    (body'.exports.map fun entries => .object (entriesJson entries)) (body'.assign.map entryJson)
  rw [hmembers] at hdefault hexports hassign
  have hentry : Function.Injective entryJson := fun _ _ => eq_of_entryJson
  have hentries : Function.Injective fun entries : Entries Entry =>
      Json.object (entriesJson entries) := fun _ _ heq => eq_of_entriesJson (Json.object.inj heq)
  obtain ⟨default, exports, assign⟩ := body
  obtain ⟨default', exports', assign'⟩ := body'
  congr 1
  · exact Option.map_injective hentry (hdefault.symm.trans hdefault')
  · exact Option.map_injective hentries (hexports.symm.trans hexports')
  · exact Option.map_injective hentry (hassign.symm.trans hassign')

/-- **A body with finite offsets shares its canonical bytes with no other body**, whatever the
offsets of the other one are. -/
theorem eq_of_canonical {body body' : Body} (hfinite : body'.Finite)
    (h : body.canonical.toUTF8.toList = body'.canonical.toUTF8.toList) : body = body' := by
  have hcompact : (bodyJson body).compact = (bodyJson body').compact := by
    have htext := eq_of_bytes h
    rw [Body.canonical, Body.canonical] at htext
    exact String.ofList_injective htext
  exact bodyJson_injective (Json.eq_of_compact (plain_bodyJson body) (plain_bodyJson body')
    (storable_bodyJson hfinite) hcompact)

/-! ### Changed bodies -/

/-- A module that is supported and has the text of a hash is not loaded if the hash of its body is
another one. -/
lemma link_of_hash_ne {m : Module} {hash : Digest.Hash} (hruntime : m.runtime.isSupported = true)
    (hdigest : m.digest = hash.text) (hne : m.body.hash ≠ hash) (host : Host) :
    m.link host = .error .digest := by
  have hverify : m.verify = .error .digest := by
    simp only [verify, hruntime, hdigest, Digest.Hash.ofText?_text, Bool.not_true,
      Bool.false_eq_true, if_false, if_neg hne]
  rw [link, hverify]
  rfl

/-- **A module whose body has been changed is not loaded.** Different bodies have different
canonical bytes, as long as their offsets are finite. So a text that reads as a module with the hash
that some other module has, but with another body, is refused by every host, unless the canonical
bytes of the two bodies are different bytes with one hash. -/
theorem load_tampered :
    (∀ body body' : Body, body.Finite → body'.Finite →
      body.canonical.toUTF8.toList = body'.canonical.toUTF8.toList → body = body') ∧
    ∀ (b : Bundle LiveMessage) (target : Target) (m m' : Module) (text : String) (host : Host),
      ofBundle b target = .ok m → parse? text = some m' → m'.digest = m.digest →
      m'.runtime.isSupported = true → m'.body ≠ m.body →
      load text host = .error .digest ∨
        Digest.Collide m'.body.canonical.toUTF8.toList m.body.canonical.toUTF8.toList := by
  refine ⟨fun body body' _ hfinite h => eq_of_canonical hfinite h, ?_⟩
  intro b target m m' text host hmodule hread hdigest hruntime hbody
  have hmade : m.digest = m.body.hash.text := by
    obtain ⟨body, _, rfl⟩ := ofBundle_eq_ok hmodule
    rfl
  -- Both modules have one digest; if it is not that of the other body, the check of it fails.
  by_cases hhash : m'.body.hash = m.body.hash
  · refine .inr ⟨fun hbytes => hbody ?_, hhash⟩
    exact (eq_of_canonical (finite_parse? hread) hbytes.symm).symm
  · left
    rw [load, hread]
    exact link_of_hash_ne hruntime (hdigest.trans hmade) hhash host

/-- A greeting has been changed into a farewell. -/
theorem load_tampered_farewell :
    let b : Bundle LiveMessage := .one ⟨"en", [.text "hello"]⟩
    let farewell : Body := { default := some (.one ⟨"en", [.text "bye"]⟩) }
    ∃ m m' : Module, ofBundle b .default = .ok m ∧ m' = { m with body := farewell } ∧
      parse? m'.text = some m' ∧ m'.body ≠ m.body ∧ ∀ host,
        (load m'.text host = .error .digest ∨
          Digest.Collide m'.body.canonical.toUTF8.toList m.body.canonical.toUTF8.toList) := by
  intro b farewell
  let greeting : Body := { default := some (store b) }
  let m : Module := ⟨.current, .default, importsOf b, referencesOf b, greeting.hash.text, greeting⟩
  let m' : Module := { m with body := farewell }
  have hmodule : ofBundle b .default = .ok m := rfl
  have hforms : farewell.forms = [.one ⟨"en", [.text "bye"]⟩] := rfl
  have hordered : m'.Ordered := by
    refine ⟨List.Pairwise.nil, fun form hform => ?_⟩
    rw [show m'.body.forms = _ from hforms] at hform
    obtain rfl := List.mem_singleton.mp hform
    trivial
  have hfinite : m'.body.Finite := by
    intro form hform
    rw [show m'.body.forms = _ from hforms] at hform
    obtain rfl := List.mem_singleton.mp hform
    intro stored hstored
    obtain rfl := List.mem_singleton.mp hstored
    simp [Node.AllOf, Node.All, Node.Finite]
  have hdepth : (json m').depth ≤ Json.nestingLimit := by decide +kernel
  have hread := parse?_text hordered hfinite hdepth
  have hbody : m'.body ≠ m.body := by
    intro heq
    have hdefault := Option.some.inj (congrArg Body.default heq)
    simp [store, b, Bundle.map, Message.mapNodes, Node.mapAll, Node.map] at hdefault
  refine ⟨m, m', hmodule, rfl, hread, hbody, fun host => ?_⟩
  exact load_tampered.2 b .default m m' m'.text host hmodule hread rfl (by decide) hbody

end Module

end MessageCatalog
