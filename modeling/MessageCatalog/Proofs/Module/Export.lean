/-
What the modules of bundles are like.

* `entry_of_bodyOf`: the body that is made for a target offers this target what it was made of;
* `forms_of_bodyOf`: the body has this in all its forms, at most inside other groups;
* `ordered_ofBundle`, `finite_ofBundle`: so what holds of the bundle holds of its module.
-/
import MessageCatalog.Module.Load
import MessageCatalog.Proofs.Module.Text

namespace MessageCatalog.Module

open Formatting (Formatter)
open Plural (Key Rule)

/-! ### Bodies -/

section Bodies

variable {entry : Entry} {target : Target} {body : Body}

lemma nestUnder_eq_ok {path : String} {assigned : Entry} (h : nestUnder path entry = .ok assigned) :
    ∃ segments, pathSegments? path = some segments ∧ assigned = entry.nest segments := by
  rw [nestUnder] at h
  split at h
  · rename_i segments hsegments
    exact ⟨segments, hsegments, (Except.ok.inj h).symm⟩
  · cases h

/-- What is put under a path is offered at the path. -/
lemma entryAt_nest {path : String} {segments : List String}
    (h : pathSegments? path = some segments) :
    entryAt path (entry.nest segments) = .ok entry := by
  simp only [entryAt, h, Bundle.at?_nest]

/-- **A body offers its target what it was made of.** -/
theorem entry_of_bodyOf (h : bodyOf entry target = .ok body) : body.entry target = .ok entry := by
  cases target with
  | named =>
      cases entry with
      | one m => cases h
      | group entries =>
          obtain rfl := Except.ok.inj h
          rfl
  | default =>
      obtain rfl := Except.ok.inj h
      rfl
  | path path =>
      rw [bodyOf] at h
      obtain ⟨assigned, hassigned, h⟩ := bind_eq_ok.mp h
      obtain rfl := Except.ok.inj h
      obtain ⟨segments, hsegments, rfl⟩ := nestUnder_eq_ok hassigned
      exact entryAt_nest hsegments
  | universal path =>
      cases path with
      | none =>
          obtain rfl := Except.ok.inj h
          rfl
      | some path =>
          obtain ⟨assign, _, h⟩ := bind_eq_ok.mp h
          obtain rfl := Except.ok.inj h
          rfl

/-- What holds of all three forms of a body holds of each. -/
lemma Body.forall_forms {p : Entry → Prop} (hdefault : ∀ form ∈ body.default, p form)
    (hexports : ∀ entries ∈ body.exports, p (.group entries))
    (hassign : ∀ form ∈ body.assign, p form) : ∀ form ∈ body.forms, p form := by
  intro form hform
  rcases List.mem_append.mp hform with hform | hform
  · exact hdefault form (Option.mem_toList.mp hform)
  rcases List.mem_append.mp hform with hform | hform
  · obtain ⟨entries, hentries, rfl⟩ := Option.mem_map.mp (Option.mem_toList.mp hform)
    exact hexports entries hentries
  · exact hassign form (Option.mem_toList.mp hform)

/-- The entries of an entry that has any make up the entry. -/
lemma eq_group_of_exports {entries : Entries Entry}
    (h : (match entry with
      | .group entries => some entries
      | .one _ => none) = some entries) : entry = .group entries := by
  cases entry with
  | one m => cases h
  | group es =>
      obtain rfl := Option.some.inj h
      rfl

/-- **Each form of a body is what the body was made of**, at most inside groups of one entry. -/
theorem forms_of_bodyOf (h : bodyOf entry target = .ok body) :
    ∀ form ∈ body.forms, ∃ segments, form = entry.nest segments := by
  have hself : ∃ segments, entry = entry.nest segments := ⟨[], rfl⟩
  -- A target says which forms of an entry a body has. They hold the entry itself, or the entry
  -- below the segments of the path.
  cases target with
  | named =>
      cases entry with
      | one m => cases h
      | group entries =>
          obtain rfl := Except.ok.inj h
          refine Body.forall_forms (fun _ h => nomatch h) ?_ fun _ h => nomatch h
          intro es hes
          obtain rfl := Option.some.inj hes
          exact hself
  | default =>
      obtain rfl := Except.ok.inj h
      refine Body.forall_forms ?_ (fun _ h => nomatch h) fun _ h => nomatch h
      intro form hform
      obtain rfl := Option.some.inj hform
      exact hself
  | path path =>
      rw [bodyOf] at h
      obtain ⟨assigned, hassigned, h⟩ := bind_eq_ok.mp h
      obtain rfl := Except.ok.inj h
      obtain ⟨segments, _, rfl⟩ := nestUnder_eq_ok hassigned
      refine Body.forall_forms (fun _ h => nomatch h) (fun _ h => nomatch h) ?_
      intro form hform
      obtain rfl := Option.some.inj hform
      exact ⟨segments, rfl⟩
  | universal path =>
      cases path with
      | none =>
          obtain rfl := Except.ok.inj h
          refine Body.forall_forms ?_ ?_ fun _ h => nomatch h
          · intro form hform
            obtain rfl := Option.some.inj hform
            exact hself
          · intro es hes
            rw [← eq_group_of_exports hes]
            exact hself
      | some path =>
          obtain ⟨assign, hassign, h⟩ := bind_eq_ok.mp h
          obtain ⟨assigned, hassigned, rfl⟩ := map_eq_ok.mp hassign
          obtain rfl := Except.ok.inj h
          obtain ⟨segments, _, rfl⟩ := nestUnder_eq_ok hassigned
          refine Body.forall_forms ?_ ?_ ?_
          · intro form hform
            obtain rfl := Option.some.inj hform
            exact hself
          · intro es hes
            rw [← eq_group_of_exports hes]
            exact hself
          · intro form hform
            obtain rfl := Option.some.inj hform
            exact ⟨segments, rfl⟩

end Bodies

/-! ### Modules -/

section Modules

variable {b : Bundle LiveMessage} {target : Target} {m : Module}

/-- A module consists of what its bundle needs, and of a body with its hash. -/
lemma ofBundle_eq_ok (h : ofBundle b target = .ok m) :
    ∃ body, bodyOf (store b) target = .ok body ∧
      m = ⟨.current, target, importsOf b, referencesOf b, body.hash.text, body⟩ := by
  rw [ofBundle] at h
  obtain ⟨body, hbody, h⟩ := bind_eq_ok.mp h
  exact ⟨body, hbody, (Except.ok.inj h).symm⟩

/-- The module of a bundle in order is in order. -/
theorem ordered_ofBundle (ho : b.Ordered) (h : ofBundle b target = .ok m) : m.Ordered := by
  obtain ⟨body, hbody, rfl⟩ := ofBundle_eq_ok h
  refine ⟨Entries.ordered_ofList _, fun form hform => ?_⟩
  obtain ⟨segments, rfl⟩ := forms_of_bodyOf hbody form hform
  exact Bundle.ordered_nest (Bundle.ordered_map _ b ho) segments

/-- The module of a bundle with finite offsets has finite offsets. -/
theorem finite_ofBundle (hfinite : ∀ m ∈ b.items, Node.AllOf Node.Finite m.nodes)
    (h : ofBundle b target = .ok m) : m.body.Finite := by
  obtain ⟨body, hbody, rfl⟩ := ofBundle_eq_ok h
  intro form hform stored hstored
  obtain ⟨segments, rfl⟩ := forms_of_bodyOf hbody form hform
  rw [Bundle.items_nest, store, Bundle.items_map] at hstored
  obtain ⟨live, hlive, rfl⟩ := List.mem_map.mp hstored
  exact (hfinite live hlive).map Node.finite_map

end Modules

end MessageCatalog.Module
