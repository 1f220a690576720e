/-
The headers of a module that has all forms.

A module that is made for all forms at once holds its bundle up to three times: as it is, as its
entries, and inside the groups that a path names. The target in the header of the module says which
of the three is loaded. They are made and taken apart in different ways, and still it does not
matter which one the target asks for.

* `IsExportPath`, `pathSegments?_eq_some_iff`: the paths that a bundle can be put under;
* `bodyOf_eq_ok_of_path`, `bodyOf_eq_error_of_path`: what a body with a path is like;
* `Header`, `entry_of_header`: the targets that a body with all forms can be offered under;
* `withTarget`, `load_text_withTarget`: another target in the header changes nothing but the choice
  of the form;
* `headers_agree`: all headers of such a module lead to the same bundle or the same error.
-/
import MessageCatalog.Proofs.Module.Load
import MessageCatalog.Proofs.Module.Nesting
import MessageCatalog.Proofs.Module.Readable
import MessageCatalog.Proofs.Text.Blank

namespace MessageCatalog.Module

/-! ### Paths -/

section Paths

variable {path : String} {segments : List String} {entry : Entry} {target : Target}

/-- A path has no blank segment: something that is not white space stands before, between and behind
all its dots. -/
def IsExportPath (path : String) : Prop :=
  ∀ segment ∈ path.toList.splitOn '.', ∃ c ∈ segment, Text.isWhite c = false

-- The instances are named, as all characters there are would be tried otherwise.
instance (path : String) : Decidable (IsExportPath path) :=
  @List.decidableBAll _ _ (fun segment => List.decidableBEx _ segment) _

/-- The names in a path: what stands between its dots, without the white space around it. -/
def namesIn (path : String) : List String :=
  (path.toList.splitOn '.').map fun segment => String.ofList (Text.trimChars segment)

/-- **The paths that can be read are those without blank segments**, and they are read as the names
in them. -/
theorem pathSegments?_eq_some_iff :
    pathSegments? path = some segments ↔ IsExportPath path ∧ segments = namesIn path := by
  have hpieces : Text.pieces (· == '.') path.toList = path.toList.splitOn '.' :=
    Text.pieces_eq_splitOnP _
  have hblank : ((path.toList.splitOn '.').map Text.trimChars).any List.isEmpty = true ↔
      ¬IsExportPath path := by
    simp [IsExportPath, Text.trimChars_eq_nil_iff]
  simp only [pathSegments?, hpieces]
  split
  · rename_i h
    simp [hblank.mp h]
  · rename_i h
    simp [namesIn, not_not.mp (mt hblank.mpr h), eq_comm, Function.comp_def]

/-- The targets with a path. -/
def Target.HasPath (target : Target) (path : String) : Prop :=
  target = .path path ∨ target = .universal (some path)

/-- A body with a path that can be read has its entry inside the groups that the path names. -/
lemma bodyOf_eq_ok_of_path (entry : Entry) (hpath : IsExportPath path)
    (ht : target.HasPath path) :
    ∃ body, bodyOf entry target = .ok body ∧ body.assign = some (entry.nest (namesIn path)) := by
  have hnest : nestUnder path entry = .ok (entry.nest (namesIn path)) := by
    rw [nestUnder, pathSegments?_eq_some_iff.mpr ⟨hpath, rfl⟩]
  rcases ht with rfl | rfl
  · exact ⟨_, by simp only [bodyOf, hnest]; rfl, rfl⟩
  · exact ⟨_, by simp only [bodyOf, hnest]; rfl, rfl⟩

/-- There is no body with any other path. -/
lemma bodyOf_eq_error_of_path (hpath : ¬IsExportPath path) (ht : target.HasPath path) :
    bodyOf entry target = .error (.badPath path) := by
  have hsegments : pathSegments? path = none :=
    Option.eq_none_iff_forall_ne_some.mpr fun _ h => hpath (pathSegments?_eq_some_iff.mp h).1
  have hnest : nestUnder path entry = .error (.badPath path) := by
    rw [nestUnder, hsegments]
  rcases ht with rfl | rfl
  · simp only [bodyOf, hnest]
    rfl
  · simp only [bodyOf, hnest]
    rfl

end Paths

/-! ### Headers -/

/-- The targets that a bundle with all forms can be offered under: as it is; by its entries, if it
is a group; and at a path, if there is one. -/
inductive Header {α : Type} : Bundle α → Option String → Target → Prop
  | default {b : Bundle α} {path : Option String} : Header b path .default
  | named {entries : List (String × Bundle α)} {path : Option String} :
      Header (.group entries) path .named
  | path {b : Bundle α} {path : String} : Header b (some path) (.path path)

section Headers

variable {b : Bundle LiveMessage} {path : Option String} {t target : Target} {body : Body}
  {m : Module} {host : Host}

/-- Storing a bundle leaves its headers as they are. -/
lemma Header.store (h : Header b path t) : Header (store b) path t := by
  cases h with
  | default => exact .default
  | named => exact .named
  | path => exact .path

/-- The forms without a path in a body that has all of them. -/
lemma forms_of_universal {entry : Entry} (h : bodyOf entry (.universal path) = .ok body) :
    body.default = some entry ∧
      ∀ entries, entry = .group entries → body.exports = some entries := by
  cases path with
  | none =>
      obtain rfl := Except.ok.inj h
      exact ⟨rfl, fun _ hentry => by rw [hentry]⟩
  | some path =>
      obtain ⟨assign, -, h⟩ := bind_eq_ok.mp h
      obtain rfl := Except.ok.inj h
      exact ⟨rfl, fun _ hentry => by rw [hentry]⟩

/-- **A body with all forms has the same entry under all its headers.** -/
theorem entry_of_header {entry : Entry} (hbody : bodyOf entry (.universal path) = .ok body)
    (ht : Header entry path t) : body.entry t = .ok entry := by
  cases ht with
  | default => rw [Body.entry, (forms_of_universal hbody).1, present]
  | named =>
      rw [Body.entry, (forms_of_universal hbody).2 _ rfl, Option.map_some, present]
  | path =>
      obtain ⟨assign, hassign, h⟩ := bind_eq_ok.mp hbody
      obtain ⟨assigned, hassigned, rfl⟩ := map_eq_ok.mp hassign
      obtain ⟨segments, hsegments, rfl⟩ := nestUnder_eq_ok hassigned
      obtain rfl := Except.ok.inj h
      exact entryAt_nest hsegments

/-- A module with another target in its header, and with nothing else changed. -/
def withTarget (m : Module) (target : Target) : Module :=
  { m with target := target }

lemma verify_withTarget : (m.withTarget target).verify = m.verify := rfl

lemma ordered_withTarget (h : m.Ordered) : (m.withTarget target).Ordered := ⟨h.locales, h.body⟩

/-- All targets take up the same levels. -/
lemma readable_withTarget : Readable (m.withTarget target) ↔ Readable m := by
  have hdepth : (json (m.withTarget target)).depth = (json m).depth := by
    simp only [json, withTarget, Json.depth, Json.depthOfMembers, depth_targetJson]
  exact ⟨fun h => ⟨h.finite, hdepth ▸ h.depth⟩, fun h => ⟨h.finite, hdepth.symm ▸ h.depth⟩⟩

/-- A target under which a body has the same entry is linked to the same bundle. -/
lemma link_withTarget (h : m.body.entry target = m.body.entry m.target) :
    (m.withTarget target).link host = m.link host := by
  simp only [link, verify_withTarget]
  simp only [withTarget, h]

/-- **A target under which a body has the same entry is loaded as the same bundle**, or not at all
like the module with its own target. -/
theorem load_text_withTarget (ho : m.Ordered) (h : m.body.entry target = m.body.entry m.target) :
    load (m.withTarget target).text host = load m.text host := by
  have ho' : (m.withTarget target).Ordered := ordered_withTarget ho
  rw [load, load]
  rcases parse?_text_cases ho with ⟨hreadable, hread⟩ | ⟨hreadable, hread⟩
  · rcases parse?_text_cases ho' with ⟨-, hread'⟩ | ⟨h', -⟩
    · rw [hread, hread']
      exact link_withTarget h
    · exact absurd (readable_withTarget.mpr hreadable) h'
  · rcases parse?_text_cases ho' with ⟨h', -⟩ | ⟨-, hread'⟩
    · exact absurd (readable_withTarget.mp h') hreadable
    · rw [hread, hread']

/-- **All headers of a module with all forms agree.** Whichever of them is written in its header,
the module has the hash of its body, and every host loads the same bundle or has the same error. A
path can be used exactly if no segment of it is blank, and what is put under it is found again
there. -/
theorem headers_agree (ho : b.Ordered) :
    (∀ path m t, ofBundle b (.universal path) = .ok m → Header b path t →
      (m.withTarget t).verify = .ok () ∧
        ∀ host, load (m.withTarget t).text host = load m.text host) ∧
    ∀ path target, target.HasPath path →
      ((∃ m, ofBundle b target = .ok m) ↔ IsExportPath path) ∧
      (¬IsExportPath path → ofBundle b target = .error (.badPath path)) ∧
      ∀ m, ofBundle b target = .ok m → ∃ assigned, m.body.assign = some assigned ∧
        assigned = (store b).nest (namesIn path) ∧ entryAt path assigned = .ok (store b) := by
  constructor
  -- The body is the one of the universal module, and the digest is that of the body, so that all
  -- that is left is which entry a header leads to.
  · intro path m t hmodule ht
    refine ⟨verify_withTarget.trans (verify_ofBundle hmodule), fun host => ?_⟩
    refine load_text_withTarget (ordered_ofBundle ho hmodule) ?_
    obtain ⟨body, hbody, rfl⟩ := ofBundle_eq_ok hmodule
    exact (entry_of_header hbody ht.store).trans (entry_of_bodyOf hbody).symm
  · intro path target htarget
    have herror (hpath : ¬IsExportPath path) : ofBundle b target = .error (.badPath path) := by
      rw [ofBundle, bodyOf_eq_error_of_path hpath htarget]
      rfl
    have hok {m : Module} (hmodule : ofBundle b target = .ok m) : IsExportPath path := by
      by_contra hpath
      rw [herror hpath] at hmodule
      cases hmodule
    refine ⟨⟨?_, fun hpath => ?_⟩, herror, fun m hmodule => ?_⟩
    · rintro ⟨m, hmodule⟩
      exact hok hmodule
    · obtain ⟨body, hbody, -⟩ := bodyOf_eq_ok_of_path (store b) hpath htarget
      exact ⟨_, by rw [ofBundle, hbody]; rfl⟩
    · have hpath := hok hmodule
      obtain ⟨body, hbody, hassign⟩ := bodyOf_eq_ok_of_path (store b) hpath htarget
      obtain ⟨body', hbody', rfl⟩ := ofBundle_eq_ok hmodule
      obtain rfl := Except.ok.inj (hbody.symm.trans hbody')
      exact ⟨_, hassign, rfl, entryAt_nest (pathSegments?_eq_some_iff.mpr ⟨hpath, rfl⟩)⟩

/-- A group under a path with white space in it, with all the headers that it can have. -/
theorem headers_agree_padded :
    let b : Bundle LiveMessage := .group [("greeting", .one ⟨"en", [.text "Hello"]⟩)]
    let path := " app.\tmain . texts"
    ∃ m, b.Ordered ∧ ofBundle b (.universal (some path)) = .ok m ∧
      m.body.assign = some ((store b).nest ["app", "main", "texts"]) ∧
      ∀ t ∈ [Target.default, .named, .path path], (m.withTarget t).verify = .ok () ∧
        ∀ host, load (m.withTarget t).text host = load m.text host := by
  intro b path
  have ho : b.Ordered := ⟨List.pairwise_singleton _ _, trivial, trivial⟩
  obtain ⟨hheaders, hpaths⟩ := headers_agree ho
  obtain ⟨haccepted, -, hassign⟩ := hpaths path (.universal (some path)) (.inr rfl)
  have hpath : IsExportPath path := by decide
  obtain ⟨m, hmodule⟩ := haccepted.mpr hpath
  obtain ⟨_, hassigned, rfl, -⟩ := hassign m hmodule
  have hnames : namesIn path = ["app", "main", "texts"] := by decide
  refine ⟨m, ho, hmodule, hnames ▸ hassigned, fun t ht => hheaders (some path) m t hmodule ?_⟩
  simp only [List.mem_cons, List.not_mem_nil, or_false] at ht
  rcases ht with rfl | rfl | rfl
  · exact .default
  · exact .named
  · exact .path

end Headers

end MessageCatalog.Module
