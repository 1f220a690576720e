/-
The names of locale identifiers and their ancestors.

An identifier is read into a language and subtags, and its ancestors are made from these. Both can
be said of texts alone: an ancestor is what is in front of a separator.

* `IsIdentifier`: the texts that are locale identifiers; `parse_eq_ok`: no others are read;
* `IsParent`, `IsAncestor`: a text without its last subtag, and without some of the last ones;
* `mem_lineageOf`, `pairwise_lineageOf`: the names that are looked up are an identifier and its
  ancestors, the longest first.
-/
import MessageCatalog.Locale.Id
import MessageCatalog.Proofs.Text.Blank

namespace MessageCatalog.Locale

open Text (cut glue glue_cut pieces trim)

/-! ### Identifiers -/

/-- A locale identifier as it is written: a language of two to eight letters, and subtags of one to
eight letters and digits, with one hyphen or underscore between each two of them. -/
def IsIdentifier (text : String) : Prop :=
  ∃ language subtags, pieces isSeparator text.toList = language :: subtags ∧
    isLanguage language = true ∧ ∀ subtag ∈ subtags, subtag ≠ [] ∧ isSubtag subtag = true

/-- The parent of an identifier, which is without the last subtag and the separator before it. -/
def IsParent (name text : String) : Prop :=
  IsIdentifier text ∧ ∃ c subtag, isSeparator c = true ∧ (∀ d ∈ subtag, isSeparator d = false) ∧
    text.toList = name.toList ++ c :: subtag

/-- An ancestor of a text, which is without some of the last subtags. -/
def IsAncestor (name text : String) : Prop :=
  ∃ c rest, isSeparator c = true ∧ text.toList = name.toList ++ c :: rest

/-- The names that stand for a text: the text itself, and its ancestors. -/
def FallsBackTo (text name : String) : Prop :=
  name = text ∨ IsAncestor name text

namespace Id

/-- The identifier of a text, without any checks. -/
def ofText (text : String) : Id where
  language := String.ofList (cut isSeparator text.toList).1
  subtags := (cut isSeparator text.toList).2.map fun (c, subtag) => (c, String.ofList subtag)

lemma isIdentifier_iff {text : String} : IsIdentifier text ↔
    isLanguage (cut isSeparator text.toList).1 = true ∧
      ∀ subtag ∈ (cut isSeparator text.toList).2, subtag.2 ≠ [] ∧ isSubtag subtag.2 = true := by
  rw [IsIdentifier, pieces]
  constructor
  · rintro ⟨language, subtags, h, hlanguage, hsubtags⟩
    obtain ⟨rfl, rfl⟩ := List.cons.inj h
    exact ⟨hlanguage, fun subtag h => hsubtags subtag.2 (List.mem_map_of_mem h)⟩
  · rintro ⟨hlanguage, hsubtags⟩
    exact ⟨_, _, rfl, hlanguage, List.forall_mem_map.mpr hsubtags⟩

/-- **The texts that are read are those of identifiers**, with any white space at their ends. -/
theorem parse_eq_ok {text : String} {id : Id} :
    parse text = .ok id ↔ IsIdentifier (trim text) ∧ id = ofText (trim text) := by
  have hlist : (trim text).toList = Text.trimChars text.toList := String.toList_ofList
  rw [isIdentifier_iff, ofText, parse, hlist]
  -- From here on only the trimmed characters matter.
  generalize Text.trimChars text.toList = cs
  constructor
  · intro h
    simp only at h
    split_ifs at h with hempty hpieces hlanguage hsubtags
    simp only [Bool.or_eq_true, List.any_eq_true, not_or, not_exists, not_and,
      List.isEmpty_iff] at hpieces
    simp only [Bool.not_eq_true', Bool.not_eq_false, List.all_eq_true] at hlanguage hsubtags
    exact ⟨⟨hlanguage, fun subtag hsubtag => ⟨hpieces.2 subtag hsubtag, hsubtags subtag hsubtag⟩⟩,
      (Except.ok.inj h).symm⟩
  · rintro ⟨⟨hlanguage, hsubtags⟩, rfl⟩
    have hne : (cut isSeparator cs).1 ≠ [] := by
      intro hnil
      rw [hnil] at hlanguage
      cases hlanguage
    have hcs : cs ≠ [] := by
      rintro rfl
      exact hne rfl
    have hpieces : ∀ subtag ∈ (cut isSeparator cs).2, subtag.2.isEmpty = false := by
      intro subtag hsubtag
      simpa using (hsubtags subtag hsubtag).1
    have hall : (cut isSeparator cs).2.all (fun subtag => isSubtag subtag.2) = true :=
      List.all_eq_true.mpr fun subtag hsubtag => (hsubtags subtag hsubtag).2
    have hany : (cut isSeparator cs).2.any (fun subtag => subtag.2.isEmpty) = false :=
      List.any_eq_false.mpr fun subtag hsubtag => by simp [hpieces subtag hsubtag]
    simp [hlanguage, hall, hany, hne, hcs]

/-! ### Names -/

/-- The text of an identifier is made up of its pieces. -/
lemma text_pieces (language : List Char) (subtags : List (Char × List Char)) :
    text ⟨String.ofList language, subtags.map fun (c, subtag) => (c, String.ofList subtag)⟩ =
      String.ofList (glue language subtags) := by
  induction subtags generalizing language with
  | nil => rfl
  | cons first rest ih =>
      obtain ⟨c, subtag⟩ := first
      have hfirst : (String.ofList language).push c ++ String.ofList subtag =
          String.ofList (language ++ c :: subtag) := by
        apply String.toList_injective
        simp
      have hrest := ih (language ++ c :: subtag)
      rw [Text.glue_append_head, Text.glue_cons] at hrest
      simpa only [text, List.map_cons, List.foldl_cons, hfirst, glue] using hrest

end Id

/-- The names that are looked up for a text: those of an identifier and of its ancestors. -/
def lineageOf (text : String) : List String :=
  (Id.ofText text).lineage.map Id.text

/-- The characters of a text without so many of its last subtags. -/
def shortened (text : String) (dropped : Nat) : List Char :=
  let subtags := (cut isSeparator text.toList).2
  glue (cut isSeparator text.toList).1 (subtags.take (subtags.length - dropped))

lemma lineageOf_eq (text : String) : lineageOf text =
    (List.range ((cut isSeparator text.toList).2.length + 1)).map fun dropped =>
      String.ofList (shortened text dropped) := by
  rw [lineageOf, Id.lineage, Id.ofText, List.map_map]
  simp only [List.length_map]
  refine List.map_congr_left fun dropped _ => ?_
  rw [Function.comp_apply, ← List.map_take, Id.text_pieces, shortened]

lemma shortened_zero (text : String) : shortened text 0 = text.toList := by
  rw [shortened, Nat.sub_zero, List.take_length, glue_cut]

/-- What is in front of a separator is a text without some of its subtags. -/
lemma shortened_eq {name text : String} {c : Char} (hc : isSeparator c = true) {rest : List Char}
    (h : text.toList = name.toList ++ c :: rest) :
    ∃ dropped ≤ (cut isSeparator text.toList).2.length, shortened text dropped = name.toList := by
  have hcut := Text.cut_append_separator hc name.toList rest
  rw [← h] at hcut
  have hlength : (cut isSeparator name.toList).2.length ≤
      (cut isSeparator text.toList).2.length := by
    rw [hcut, List.length_append]
    exact Nat.le_add_right _ _
  refine ⟨_, Nat.sub_le _ (cut isSeparator name.toList).2.length, ?_⟩
  rw [shortened, Nat.sub_sub_self hlength, hcut, List.take_left, glue_cut]

/-- Fewer subtags stand in front of more, with a separator between them. -/
lemma shortened_append {text : String} {fewer more : Nat} (h : more < fewer)
    (hle : fewer ≤ (cut isSeparator text.toList).2.length) :
    ∃ c rest, isSeparator c = true ∧
      shortened text more = shortened text fewer ++ c :: rest := by
  rw [shortened, shortened]
  generalize hn : (cut isSeparator text.toList).2.length = n at hle ⊢
  have hsplit : n - more = n - fewer + (fewer - more) := by omega
  rw [hsplit, List.take_add]
  cases hrest : ((cut isSeparator text.toList).2.drop (n - fewer)).take (fewer - more) with
  | nil =>
      have hlength := congrArg List.length hrest
      simp only [List.length_take, List.length_drop, hn, List.length_nil] at hlength
      omega
  | cons first rest =>
      obtain ⟨c, subtag⟩ := first
      have hmem : (c, subtag) ∈ (cut isSeparator text.toList).2 :=
        List.mem_of_mem_drop (List.mem_of_mem_take (hrest ▸ List.mem_cons_self))
      exact ⟨c, _, Text.separator_of_mem_cut _ _ hmem, Text.glue_append _ _ _ _ _⟩

/-- **The names that are looked up are a text and its ancestors.** -/
theorem mem_lineageOf {text name : String} : name ∈ lineageOf text ↔ FallsBackTo text name := by
  rw [lineageOf_eq, List.mem_map, FallsBackTo, IsAncestor]
  constructor
  · rintro ⟨dropped, hdropped, rfl⟩
    have hle := Nat.le_of_lt_succ (List.mem_range.mp hdropped)
    rcases Nat.eq_zero_or_pos dropped with rfl | hpos
    · rw [shortened_zero, String.ofList_toList]
      exact .inl rfl
    · obtain ⟨c, rest, hc, happend⟩ := shortened_append hpos hle
      rw [shortened_zero] at happend
      exact .inr ⟨c, rest, hc, by rw [String.toList_ofList, happend]⟩
  · rintro (rfl | ⟨c, rest, hc, h⟩)
    · exact ⟨0, by simp, by rw [shortened_zero, String.ofList_toList]⟩
    · obtain ⟨dropped, hle, hname⟩ := shortened_eq hc h
      refine ⟨dropped, List.mem_range.mpr (Nat.lt_succ_of_le hle), ?_⟩
      rw [hname, String.ofList_toList]

/-- **Longer names are looked up first.** -/
theorem pairwise_lineageOf (text : String) :
    (lineageOf text).Pairwise fun first later => later.length < first.length := by
  rw [lineageOf_eq, List.pairwise_map]
  refine List.pairwise_lt_range.imp_of_mem fun {more fewer} _ hfewer h => ?_
  obtain ⟨c, rest, _, happend⟩ :=
    shortened_append h (Nat.le_of_lt_succ (List.mem_range.mp hfewer))
  rw [String.length_ofList, String.length_ofList, happend, List.length_append, List.length_cons]
  omega

/-! ### Parents -/

/-- The ancestors of a text are its parent and the ancestors of its parent. -/
lemma IsParent.fallsBackTo_iff {parent text : String} (h : IsParent parent text) {name : String} :
    FallsBackTo text name ↔ name = text ∨ FallsBackTo parent name := by
  obtain ⟨_, c, subtag, hc, hsubtag, htext⟩ := h
  refine or_congr_right ⟨?_, ?_⟩
  · rintro ⟨d, rest, hd, hrest⟩
    rw [htext] at hrest
    rcases List.append_eq_append_iff.mp hrest with
      ⟨middle, hname, hsplit⟩ | ⟨middle, hparent, hsplit⟩
    · cases middle with
      | nil =>
          rw [List.append_nil] at hname
          exact .inl (String.toList_injective hname)
      | cons e middle =>
          obtain ⟨rfl, hsubtag'⟩ := List.cons.inj hsplit
          -- The separator behind the name would be one inside the last subtag.
          have hmem : d ∈ subtag := by simp [hsubtag']
          rw [hsubtag d hmem] at hd
          cases hd
    · cases middle with
      | nil =>
          rw [List.append_nil] at hparent
          exact .inl (String.toList_injective hparent.symm)
      | cons e middle =>
          obtain ⟨rfl, _⟩ := List.cons.inj hsplit
          exact .inr ⟨d, middle, hd, hparent⟩
  · rintro (rfl | ⟨d, rest, hd, hrest⟩)
    · exact ⟨c, subtag, hc, htext⟩
    · exact ⟨d, rest ++ c :: subtag, hd, by rw [htext, hrest, List.append_assoc]; rfl⟩

/-- The parent of an identifier is an identifier. -/
lemma IsParent.isIdentifier {parent text : String} (h : IsParent parent text) :
    IsIdentifier parent := by
  obtain ⟨htext, c, subtag, hc, _, happend⟩ := h
  rw [Id.isIdentifier_iff, happend, Text.cut_append_separator hc] at htext
  obtain ⟨hlanguage, hsubtags⟩ := htext
  exact Id.isIdentifier_iff.mpr
    ⟨hlanguage, fun subtag h => hsubtags subtag (List.mem_append_left _ h)⟩

/-- An identifier has no white space at its ends. -/
lemma IsIdentifier.trim_eq {text : String} (h : IsIdentifier text) : trim text = text := by
  obtain ⟨hlanguage, hsubtags⟩ := Id.isIdentifier_iff.mp h
  have hwhite : ∀ c ∈ text.toList, Text.isWhite c = false := by
    intro c hc
    rw [← glue_cut isSeparator text.toList] at hc
    simp only [isLanguage, isSubtag, Bool.and_eq_true, List.all_eq_true] at hlanguage hsubtags
    rcases Text.mem_of_mem_glue hc with hc | ⟨piece, hpiece, rfl | hc⟩
    · exact Text.isWhite_of_isAlphanum (by simp [Char.isAlphanum, hlanguage.1.1 c hc])
    · have hseparator := Text.separator_of_mem_cut _ piece hpiece
      simp only [isSeparator, Bool.or_eq_true, beq_iff_eq] at hseparator
      rcases hseparator with h | h <;> rw [h] <;> decide
    · exact Text.isWhite_of_isAlphanum ((hsubtags piece hpiece).2.1 c hc)
  rw [trim, Text.trimChars_of_forall hwhite, String.ofList_toList]

end MessageCatalog.Locale
