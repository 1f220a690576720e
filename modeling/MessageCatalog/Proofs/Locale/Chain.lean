/-
The grammar of locale identifiers, and the chain of their ancestors.

An identifier is accepted by looking at its subtags, but its ancestors can be found without them:
from the right, each separator ends a name. Both views agree.

* `WellSpelled`, `written`: the subtags that an identifier may have, and its text;
* `isIdentifier_iff_written`: the texts that are accepted are the texts of such subtags;
* `beforeLast?`, `searched`: the names that a search for separators finds, from the right;
* `searched_written`: these have fewer and fewer subtags;
* `IsChainOf`: what the names of an identifier and its ancestors are;
* `parse_chain`: the accepted texts, and their chains.
-/
import MessageCatalog.Proofs.Locale.Lineage

namespace MessageCatalog.Locale

open Text (cut glue trim)

/-! ### The grammar -/

/-- A language and subtags as they are written, each subtag behind its separator. -/
def written (language : List Char) (subtags : List (Char × List Char)) : List Char :=
  language ++ subtags.flatMap fun subtag => subtag.1 :: subtag.2

/-- A language of two to eight letters, and subtags of one to eight letters and digits behind
hyphens and underscores. -/
structure WellSpelled (language : List Char) (subtags : List (Char × List Char)) : Prop where
  letters : ∀ c ∈ language, c.isAlpha = true
  length : 2 ≤ language.length ∧ language.length ≤ 8
  separator : ∀ subtag ∈ subtags, subtag.1 = '-' ∨ subtag.1 = '_'
  alphanumeric : ∀ subtag ∈ subtags, ∀ c ∈ subtag.2, c.isAlphanum = true
  subtagLength : ∀ subtag ∈ subtags, 1 ≤ subtag.2.length ∧ subtag.2.length ≤ 8

lemma glue_eq_written (language : List Char) (subtags : List (Char × List Char)) :
    glue language subtags = written language subtags := by
  induction subtags generalizing language with
  | nil => rw [glue, written, List.flatMap_nil, List.append_nil]
  | cons subtag rest ih => rw [glue, ih, written, written, List.flatMap_cons, List.cons_append]

lemma written_nil (language : List Char) : written language [] = language :=
  List.append_nil language

lemma written_append (language : List Char) (front : List (Char × List Char))
    (subtag : Char × List Char) :
    written language (front ++ [subtag]) = written language front ++ subtag.1 :: subtag.2 := by
  rw [written, written, List.flatMap_append, List.flatMap_singleton, List.append_assoc]

lemma isSeparator_iff {c : Char} : isSeparator c = true ↔ c = '-' ∨ c = '_' := by
  rw [isSeparator, Bool.or_eq_true, beq_iff_eq, beq_iff_eq]

lemma isSeparator_of_isAlphanum {c : Char} (h : c.isAlphanum = true) : isSeparator c = false := by
  by_contra hc
  rcases isSeparator_iff.mp (Bool.not_eq_false _ ▸ hc) with rfl | rfl <;> cases h

namespace WellSpelled

variable {language : List Char} {subtags front : List (Char × List Char)}
  {subtag : Char × List Char}

lemma take (h : WellSpelled language subtags) (n : ℕ) : WellSpelled language (subtags.take n) where
  letters := h.letters
  length := h.length
  separator subtag hsubtag := h.separator subtag (List.mem_of_mem_take hsubtag)
  alphanumeric subtag hsubtag := h.alphanumeric subtag (List.mem_of_mem_take hsubtag)
  subtagLength subtag hsubtag := h.subtagLength subtag (List.mem_of_mem_take hsubtag)

lemma not_isSeparator_of_mem (h : WellSpelled language subtags) :
    ∀ c ∈ language, isSeparator c = false := fun c hc =>
  isSeparator_of_isAlphanum (by rw [Char.isAlphanum, h.letters c hc, Bool.true_or])

lemma of_append (h : WellSpelled language (front ++ [subtag])) : WellSpelled language front := by
  simpa using h.take front.length

/-- The last subtag stands behind a separator and has none in it. -/
lemma last_of_append (h : WellSpelled language (front ++ [subtag])) :
    isSeparator subtag.1 = true ∧ ∀ c ∈ subtag.2, isSeparator c = false :=
  have hmem : subtag ∈ front ++ [subtag] := List.mem_concat_self
  ⟨isSeparator_iff.mpr (h.separator subtag hmem),
    fun c hc => isSeparator_of_isAlphanum (h.alphanumeric subtag hmem c hc)⟩

/-- The text of an identifier is cut into its subtags. -/
lemma cut_written (h : WellSpelled language subtags) :
    cut isSeparator (written language subtags) = (language, subtags) := by
  have hlanguage := h.not_isSeparator_of_mem
  induction subtags using List.reverseRecOn with
  | nil =>
      have hcut := Text.cut_append_of_forall hlanguage []
      rw [cut, List.append_nil] at hcut
      rw [written_nil, hcut]
  | append_singleton front subtag ih =>
      obtain ⟨hseparator, hsubtag⟩ := h.last_of_append
      have hlast := Text.cut_append_of_forall hsubtag []
      rw [cut, List.append_nil] at hlast
      rw [written_append, Text.cut_append_separator hseparator, ih h.of_append, hlast]

end WellSpelled

/-- **The grammar of identifiers.** What is accepted piece by piece is written according to it. -/
theorem isIdentifier_iff_written {text : String} : IsIdentifier text ↔
    ∃ language subtags, WellSpelled language subtags ∧ text.toList = written language subtags := by
  rw [Id.isIdentifier_iff]
  constructor
  · rintro ⟨hlanguage, hsubtags⟩
    simp only [isLanguage, isSubtag, Bool.and_eq_true, List.all_eq_true, decide_eq_true_eq]
      at hlanguage hsubtags
    obtain ⟨⟨hletters, hmin⟩, hmax⟩ := hlanguage
    refine ⟨_, _, ⟨hletters, ⟨hmin, hmax⟩, fun subtag h => ?_, fun subtag h => (hsubtags _ h).2.1,
      fun subtag h => ⟨List.length_pos_iff.mpr (hsubtags _ h).1, (hsubtags _ h).2.2⟩⟩,
      (Text.glue_cut isSeparator text.toList).symm.trans (glue_eq_written _ _)⟩
    exact isSeparator_iff.mp (Text.separator_of_mem_cut _ _ h)
  · rintro ⟨language, subtags, h, htext⟩
    rw [htext, h.cut_written]
    simp only [isLanguage, isSubtag, Bool.and_eq_true, List.all_eq_true, decide_eq_true_eq]
    exact ⟨⟨⟨h.letters, h.length.1⟩, h.length.2⟩, fun subtag hsubtag =>
      ⟨List.length_pos_iff.mp (h.subtagLength subtag hsubtag).1, h.alphanumeric subtag hsubtag,
        (h.subtagLength subtag hsubtag).2⟩⟩

/-! ### The search for separators -/

/-- What stands in front of the last separator, which is searched from the right. -/
def beforeLast? (cs : List Char) : Option (List Char) :=
  match cs.reverse.dropWhile fun c => !isSeparator c with
  | [] => none
  | _ :: front => some front.reverse

lemma beforeLast?_of_forall {cs : List Char} (h : ∀ c ∈ cs, isSeparator c = false) :
    beforeLast? cs = none := by
  have hdrop : (cs.reverse.dropWhile fun c => !isSeparator c) = [] :=
    List.dropWhile_eq_nil_iff.mpr fun c hc => by rw [h c (List.mem_reverse.mp hc)]; rfl
  rw [beforeLast?, hdrop]

lemma beforeLast?_append {c : Char} (hc : isSeparator c = true) {subtag : List Char}
    (h : ∀ d ∈ subtag, isSeparator d = false) (front : List Char) :
    beforeLast? (front ++ c :: subtag) = some front := by
  have hdrop : ((front ++ c :: subtag).reverse.dropWhile fun c => !isSeparator c) =
      c :: front.reverse := by
    rw [List.reverse_append, List.reverse_cons, List.append_assoc, List.singleton_append,
      List.dropWhile_append_of_pos fun d hd => by rw [h d (List.mem_reverse.mp hd)]; rfl,
      List.dropWhile_cons_of_neg (by rw [hc]; exact Bool.false_ne_true)]
  rw [beforeLast?, hdrop]
  exact congrArg some (List.reverse_reverse front)

lemma length_lt_of_beforeLast? {cs front : List Char} (h : beforeLast? cs = some front) :
    front.length < cs.length := by
  have hle := (List.dropWhile_sublist (l := cs.reverse) fun c => !isSeparator c).length_le
  rw [beforeLast?] at h
  split at h
  · cases h
  · rename_i c before hdrop
    obtain rfl := Option.some.inj h
    rw [hdrop, List.length_cons, List.length_reverse] at hle
    rw [List.length_reverse]
    exact hle

/-- A text, then again and again what stands in front of its last separator. -/
def searched (cs : List Char) : List (List Char) :=
  match _h : beforeLast? cs with
  | none => [cs]
  | some front => cs :: searched front
termination_by cs.length
decreasing_by exact length_lt_of_beforeLast? ‹_›

lemma searched_of_none {cs : List Char} (h : beforeLast? cs = none) : searched cs = [cs] := by
  rw [searched]
  split
  · rfl
  · rename_i hfront
    cases h.symm.trans hfront

lemma searched_of_some {cs front : List Char} (h : beforeLast? cs = some front) :
    searched cs = cs :: searched front := by
  rw [searched]
  split
  · rename_i hnone
    cases h.symm.trans hnone
  · rename_i hfront
    cases h.symm.trans hfront
    rfl

/-- **The search drops the subtags one by one**, from the last one down to the language. -/
theorem searched_written {language : List Char} {subtags : List (Char × List Char)}
    (h : WellSpelled language subtags) : searched (written language subtags) =
      (List.range (subtags.length + 1)).map fun dropped =>
        written language (subtags.take (subtags.length - dropped)) := by
  induction subtags using List.reverseRecOn with
  | nil =>
      rw [written_nil, searched_of_none (beforeLast?_of_forall h.not_isSeparator_of_mem)]
      exact congrArg (· :: []) (written_nil language).symm
  | append_singleton front subtag ih =>
      obtain ⟨hseparator, hsubtag⟩ := h.last_of_append
      have hbefore : beforeLast? (written language (front ++ [subtag])) =
          some (written language front) := by
        rw [written_append]
        exact beforeLast?_append hseparator hsubtag _
      rw [searched_of_some hbefore, ih h.of_append, List.length_append, List.length_singleton,
        List.range_succ_eq_map (n := front.length + 1), List.map_cons, List.map_map]
      congr 1
      · rw [Nat.sub_zero, List.take_of_length_le (by simp)]
      · refine List.map_congr_left fun dropped _ => ?_
        rw [Function.comp_apply, Nat.succ_eq_add_one, Nat.add_sub_add_right,
          List.take_append_of_le_length (Nat.sub_le _ _)]

/-! ### Chains -/

namespace Id

variable {language : List Char} {subtags : List (Char × List Char)}

/-- The identifier with these subtags. -/
def ofSubtags (language : List Char) (subtags : List (Char × List Char)) : Id :=
  ⟨String.ofList language, subtags.map fun (c, subtag) => (c, String.ofList subtag)⟩

/-- The names of an identifier and its ancestors. -/
def names (id : Id) : List String :=
  id.lineage.map text

lemma parse_written {text : String} (h : WellSpelled language subtags)
    (htext : (trim text).toList = written language subtags) :
    parse text = .ok (ofSubtags language subtags) := by
  refine parse_eq_ok.mpr ⟨isIdentifier_iff_written.mpr ⟨_, _, h, htext⟩, ?_⟩
  rw [ofText, htext, h.cut_written, ofSubtags]

/-- Without white space around it, the text of an identifier is accepted as it is. -/
lemma parse_ofList_written (h : WellSpelled language subtags) :
    parse (String.ofList (written language subtags)) = .ok (ofSubtags language subtags) := by
  refine parse_written h ?_
  rw [(isIdentifier_iff_written.mpr ⟨_, _, h, String.toList_ofList⟩).trim_eq, String.toList_ofList]

lemma names_ofSubtags : (ofSubtags language subtags).names =
    (List.range (subtags.length + 1)).map fun dropped =>
      String.ofList (written language (subtags.take (subtags.length - dropped))) := by
  rw [names, lineage, ofSubtags, List.map_map, List.length_map]
  refine List.map_congr_left fun dropped _ => ?_
  rw [Function.comp_apply, ← List.map_take, text_pieces, glue_eq_written]

lemma parts_ofSubtags : (ofSubtags language subtags).parts =
    (language :: subtags.map (·.2)).map String.ofList := by
  simp only [parts, ofSubtags, List.map_map, List.map_cons]
  rfl

/-- The names without the first ones are those of an ancestor. -/
lemma names_ofSubtags_take {dropped : ℕ} (h : dropped ≤ subtags.length) :
    (ofSubtags language (subtags.take (subtags.length - dropped))).names =
      (ofSubtags language subtags).names.drop dropped := by
  have hlength : (subtags.take (subtags.length - dropped)).length = subtags.length - dropped := by
    rw [List.length_take, Nat.min_eq_left (Nat.sub_le _ _)]
  refine List.ext_getElem ?_ fun k hk hk' => ?_
  · simp only [names_ofSubtags, List.length_map, List.length_range, List.length_drop, hlength]
    omega
  · simp only [names_ofSubtags, List.getElem_map, List.getElem_range, List.getElem_drop, hlength,
      List.take_take]
    rw [Nat.min_eq_left (Nat.sub_le _ _), Nat.sub_sub]

/-- What the names of an identifier with these subtags, and of its ancestors, are to be: the names
that a search for separators finds, one for each subtag; the name at a place is without as many of
the last subtags; and it is itself accepted, with the remaining names as its own. -/
structure IsChainOf (language : List Char) (subtags : List (Char × List Char))
    (chain : List String) : Prop where
  found : chain.map String.toList = searched (written language subtags)
  length : chain.length = subtags.length + 1
  last : chain.getLast? = some (String.ofList language)
  name : ∀ k ≤ subtags.length, ∃ name, chain[k]? = some name ∧
    name.toList = written language (subtags.take (subtags.length - k)) ∧
      name.toList <+: written language subtags
  ancestor : ∀ k ≤ subtags.length, ∀ name, chain[k]? = some name → ∃ ancestor,
    parse name = .ok ancestor ∧
      ancestor.parts =
        ((language :: subtags.map (·.2)).take (subtags.length + 1 - k)).map String.ofList ∧
        ancestor.names = chain.drop k

lemma written_take_prefix (n : ℕ) :
    written language (subtags.take n) <+: written language subtags := by
  refine ⟨(subtags.drop n).flatMap fun subtag => subtag.1 :: subtag.2, ?_⟩
  rw [written, written, List.append_assoc, ← List.flatMap_append, List.take_append_drop]

/-- **The names of a well-spelled identifier and its ancestors are its chain.** -/
theorem isChainOf_names (h : WellSpelled language subtags) :
    IsChainOf language subtags (ofSubtags language subtags).names := by
  have hget : ∀ k ≤ subtags.length, (ofSubtags language subtags).names[k]? =
      some (String.ofList (written language (subtags.take (subtags.length - k)))) := by
    intro k hk
    rw [names_ofSubtags, List.getElem?_map, List.getElem?_range (Nat.lt_succ_of_le hk)]
    rfl
  have hlength : (ofSubtags language subtags).names.length = subtags.length + 1 := by
    rw [names_ofSubtags, List.length_map, List.length_range]
  constructor
  · rw [searched_written h, names_ofSubtags, List.map_map]
    exact List.map_congr_left fun _ _ => String.toList_ofList
  · exact hlength
  · rw [List.getLast?_eq_getElem?, hlength, Nat.add_sub_cancel, hget _ le_rfl, Nat.sub_self,
      List.take_zero, written_nil]
  · intro k hk
    refine ⟨_, hget k hk, String.toList_ofList, ?_⟩
    rw [String.toList_ofList]
    exact written_take_prefix _
  · intro k hk name hname
    obtain rfl := Option.some.inj ((hget k hk).symm.trans hname)
    refine ⟨_, parse_ofList_written (h.take _), ?_, names_ofSubtags_take hk⟩
    rw [parts_ofSubtags, Nat.sub_add_comm hk, List.take_succ_cons, List.map_take]

/-- **Identifiers and their chains.** A text is accepted if and only if, without the white space at
its ends, it is a language of two to eight letters followed by any number of subtags of one to eight
letters and digits, each behind a hyphen or an underscore. The identifier that is read has just
these parts. With its ancestors it has as many names as parts: those that a search for separators
finds from the right in the unsplit text, each with one part less than the one before, down to the
language; and each of them is accepted and heads a chain of its own, which is the rest of the
chain. -/
theorem parse_chain (text : String) :
    ((∃ id, parse text = .ok id) ↔ ∃ language subtags, WellSpelled language subtags ∧
      (trim text).toList = written language subtags) ∧
    ∀ language subtags, WellSpelled language subtags →
      (trim text).toList = written language subtags →
        ∃ id, parse text = .ok id ∧ id.language = String.ofList language ∧
          id.parts = (language :: subtags.map (·.2)).map String.ofList ∧
            IsChainOf language subtags id.names := by
  constructor
  · rw [← isIdentifier_iff_written]
    exact ⟨fun ⟨_, h⟩ => (parse_eq_ok.mp h).1, fun h => ⟨_, parse_eq_ok.mpr ⟨h, rfl⟩⟩⟩
  · exact fun language subtags h htext =>
      ⟨_, parse_written h htext, rfl, parts_ofSubtags, isChainOf_names h⟩

/-- An identifier with both separators and with white space around it. -/
theorem parse_chain_taiwan :
    let language : List Char := "zh".toList
    let subtags : List (Char × List Char) := [('_', "Hant".toList), ('-', "TW".toList)]
    WellSpelled language subtags ∧ (trim " zh_Hant-TW ").toList = written language subtags ∧
      ∃ id, parse " zh_Hant-TW " = .ok id ∧ id.names = ["zh_Hant-TW", "zh_Hant", "zh"] ∧
        IsChainOf language subtags id.names := by
  intro language subtags
  have hspelled : WellSpelled language subtags := by
    constructor <;> simp [language, subtags]
  have htext : (trim " zh_Hant-TW ").toList = written language subtags := by
    decide +kernel
  obtain ⟨id, hid, _, _, hchain⟩ := (parse_chain " zh_Hant-TW ").2 language subtags hspelled htext
  have hnames : id.names = ["zh_Hant-TW", "zh_Hant", "zh"] := by
    obtain rfl := Except.ok.inj (hid.symm.trans (parse_written hspelled htext))
    decide +kernel
  exact ⟨hspelled, htext, id, hid, hnames, hchain⟩

end Id

end MessageCatalog.Locale
