/-
The keys of statements.

The keys of a plural are read and compared as they are shown, and those of a select are compared as
they are written. Both are one way of reading keys, with a reader and with what is shown of a key.

* `readKeys`: reads the keys of cases, no two of which may be shown alike;
* `pluralCases_eq_readKeys`, `selectCases_eq_readKeys`: so the keys of statements are read;
* `readKeys_eq_ok_iff`, `selectCases_eq_ok_iff`: the keys that are read without an error;
* `raises_readKeys`, `Choice.raises_close`: what may be wrong with a key, and with a statement;
* `RepeatsAt`, `readKeys_eq_duplicate_iff`: a duplicate key is found where the first key repeats;
* `Choice.close_eq_duplicate_iff`: so it is in a statement, although the keys of a plural are
  compared as they are shown.
-/
import MessageCatalog.Pattern.Parser
import MessageCatalog.Proofs.Except
import MessageCatalog.Proofs.Plural.Key

namespace MessageCatalog.Pattern

open Plural (Key)

/-! ### Reading the keys of cases -/

section Read

variable {κ ν : Type} {read : String → Option κ} {shown : κ → String}

/-- Reads the keys of cases, no two of which may be shown alike. -/
def readKeys (read : String → Option κ) (shown : κ → String) (seen : List String) :
    List (Case String Span ν) → Except ParseError (List (Case κ Span ν))
  | [] => .ok []
  | ⟨text, body, span⟩ :: rest =>
    match read text with
    | none => .error ⟨.invalidKey, span⟩
    | some key =>
      if seen.contains (shown key) then .error ⟨.duplicateKey, span⟩
      else (readKeys read shown (shown key :: seen) rest).map (⟨key, body, span⟩ :: ·)

lemma pluralCases_eq_readKeys (cases : List (Case String Span (Element Span))) : ∀ seen,
    pluralCases seen cases = readKeys Key.ofText? Key.text seen cases := by
  induction cases with
  | nil => exact fun _ => rfl
  | cons c rest ih =>
      intro seen
      rw [pluralCases, readKeys]
      cases Key.ofText? c.key with
      | none => rfl
      | some key => simp only [ih]

lemma selectCases_eq_readKeys (cases : List (Case String Span (Element Span))) : ∀ seen,
    selectCases seen cases = readKeys some id seen cases := by
  induction cases with
  | nil => exact fun _ => rfl
  | cons c rest ih =>
      intro seen
      rw [selectCases, readKeys]
      simp only [ih, id_eq]

section Cons

variable {seen : List String} {first : Case String Span ν} {rest : List (Case String Span ν)}

lemma readKeys_cons_eq_ok {cases : List (Case κ Span ν)} :
    readKeys read shown seen (first :: rest) = .ok cases ↔ ∃ key others,
      read first.key = some key ∧ shown key ∉ seen ∧
        readKeys read shown (shown key :: seen) rest = .ok others ∧
          cases = ⟨key, first.body, first.mark⟩ :: others := by
  rw [readKeys]
  cases read first.key with
  | none => simp
  | some key =>
      by_cases hseen : shown key ∈ seen
      · simp [hseen]
      · simp [hseen, map_eq_ok, @eq_comm _ cases]

lemma readKeys_cons_eq_duplicate {span : Span} :
    readKeys read shown seen (first :: rest) = .error ⟨.duplicateKey, span⟩ ↔ ∃ key,
      read first.key = some key ∧ (shown key ∈ seen ∧ first.mark = span ∨
        shown key ∉ seen ∧
          readKeys read shown (shown key :: seen) rest = .error ⟨.duplicateKey, span⟩) := by
  rw [readKeys]
  cases read first.key with
  | none => simp
  | some key =>
      by_cases hseen : shown key ∈ seen
      · simp [hseen]
      · simp [hseen, map_eq_error]

end Cons

/-- A case as it is written, and the same case with its key read. -/
structure ReadsAs (read : String → Option κ) (written : Case String Span ν) (c : Case κ Span ν) :
    Prop where
  key : read written.key = some c.key
  body : c.body = written.body
  mark : c.mark = written.mark

/-- **What keys are read**: those of all cases, if they are shown differently from each other and
from what has been seen before. -/
theorem readKeys_eq_ok_iff {seen : List String} {written : List (Case String Span ν)}
    {cases : List (Case κ Span ν)} : readKeys read shown seen written = .ok cases ↔
      List.Forall₂ (ReadsAs read) written cases ∧ (cases.map fun c => shown c.key).Nodup ∧
        ∀ c ∈ cases, shown c.key ∉ seen := by
  -- By induction on the cases, with the keys that have been seen left open: the rest is read with
  -- one key more.
  induction written generalizing seen cases with
  | nil =>
      constructor
      · intro h
        obtain rfl := Except.ok.inj h
        exact ⟨.nil, .nil, fun _ hc => nomatch hc⟩
      · rintro ⟨h, -⟩
        cases h
        rfl
  | cons first rest ih =>
      rw [readKeys_cons_eq_ok]
      constructor
      · rintro ⟨key, others, hkey, hfresh, hothers, rfl⟩
        obtain ⟨hread, hnodup, hnew⟩ := ih.mp hothers
        -- The keys of the rest differ from those seen, the first key among them.
        refine ⟨.cons ⟨hkey, rfl, rfl⟩ hread, List.nodup_cons.mpr ⟨fun hmem => ?_, hnodup⟩,
          List.forall_mem_cons.mpr ⟨hfresh, fun c hc hmem => ?_⟩⟩
        · obtain ⟨c, hc, heq⟩ := List.mem_map.mp hmem
          exact hnew c hc (heq ▸ List.mem_cons_self)
        · exact hnew c hc (List.mem_cons_of_mem _ hmem)
      · rintro ⟨hread, hnodup, hnew⟩
        cases hread with
        | @cons _ c _ others hfirst hothers =>
            obtain ⟨hfresh, hnew⟩ := List.forall_mem_cons.mp hnew
            obtain ⟨hapart, hnodup⟩ := List.nodup_cons.mp hnodup
            refine ⟨c.key, others, hfirst.key, hfresh, ih.mpr ⟨hothers, hnodup, ?_⟩, ?_⟩
            · intro d hd hmem
              rcases List.mem_cons.mp hmem with heq | hmem
              · exact hapart (List.mem_map.mpr ⟨d, hd, heq⟩)
              · exact hnew d hd hmem
            · rw [← hfirst.body, ← hfirst.mark]

/-- What holds of all cases as they are written holds of them with their keys read, if it is handed
on one by one. -/
lemma forall_of_readsAs {p : Case String Span ν → Prop} {q : Case κ Span ν → Prop}
    {written : List (Case String Span ν)} {cases : List (Case κ Span ν)}
    (h : List.Forall₂ (ReadsAs read) written cases) (hp : ∀ w ∈ written, p w)
    (hpq : ∀ w c, ReadsAs read w c → p w → q c) : ∀ c ∈ cases, q c := by
  induction h with
  | nil => exact fun _ hc => nomatch hc
  | cons hfirst _ ih =>
      obtain ⟨hw, hrest⟩ := List.forall_mem_cons.mp hp
      exact List.forall_mem_cons.mpr ⟨hpq _ _ hfirst hw, ih hrest⟩

/-- An error about the key of one of some cases. -/
def ParseError.IsAtKey (written : List (Case String Span ν)) (e : ParseError) : Prop :=
  (e.cause = .invalidKey ∨ e.cause = .duplicateKey) ∧ e.span ∈ written.map (·.mark)

lemma raises_readKeys (written : List (Case String Span ν)) : ∀ seen,
    Raises (ParseError.IsAtKey written) (readKeys read shown seen written) := by
  induction written with
  | nil => exact fun _ => .ok _
  | cons first rest ih =>
      intro seen
      rw [readKeys]
      split
      · exact .error ⟨.inl rfl, List.mem_cons_self⟩
      · split
        · exact .error ⟨.inr rfl, List.mem_cons_self⟩
        · exact ((ih _).imp fun _ he => ⟨he.1, List.mem_cons_of_mem _ he.2⟩).map _

/-! ### Keys that repeat -/

/-- A case whose key is shown like one that has been seen or that an earlier case has. -/
lemma readKeys_eq_duplicate {seen : List String} {written : List (Case String Span ν)}
    {span : Span} : readKeys read shown seen written = .error ⟨.duplicateKey, span⟩ ↔
      ∃ before c after cases key, written = before ++ c :: after ∧
        readKeys read shown seen before = .ok cases ∧ read c.key = some key ∧
          (shown key ∈ seen ∨ ∃ d ∈ cases, shown d.key = shown key) ∧ c.mark = span := by
  induction written generalizing seen with
  | nil =>
      constructor
      · intro h
        cases h
      · rintro ⟨before, c, after, _, _, h, _⟩
        simp at h
  | cons first rest ih =>
      rw [readKeys_cons_eq_duplicate]
      constructor
      -- The repetition is the first case itself, or it is one of the rest. There the key of the
      -- first case counts as seen.
      · rintro ⟨key, hkey, ⟨hseen, rfl⟩ | ⟨hfresh, hrest⟩⟩
        · exact ⟨[], first, rest, [], key, rfl, rfl, hkey, .inl hseen, rfl⟩
        · obtain ⟨before, c, after, cases, key', rfl, hcases, hkey', hrepeat, rfl⟩ := ih.mp hrest
          refine ⟨first :: before, c, after, ⟨key, first.body, first.mark⟩ :: cases, key', rfl,
            readKeys_cons_eq_ok.mpr ⟨key, cases, hkey, hfresh, hcases, rfl⟩, hkey', ?_, rfl⟩
          rcases hrepeat with hseen | ⟨d, hd, heq⟩
          · rcases List.mem_cons.mp hseen with heq | hseen
            · exact .inr ⟨_, List.mem_cons_self, heq.symm⟩
            · exact .inl hseen
          · exact .inr ⟨d, List.mem_cons_of_mem _ hd, heq⟩
      -- The other way round, the cases in front of the repetition are none, or the first case is
      -- one of them.
      · rintro ⟨before, c, after, cases, key', heq, hcases, hkey', hrepeat, rfl⟩
        cases before with
        | nil =>
            obtain ⟨rfl, rfl⟩ := List.cons.inj heq
            obtain rfl := Except.ok.inj hcases
            rcases hrepeat with hseen | ⟨_, hd, _⟩
            · exact ⟨key', hkey', .inl ⟨hseen, rfl⟩⟩
            · cases hd
        | cons _ before =>
            obtain ⟨rfl, rfl⟩ := List.cons.inj heq
            obtain ⟨key, others, hkey, hfresh, hothers, rfl⟩ := readKeys_cons_eq_ok.mp hcases
            refine ⟨key, hkey, .inr ⟨hfresh, ih.mpr ⟨before, c, after, others, key', rfl, hothers,
              hkey', ?_, rfl⟩⟩⟩
            rcases hrepeat with hseen | ⟨d, hd, heq⟩
            · exact .inl (List.mem_cons_of_mem _ hseen)
            · rcases List.mem_cons.mp hd with rfl | hd
              · exact .inl (heq ▸ List.mem_cons_self)
              · exact .inr ⟨d, hd, heq⟩

/-- The first repetition of a key is at a place: all keys in front of it can be read and are
different from each other, and the key that stands there is read as one of them. -/
def RepeatsAt (read : String → Option κ) (cases : List (Case String Span ν)) (span : Span) : Prop :=
  ∃ before c after, cases = before ++ c :: after ∧ (∀ d ∈ before, read d.key ≠ none) ∧
    (before.map fun d => read d.key).Nodup ∧ read c.key ∈ before.map (fun d => read d.key) ∧
      c.mark = span

lemma exists_readsAs {written : List (Case String Span ν)}
    (h : ∀ c ∈ written, read c.key ≠ none) :
    ∃ cases : List (Case κ Span ν), List.Forall₂ (ReadsAs read) written cases := by
  induction written with
  | nil => exact ⟨[], .nil⟩
  | cons c rest ih =>
      obtain ⟨hfirst, hrest⟩ := List.forall_mem_cons.mp h
      obtain ⟨key, hkey⟩ := Option.ne_none_iff_exists'.mp hfirst
      obtain ⟨cases, hcases⟩ := ih hrest
      exact ⟨⟨key, c.body, c.mark⟩ :: cases, .cons ⟨hkey, rfl, rfl⟩ hcases⟩

/-- The keys that cases are read with. -/
lemma map_key_of_readsAs {written : List (Case String Span ν)} {cases : List (Case κ Span ν)}
    (h : List.Forall₂ (ReadsAs read) written cases) :
    (written.map fun c => read c.key) = (cases.map (·.key)).map some := by
  induction h with
  | nil => rfl
  | cons hfirst _ ih => rw [List.map_cons, List.map_cons, List.map_cons, hfirst.key, ih]

/-- A list in which two elements are mapped to the same has a first element for which an earlier one
is. -/
lemma exists_first_repeat {α β : Type} (f : α → β) {xs : List α} (h : ¬(xs.map f).Nodup) :
    ∃ before a after, xs = before ++ a :: after ∧ (before.map f).Nodup ∧ f a ∈ before.map f := by
  induction xs using List.reverseRecOn with
  | nil => exact absurd List.nodup_nil h
  | append_singleton front a ih =>
      by_cases hfront : (front.map f).Nodup
      · refine ⟨front, a, [], rfl, hfront, ?_⟩
        by_contra hfresh
        rw [List.map_append, List.map_singleton] at h
        exact h (List.nodup_append.mpr ⟨hfront, List.nodup_singleton _, fun b hb c hc =>
          fun heq => hfresh (List.mem_singleton.mp hc ▸ heq ▸ hb)⟩)
      · obtain ⟨before, b, after, rfl, hbefore, hb⟩ := ih hfront
        exact ⟨before, b, after ++ [a], by simp, hbefore, hb⟩

/-- If all keys of some cases can be read, one of them repeats unless they are all different. -/
theorem exists_repeatsAt_iff {cases : List (Case String Span ν)}
    (h : ∀ c ∈ cases, read c.key ≠ none) :
    (∃ span, RepeatsAt read cases span) ↔ ¬(cases.map fun c => read c.key).Nodup := by
  constructor
  · rintro ⟨span, before, c, after, rfl, -, -, hmem, -⟩ hnodup
    rw [List.map_append, List.map_cons] at hnodup
    exact (List.nodup_append.mp hnodup).2.2 _ hmem _ List.mem_cons_self rfl
  · intro hrepeat
    obtain ⟨before, c, after, rfl, hnodup, hmem⟩ := exists_first_repeat _ hrepeat
    exact ⟨c.mark, before, c, after, rfl, fun d hd => h d (List.mem_append_left _ hd), hnodup, hmem,
      rfl⟩

section Shown

variable (hshown : ∀ {s t a b}, read s = some a → read t = some b → (shown a = shown b ↔ a = b))

include hshown

/-- Keys are shown differently if and only if they are different. -/
lemma nodup_shown_iff {written : List (Case String Span ν)} {cases : List (Case κ Span ν)}
    (h : List.Forall₂ (ReadsAs read) written cases) :
    (cases.map fun c => shown c.key).Nodup ↔ (written.map fun c => read c.key).Nodup := by
  have hkeys := map_key_of_readsAs h
  have hread : ∀ key ∈ cases.map (·.key), ∃ text, read text = some key :=
    List.forall_mem_map.mpr <| forall_of_readsAs (p := fun _ => True) h (fun _ _ => trivial)
      fun w _ hc _ => ⟨w.key, hc.key⟩
  have hmap : (cases.map fun c => shown c.key) = (cases.map (·.key)).map shown := by
    rw [List.map_map]
    rfl
  rw [hkeys, hmap, List.nodup_map_iff (Option.some_injective κ)]
  refine ⟨List.Nodup.of_map shown, List.Nodup.map_on fun a ha b hb heq => ?_⟩
  obtain ⟨s, hs⟩ := hread a ha
  obtain ⟨t, ht⟩ := hread b hb
  exact (hshown hs ht).mp heq

/-- **A key is rejected as a duplicate where the first key repeats**, if keys are shown alike only
if they are equal. -/
theorem readKeys_eq_duplicate_iff {written : List (Case String Span ν)} {span : Span} :
    readKeys read shown [] written = .error ⟨.duplicateKey, span⟩ ↔
      RepeatsAt read written span := by
  rw [readKeys_eq_duplicate]
  constructor
  · rintro ⟨before, c, after, cases, key, rfl, hcases, hkey, hseen | ⟨d, hd, heq⟩, rfl⟩
    · cases hseen
    -- Keys that are shown alike are the same key, so that a repetition shows in what the texts of
    -- the keys are read as.
    obtain ⟨hread, hnodup, -⟩ := readKeys_eq_ok_iff.mp hcases
    have hkeys := map_key_of_readsAs hread
    have hmem : some d.key ∈ before.map fun w => read w.key := by
      rw [hkeys]
      exact List.mem_map_of_mem (List.mem_map_of_mem hd)
    refine ⟨before, c, after, rfl, fun w hw => ?_, (nodup_shown_iff hshown hread).mp hnodup, ?_,
      rfl⟩
    · have hsome : read w.key ∈ (cases.map (·.key)).map some :=
        hkeys ▸ List.mem_map_of_mem (f := fun w => read w.key) hw
      obtain ⟨own, -, hown⟩ := List.mem_map.mp hsome
      rw [← hown]
      exact Option.some_ne_none own
    · obtain ⟨w, -, hw⟩ := List.mem_map.mp hmem
      rwa [hkey, ← (hshown hw hkey).mp heq]
  · rintro ⟨before, c, after, rfl, hread, hnodup, hmem, rfl⟩
    obtain ⟨cases, hcases⟩ := exists_readsAs hread
    rw [map_key_of_readsAs hcases] at hmem
    obtain ⟨key, hkey, hc⟩ := List.mem_map.mp hmem
    obtain ⟨d, hd, rfl⟩ := List.mem_map.mp hkey
    have hok : readKeys read shown [] before = .ok cases :=
      readKeys_eq_ok_iff.mpr ⟨hcases, (nodup_shown_iff hshown hcases).mpr hnodup, by simp⟩
    exact ⟨before, c, after, cases, d.key, rfl, hok, hc.symm, .inr ⟨d, hd, rfl⟩, rfl⟩

end Shown

end Read

/-! ### Statements -/

/-- The keys of select cases are left as they are, if they are different. -/
theorem selectCases_eq_ok_iff {seen : List String}
    {written cases : List (Case String Span (Element Span))} :
    selectCases seen written = .ok cases ↔
      cases = written ∧ (written.map (·.key)).Nodup ∧ ∀ c ∈ written, c.key ∉ seen := by
  have hself : ReadsAs (ν := Element Span) some = Eq := by
    funext w c
    refine propext ⟨fun h => ?_, fun h => h ▸ ⟨rfl, rfl, rfl⟩⟩
    obtain ⟨key, body, mark⟩ := c
    obtain ⟨hkey, rfl, rfl⟩ := h
    obtain rfl := Option.some.inj hkey
    rfl
  rw [selectCases_eq_readKeys, readKeys_eq_ok_iff, hself, List.forall₂_eq_eq_eq]
  constructor
  · rintro ⟨rfl, h⟩
    exact ⟨rfl, h⟩
  · rintro ⟨rfl, h⟩
    exact ⟨rfl, h⟩

/-- A statement that is not made has a bad key, or no case for all other values. -/
lemma Choice.raises_close (choice : Choice) (brace : Span) :
    Raises (fun e => ParseError.IsAtKey choice.cases.reverse e ∨
      e = ⟨.missingOther, choice.brace.merge brace⟩) (choice.close brace) := by
  rw [close]
  cases choice.selector with
  | plural kind offset =>
      rw [pluralCases_eq_readKeys]
      refine ((raises_readKeys _ _).imp fun _ => .inl).bind fun cases => ?_
      split
      · exact .ok _
      · exact .error (.inr rfl)
  | select =>
      rw [selectCases_eq_readKeys]
      refine ((raises_readKeys _ _).imp fun _ => .inl).bind fun cases => ?_
      split
      · exact .ok _
      · exact .error (.inr rfl)

/-- The first key that a statement repeats is at a place. Keys of a plural are compared by what they
stand for, and those of a select as texts. -/
def Choice.RepeatsAt (choice : Choice) (span : Span) : Prop :=
  match choice.selector with
  | .plural .. => Pattern.RepeatsAt Key.ofText? choice.cases.reverse span
  | .select => Pattern.RepeatsAt some choice.cases.reverse span

/-- **A statement is rejected for a duplicate key where its first key repeats**, although the keys
of a plural are compared as they are shown. -/
theorem Choice.close_eq_duplicate_iff {choice : Choice} {brace span : Span} :
    choice.close brace = .error ⟨.duplicateKey, span⟩ ↔ choice.RepeatsAt span := by
  rw [close, RepeatsAt]
  cases choice.selector with
  | plural kind offset =>
      have hshown {s t : String} {a b : Key} (hs : Key.ofText? s = some a)
          (ht : Key.ofText? t = some b) : a.text = b.text ↔ a = b := Key.text_eq_iff hs ht
      simp only [pluralCases_eq_readKeys, ← readKeys_eq_duplicate_iff hshown, bind_eq_error]
      refine or_iff_left ?_
      rintro ⟨cases, -, h⟩
      split at h
      · cases h
      · cases h
  | select =>
      have hshown {s t a b : String} (_ : some s = some a) (_ : some t = some b) :
          id a = id b ↔ a = b := Iff.rfl
      simp only [selectCases_eq_readKeys, ← readKeys_eq_duplicate_iff hshown, bind_eq_error]
      refine or_iff_left ?_
      rintro ⟨cases, -, h⟩
      split at h
      · cases h
      · cases h

/-- A plural whose keys can all be read is rejected for a duplicate key exactly if two of them are
equal. -/
theorem Choice.close_plural_duplicate_iff {choice : Choice} (hplural : choice.isPlural = true)
    (hread : ∀ c ∈ choice.cases, Key.ofText? c.key ≠ none) (brace : Span) :
    (∃ span, choice.close brace = .error ⟨.duplicateKey, span⟩) ↔
      ¬(choice.cases.map fun c => Key.ofText? c.key).Nodup := by
  have hread' : ∀ c ∈ choice.cases.reverse, Key.ofText? c.key ≠ none :=
    fun c hc => hread c (List.mem_reverse.mp hc)
  have hrepeats (span : Span) :
      choice.RepeatsAt span ↔ Pattern.RepeatsAt Key.ofText? choice.cases.reverse span := by
    rw [isPlural] at hplural
    rw [RepeatsAt]
    cases hselector : choice.selector with
    | plural kind offset => rfl
    | select => simp [hselector] at hplural
  simp only [close_eq_duplicate_iff, hrepeats, exists_repeatsAt_iff hread', List.map_reverse,
    List.nodup_reverse]

end MessageCatalog.Pattern
