/-
What strict number signs change.

* `Message.signs`: the number signs that the rendering of a message reaches;
* `insist`: a text, unless one of these signs stands for no number;
* `relates_insists`: strict nodes say what permissive ones say, but insist on numbers;
* `message_strict`: strictness takes texts away, and changes nothing else.
-/
import MessageCatalog.Proofs.Catalog.Switches

namespace MessageCatalog

open Plural (Key Kind Rule)

/-! ### Insisting on numbers -/

/-- The argument of a number sign. -/
def Node.signArg? : LiveNode → Option String
  | .numberSign arg _ _ => some arg
  | _ => none

/-- The arguments of the number signs that the rendering of a message reaches, in the order in which
it reaches them. -/
def Message.signs (m : LiveMessage) (args : Arguments) : List String :=
  (Node.leavesOfAll args m.nodes).filterMap Node.signArg?

/-- The first argument that counts as no number. -/
def firstUncounted? (args : Arguments) (names : List String) : Option String :=
  names.find? fun arg => (args.number? arg).isNone

/-- A text, unless one of some arguments counts as no number. Of these the first one is complained
about. -/
def insist (args : Arguments) (names : List String) (shown : String) : Rendering :=
  match firstUncounted? args names with
  | some arg => .error (.notANumber arg (Meaning.argument args arg))
  | none => .ok shown

section Insist

variable {args : Arguments}

lemma insist_map (names : List String) (shown : String) (f : String → String) :
    Except.map f (insist args names shown) = insist args names (f shown) := by
  rw [insist, insist]
  cases firstUncounted? args names <;> rfl

/-- A row of texts is complained about at the first text that is. -/
lemma insist_append (names others : List String) (shown after : String) :
    insist args (names ++ others) (shown ++ after) = (do
      let first ← insist args names shown
      let rest ← insist args others after
      return first ++ rest) := by
  have hfirst : firstUncounted? args (names ++ others) =
      (firstUncounted? args names).or (firstUncounted? args others) := List.find?_append
  rw [insist, hfirst, insist, insist]
  cases firstUncounted? args names with
  | some arg => rfl
  | none => cases firstUncounted? args others <;> rfl

lemma insist_eq_ok_iff {names : List String} {shown : String} :
    insist args names shown = .ok shown ↔ ∀ arg ∈ names, (args.number? arg).isSome := by
  rw [insist]
  cases hfirst : firstUncounted? args names with
  | some arg =>
      have hmem := List.mem_of_find?_eq_some hfirst
      have hnone := List.find?_some hfirst
      refine ⟨fun h => (nomatch h), fun h => ?_⟩
      have hsome := h arg hmem
      rw [Option.isNone_iff_eq_none.mp hnone] at hsome
      cases hsome
  | none =>
      refine ⟨fun _ arg harg => ?_, fun _ => rfl⟩
      have hcounted := List.find?_eq_none.mp hfirst arg harg
      simpa [Option.isSome_iff_ne_none] using hcounted

/-- Of two renderings the first one has a text, and the second one insists that all number signs
among the nodes that are reached stand for numbers. -/
def Insists (args : Arguments) (leaves : List LiveNode) (permissive strict : Rendering) : Prop :=
  ∃ shown, permissive = .ok shown ∧ strict = insist args (leaves.filterMap Node.signArg?) shown

/-- Where there is no number sign, there is nothing to insist on. -/
lemma Insists.ok {leaves : List LiveNode} (h : leaves.filterMap Node.signArg? = [])
    (shown : String) : Insists args leaves (.ok shown) (.ok shown) := by
  refine ⟨shown, rfl, ?_⟩
  rw [h]
  rfl

lemma Insists.map {leaves : List LiveNode} {permissive strict : Rendering}
    (h : Insists args leaves permissive strict) (f : String → String) :
    Insists args leaves (permissive.map f) (strict.map f) := by
  obtain ⟨shown, rfl, rfl⟩ := h
  exact ⟨f shown, rfl, insist_map _ shown f⟩

lemma Insists.append {leaves others : List LiveNode} {permissive strict next nextStrict : Rendering}
    (h : Insists args leaves permissive strict) (hnext : Insists args others next nextStrict) :
    Insists args (leaves ++ others)
      (do
        let first ← permissive
        let rest ← next
        return first ++ rest)
      (do
        let first ← strict
        let rest ← nextStrict
        return first ++ rest) := by
  obtain ⟨shown, rfl, rfl⟩ := h
  obtain ⟨after, rfl, rfl⟩ := hnext
  refine ⟨shown ++ after, rfl, ?_⟩
  rw [List.filterMap_append, insist_append]

/-- A strict number sign insists on the number that a permissive one need not have. -/
lemma insists_numberSign (arg : String) (offset : Float) (leaf : Bool) :
    Insists args [.numberSign arg offset leaf] (renderNumberSign arg offset false args)
      (renderNumberSign arg offset true args) := by
  rw [renderNumberSign, renderNumberSign]
  have hsigns : [(Node.numberSign arg offset leaf : LiveNode)].filterMap Node.signArg? = [arg] :=
    rfl
  cases hnumber : args.number? arg with
  | some x =>
      refine ⟨_, rfl, ?_⟩
      rw [hsigns, eq_comm, insist_eq_ok_iff]
      simp [hnumber]
  | none =>
      refine ⟨_, rfl, ?_⟩
      have hfirst : firstUncounted? args [arg] = some arg := by
        simp [firstUncounted?, hnumber]
      rw [hsigns, insist, hfirst]
      simp only [shown_eq_argument, if_true]

end Insist

/-! ### Strict nodes and permissive ones -/

namespace Switches

/-- The same switches, with permissive number signs. -/
def permissive (s : Switches) : Switches := { s with strict := false }

/-- The same switches, with strict number signs. -/
def strictly (s : Switches) : Switches := { s with strict := true }

/-- **Strict nodes say what permissive ones say, but insist on numbers.** A permissive node always
has a text. -/
theorem relates_insists (args : Arguments) (s : Switches) :
    Relates args s.permissive s.strictly (Insists args) where
  nil := .ok rfl ""
  same node shown h := by
    refine .ok ?_ shown
    cases node with
    | numberSign arg offset strict => cases h
    | _ => rfl
  numberSign arg offset := insists_numberSign arg offset false
  append := .append
  apart {_ x x'} h := by
    have hisolate : s.strictly.apart x' = s.permissive.apart x' := rfl
    rw [hisolate, apart, apart]
    split
    · exact h.map isolated
    · exact h

end Switches

/-! ### Messages -/

namespace Compiler

/-- **Strictness takes texts away, and changes nothing else.** With strict number signs and with
permissive ones, a pattern has a message under the same locales, and otherwise the same error. The
permissive message has a text for all arguments. The strict one has the same text if and only if all
number signs that the permissive one reaches have numbers to show; otherwise it complains about the
argument of the first one that has none, and shows its value, or nothing if it is not bound. -/
theorem message_strict (compiler : Compiler) (locale : Option String) (text : String) :
    let permissive : Compiler := { compiler with strict := false }
    let strict : Compiler := { compiler with strict := true }
    (∃ e, permissive.message locale text = .error e ∧ strict.message locale text = .error e) ∨
      ∃ m m', permissive.message locale text = .ok m ∧ strict.message locale text = .ok m' ∧
        ∀ args, ∃ shown, m.format args = .ok shown ∧
          (m'.format args = .ok shown ↔ ∀ arg ∈ m.signs args, (args.number? arg).isSome) ∧
          ∀ arg, firstUncounted? args (m.signs args) = some arg →
            m'.format args = .error (.notANumber arg (Meaning.argument args arg)) := by
  intro permissive strict
  let s : Switches := ⟨compiler.checkKeys, true, compiler.isolate⟩
  rcases message_switch permissive s rfl locale text with
    herror | ⟨_, m, hpattern, hm, hm'⟩
  · exact .inl herror
  refine .inr ⟨m, m.recast s, hm, hm', fun args => ?_⟩
  obtain ⟨shown, hshown, hformat⟩ := (Switches.relates_insists args s).format m
  -- The permissive message is a recast of itself, and the strict one is the other recast.
  have hself : m.recast s.permissive = m := recast_pattern hpattern
  rw [hself] at hshown hformat
  have hformat : (m.recast s).format args = insist args (m.signs args) shown := hformat
  refine ⟨shown, hshown, ?_, fun arg hfirst => ?_⟩
  · rw [hformat, insist_eq_ok_iff]
  · rw [hformat, insist, hfirst]

/-- Number signs are told apart by the plurals that they stand for, also below a select. The first
one that has no number is complained about, although the next one has none either. -/
theorem message_strict_english :
    let compiler : Compiler := ⟨⟨Plural.languages, ["en"], "en"⟩, {}, true, false, true⟩
    let permissive : Compiler := { compiler with strict := false }
    let strict : Compiler := { compiler with strict := true }
    let text :=
      "{n, plural, other{{g, select, x{#} other{-}}{m, plural, other{#}}{k, plural, other{#}}}}"
    let args : Arguments := .ofPairs [("n", .num 3), ("g", .text "x"), ("k", .text "many")]
    ∃ m m', permissive.message none text = .ok m ∧ strict.message none text = .ok m' ∧
      m.signs args = ["n", "m", "k"] ∧ (∃ shown, m.format args = .ok shown) ∧
      firstUncounted? args (m.signs args) = some "m" ∧
      m'.format args = .error (.notANumber "m" "") := by
  intro compiler permissive strict text args
  have hok : passes (fun m => decide (m.signs args = ["n", "m", "k"]))
      (permissive.message none text) = true := by
    decide +kernel
  obtain ⟨m, hm, hsigns⟩ := passes_eq_true hok
  have hsigns : m.signs args = ["n", "m", "k"] := of_decide_eq_true hsigns
  have hfirst : firstUncounted? args (m.signs args) = some "m" := by
    rw [hsigns]
    decide +kernel
  rcases message_strict compiler none text with ⟨e, herror, _⟩ | ⟨m₀, m', hm₀, hm', hformat⟩
  · cases hm.symm.trans herror
  · obtain rfl := Except.ok.inj (hm.symm.trans hm₀)
    obtain ⟨shown, hshown, _, hcomplaint⟩ := hformat args
    exact ⟨m, m', hm, hm', hsigns, ⟨shown, hshown⟩, hfirst, hcomplaint "m" hfirst⟩

end Compiler

end MessageCatalog
