/-
What one pattern says behind another.

The elements of two texts, one behind the other, are the elements of the first and those of the
second, but that two literals that meet become one. Neither this nor the places of elements make a
difference to what a message says.

* `follow`: one text behind another;
* `Compile.rendering`: what the message of elements says;
* `rendering_append`, `rendering_joined`: what elements say behind others;
* `parse_append_format`: two patterns, one behind the other, say what they say one after the other.
-/
import MessageCatalog.Proofs.Message.Isolation
import MessageCatalog.Proofs.Pattern.Concatenation

namespace MessageCatalog

open Pattern (Case Element backslashesAtEnd joined)
open Plural (Key)

/-- What the second says behind what the first says. The first that has no text decides about the
error. -/
def follow (first second : Arguments → Rendering) : Arguments → Rendering := fun args => do
  let shown ← first args
  let more ← second args
  return shown ++ more

/-- What the message of elements says. -/
def Compile.rendering {σ : Type} (context : Context) (es : List (Element σ)) :
    Except StatementError (Arguments → Rendering) :=
  (Compile.elements context none es).map Node.renderAll

/-! ### Places -/

section Places

variable {σ : Type} (context : Context)

mutual

/-- The places of elements make no difference to their nodes. -/
lemma compile_strip (scope : Option Scope) : ∀ e : Element σ,
    Compile.element context scope e.strip = Compile.element context scope e
  | .literal .. | .argument .. | .call .. | .numberSign .. => rfl
  | .plural arg kind offset cases _ => by
      have hcases := compile_stripPlural (some ⟨arg, Number.ofNat offset⟩) cases
      rw [Element.strip, Compile.element, Compile.element, Pattern.keys_stripPluralCases]
      simp only [hcases]
  | .select arg cases _ => by
      rw [Element.strip, Compile.element, Compile.element, compile_stripSelect]

/-- The places of elements make no difference to their nodes. -/
lemma compile_stripAll (scope : Option Scope) : ∀ es : List (Element σ),
    Compile.elements context scope (Element.stripAll es) = Compile.elements context scope es
  | [] => rfl
  | e :: rest => by
      rw [Element.stripAll, Compile.elements, Compile.elements, compile_strip, compile_stripAll]

/-- The places of plural cases make no difference to their branches. -/
lemma compile_stripPlural (scope : Option Scope) : ∀ cases : List (Case Key σ (Element σ)),
    Compile.pluralCases context scope (Element.stripPluralCases cases) =
      Compile.pluralCases context scope cases
  | [] => rfl
  | ⟨key, body, mark⟩ :: rest => by
      rw [Element.stripPluralCases, Compile.pluralCases, Compile.pluralCases, compile_stripAll,
        compile_stripPlural]

/-- The places of select cases make no difference to their branches. -/
lemma compile_stripSelect (scope : Option Scope) : ∀ cases : List (Case String σ (Element σ)),
    Compile.selectCases context scope (Element.stripSelectCases cases) =
      Compile.selectCases context scope cases
  | [] => rfl
  | ⟨key, body, mark⟩ :: rest => by
      rw [Element.stripSelectCases, Compile.selectCases, Compile.selectCases, compile_stripAll,
        compile_stripSelect]

end

lemma Compile.rendering_stripAll (es : List (Element σ)) :
    Compile.rendering context (Element.stripAll es) = Compile.rendering context es := by
  rw [Compile.rendering, compile_stripAll, Compile.rendering]

end Places

/-! ### Elements behind others -/

section Rows

variable {σ : Type} (context : Context)

/-- Elements behind others say what they say, after what the others say. -/
lemma rendering_append (front back : List (Element σ)) :
    Compile.rendering context (front ++ back) = do
      let first ← Compile.rendering context front
      let second ← Compile.rendering context back
      return follow first second := by
  rw [Compile.rendering, Compile.rendering, Compile.rendering, compile_append]
  cases Compile.elements context none front with
  | error e => rfl
  | ok nodes =>
      cases Compile.elements context none back with
      | error e => rfl
      | ok others => exact congrArg Except.ok (funext (Node.renderAll_append nodes others))

/-- Two literals say what one of both texts says. -/
lemma rendering_literals (before value : String) (rest : List (Element Unit)) :
    Compile.rendering context (.literal (before ++ value) () :: rest) =
      Compile.rendering context (.literal before () :: .literal value () :: rest) := by
  simp only [Compile.rendering, Compile.elements, Compile.element]
  cases Compile.elements context none rest with
  | error e => rfl
  | ok others =>
      refine congrArg Except.ok (funext fun args => ?_)
      simp only [Node.renderAll, Node.render]
      cases Node.renderAll others args with
      | error e => rfl
      | ok shown => exact congrArg Except.ok (String.append_assoc)

/-- Joined elements say what they say apart. -/
lemma rendering_joined (front back : List (Element Unit)) :
    Compile.rendering context (joined front back) = Compile.rendering context (front ++ back) := by
  rcases Pattern.joined_cases front back with h | ⟨others, before, value, rest, rfl, rfl, h⟩
  · rw [h]
  · rw [h, List.append_assoc, rendering_append, rendering_append, rendering_literals]
    rfl

end Rows

/-! ### Messages -/

/-- What a message says is what its elements say. -/
lemma rendering_eq_ok {σ : Type} {context : Context} {es : List (Element σ)}
    {shown : Arguments → Rendering} : Compile.rendering context es = .ok shown ↔
      ∃ m, Compile.message context es = .ok m ∧ m.format = shown := by
  rw [Compile.rendering, Compile.message]
  constructor
  · intro h
    obtain ⟨nodes, hnodes, rfl⟩ := map_eq_ok.mp h
    exact ⟨⟨context.locale, nodes⟩, bind_eq_ok.mpr ⟨nodes, hnodes, rfl⟩, rfl⟩
  · rintro ⟨m, hm, rfl⟩
    obtain ⟨nodes, hnodes, hm⟩ := bind_eq_ok.mp hm
    obtain rfl := Except.ok.inj hm
    exact map_eq_ok.mpr ⟨nodes, hnodes, rfl⟩

/-- **Patterns concatenate.** Unless the first of two accepted patterns ends in an odd number of
backslashes, both together are accepted, and their elements are those of the first and those of the
second, but that two literals that meet become one. In every context both together have a message if
and only if both have one, and then it says what they say, one after the other: the error of the
first, if it has one, or else that of the second, or else both texts. -/
theorem parse_append_format {p q : String} {es fs : List (Element Pattern.Span)}
    (hp : Pattern.parse p = .ok es) (hq : Pattern.parse q = .ok fs)
    (hend : Even (backslashesAtEnd p.toList)) :
    ∃ gs, Pattern.parse (p ++ q) = .ok gs ∧
      Element.stripAll gs = joined (Element.stripAll es) (Element.stripAll fs) ∧
      ∀ context : Context,
        ((∃ m, Compile.message context gs = .ok m) ↔
          (∃ m, Compile.message context es = .ok m) ∧ ∃ m, Compile.message context fs = .ok m) ∧
        ∀ m first second, Compile.message context gs = .ok m →
          Compile.message context es = .ok first → Compile.message context fs = .ok second →
          ∀ args, m.format args = do
            let shown ← first.format args
            let more ← second.format args
            return shown ++ more := by
  obtain ⟨gs, hgs, hstrip⟩ := Pattern.parse_append hp hq hend
  refine ⟨gs, hgs, hstrip, fun context => ?_⟩
  -- Compiling does not look at spans, so that the whole is compiled like the joined elements.
  have hrendering : Compile.rendering context gs = do
      let first ← Compile.rendering context es
      let second ← Compile.rendering context fs
      return follow first second := by
    simp only [← Compile.rendering_stripAll context gs, hstrip, rendering_joined, rendering_append,
      Compile.rendering_stripAll]
  -- If the whole is compiled, then so are both parts, and it shows what they show.
  have hwhole (m : LiveMessage) (hm : Compile.message context gs = .ok m) :
      ∃ first second, Compile.message context es = .ok first ∧
        Compile.message context fs = .ok second ∧ m.format = follow first.format second.format := by
    have hshown := rendering_eq_ok.mpr ⟨m, hm, rfl⟩
    rw [hrendering] at hshown
    obtain ⟨_, hshowns, hshown⟩ := bind_eq_ok.mp hshown
    obtain ⟨_, hmore, hshown⟩ := bind_eq_ok.mp hshown
    obtain ⟨first, hfirst, rfl⟩ := rendering_eq_ok.mp hshowns
    obtain ⟨second, hsecond, rfl⟩ := rendering_eq_ok.mp hmore
    exact ⟨first, second, hfirst, hsecond, (Except.ok.inj hshown).symm⟩
  refine ⟨⟨fun ⟨m, hm⟩ => ?_, fun ⟨⟨first, hfirst⟩, second, hsecond⟩ => ?_⟩, ?_⟩
  · obtain ⟨first, second, hfirst, hsecond, _⟩ := hwhole m hm
    exact ⟨⟨first, hfirst⟩, second, hsecond⟩
  · have hshown : Compile.rendering context gs = .ok (follow first.format second.format) := by
      rw [hrendering, rendering_eq_ok.mpr ⟨first, hfirst, rfl⟩,
        rendering_eq_ok.mpr ⟨second, hsecond, rfl⟩]
      rfl
    obtain ⟨m, hm, _⟩ := rendering_eq_ok.mp hshown
    exact ⟨m, hm⟩
  · intro m first second hm hfirst hsecond args
    obtain ⟨first', second', hfirst', hsecond', hformat⟩ := hwhole m hm
    obtain rfl := Except.ok.inj (hfirst.symm.trans hfirst')
    obtain rfl := Except.ok.inj (hsecond.symm.trans hsecond')
    exact congrFun hformat args

/-- Behind an escaped backslash, a number sign is literal text, which joins the text in front. -/
theorem parse_append_format_escapes :
    let p := "{n} is \\\\"
    let q := "#\\#{g}"
    let context : Context := ⟨"en", ⟨"en", fun _ _ => .other, [], []⟩, {}, true, false⟩
    let args : Arguments := .ofPairs [("n", .num 1), ("g", .text "x")]
    ∃ es fs gs m, Pattern.parse p = .ok es ∧ Pattern.parse q = .ok fs ∧
      Even (backslashesAtEnd p.toList) ∧ Pattern.parse (p ++ q) = .ok gs ∧
      Element.stripAll gs = joined (Element.stripAll es) (Element.stripAll fs) ∧
      Compile.message context gs = .ok m ∧ m.format args = .ok "1 is \\##x" := by
  intro p q context args
  have hfirst : passes (fun es => passes (fun m : LiveMessage =>
      decide (m.format args = .ok "1 is \\")) (Compile.message context es)) (Pattern.parse p) =
        true := by
    decide +kernel
  have hsecond : passes (fun fs => passes (fun m : LiveMessage =>
      decide (m.format args = .ok "##x")) (Compile.message context fs)) (Pattern.parse q) =
        true := by
    decide +kernel
  have hend : Even (backslashesAtEnd p.toList) := by decide +kernel
  obtain ⟨es, hp, hfirst⟩ := passes_eq_true hfirst
  obtain ⟨first, hfirst, hshown⟩ := passes_eq_true hfirst
  obtain ⟨fs, hq, hsecond⟩ := passes_eq_true hsecond
  obtain ⟨second, hsecond, hmore⟩ := passes_eq_true hsecond
  obtain ⟨gs, hgs, hstrip, hall⟩ := parse_append_format hp hq hend
  obtain ⟨hcompiles, hformat⟩ := hall context
  obtain ⟨m, hm⟩ := hcompiles.mpr ⟨⟨first, hfirst⟩, second, hsecond⟩
  refine ⟨es, fs, gs, m, hp, hq, hend, hgs, hstrip, hm, ?_⟩
  rw [hformat m first second hm hfirst hsecond args, of_decide_eq_true hshown,
    of_decide_eq_true hmore]
  rfl

end MessageCatalog
