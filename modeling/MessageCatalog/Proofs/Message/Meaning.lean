/-
What patterns mean, and that their messages say it.

A pattern has a meaning of its own, which no compilation goes through: its elements are read off
one after the other, and the plural that is being read is carried along for the number signs below
it. A message has its number signs bound beforehand. Main statements:

* `meaning`: the text of an element under a plural, or why there is none;
* `render_element`: the node of an element says what the element means under every plural that is
  in the scope of its compilation;
* `format_message`: a message says what its pattern means, text for text and error for error.
-/
import Mathlib
import MessageCatalog.Message.Render
import MessageCatalog.Pattern.Parser
import MessageCatalog.Plural.Language
import MessageCatalog.Proofs.Message.Compiled

namespace MessageCatalog

open Pattern (Case Element)
open Plural (Key)

/-! ### Meanings -/

/-- Why a pattern has no text. -/
inductive Failure where
  /-- Formatting fails. -/
  | rendering (error : FormatError)
  /-- A call names no formatter. -/
  | unknownFormatter (name arg : String)
deriving DecidableEq

/-- The text that a pattern stands for, or why there is none. -/
abbrev Outcome := Except Failure String

/-- The plural that is being read off: its argument, and its offset as it is written. -/
structure Reading where
  arg : String
  offset : Nat

/-- The innermost plural that is being read off, if there is any. -/
abbrev Environment := Option Reading

namespace Meaning

/-- What is not literal keeps its own direction, if the context wants that: it stands between the
marks U+2068, first strong isolate, and U+2069, pop directional isolate. -/
def apart (context : Context) (outcome : Outcome) : Outcome :=
  if context.isolate then outcome.map fun text => "\u2068" ++ text ++ "\u2069" else outcome

/-- An argument shows its value, and nothing if it is not bound. -/
def argument (args : Arguments) (name : String) : String :=
  match args.get? name with
  | some value => value.render
  | none => ""

/-- A call applies the formatter of its name to the value of its argument. -/
def call (context : Context) (args : Arguments) (arg name : String)
    (style : Option Formatting.Style) : Outcome :=
  match context.registry.resolve? name with
  | some formatter => .ok (formatter.run ⟨(args.get? arg).getD .null, context.locale, style⟩)
  | none => .error (.unknownFormatter name arg)

/-- A number sign shows the number of the plural that is being read off, less its offset. Where the
argument counts as no number, the sign shows it as it is, or insists on a number. -/
def numberSign (context : Context) (args : Arguments) (plural : Reading) : Outcome :=
  match ((args.get? plural.arg).getD .null).number? with
  | some x => .ok (Number.numberText (x - Number.ofNat plural.offset))
  | none =>
    if context.strict then
      .error (.rendering (.notANumber plural.arg (argument args plural.arg)))
    else .ok (argument args plural.arg)

/-- The case that was picked is read off under a plural; no case has no text. -/
def ofChosen (chosen : Option (Environment → Outcome)) (env : Environment) : Outcome :=
  match chosen with
  | some body => body env
  | none => .ok ""

end Meaning

section Meanings

variable {σ : Type}

mutual

/-- The text of an element under the plural that is being read off. A plural has its cases read off
under itself, and a select under what it stands under. -/
def meaning (context : Context) (args : Arguments) : Element σ → Environment → Outcome
  | .literal value _, _ => .ok value
  | .argument name _, _ => Meaning.apart context (.ok (Meaning.argument args name))
  | .call arg name style _, _ => Meaning.apart context (Meaning.call context args arg name style)
  | .plural arg kind offset cases _, _ =>
    let value := (args.get? arg).getD .null
    let chosen := choosePlural value kind (Number.ofNat offset) context.rule
      (pluralMeanings context args cases)
    Meaning.apart context (Meaning.ofChosen chosen (some ⟨arg, offset⟩))
  | .select arg cases _, env =>
    let value := (args.get? arg).getD .null
    let chosen := chooseSelect value (selectMeanings context args cases)
    Meaning.apart context (Meaning.ofChosen chosen env)
  | .numberSign _, some plural => Meaning.apart context (Meaning.numberSign context args plural)
  | .numberSign _, none => .ok "#"

/-- The texts of elements, one after the other, up to the first that has none. -/
def meanings (context : Context) (args : Arguments) : List (Element σ) → Environment → Outcome
  | [], _ => .ok ""
  | e :: rest, env => do
    let first ← meaning context args e env
    let others ← meanings context args rest env
    return first ++ others

/-- The keys of plural cases, each with what its body means. -/
def pluralMeanings (context : Context) (args : Arguments) :
    List (Case Key σ (Element σ)) → List (Key × (Environment → Outcome))
  | [] => []
  | ⟨key, body, _⟩ :: rest =>
    (key, fun env => meanings context args body env) :: pluralMeanings context args rest

/-- The keys of select cases, each with what its body means. -/
def selectMeanings (context : Context) (args : Arguments) :
    List (Case String σ (Element σ)) → List (String × (Environment → Outcome))
  | [] => []
  | ⟨key, body, _⟩ :: rest =>
    (key, fun env => meanings context args body env) :: selectMeanings context args rest

end

end Meanings

/-! ### Choices look at keys only -/

section Choices

variable {α β κ : Type}

lemma caseOf?_map [BEq κ] (key : κ) (f : α → β) (cases : List (κ × α)) :
    caseOf? key (cases.map fun c => (c.1, f c.2)) = (caseOf? key cases).map f := by
  rw [caseOf?, caseOf?, List.find?_map, Option.map_map, Option.map_map]
  rfl

lemma choosePluralByNumber_map (x : Float) (kind : Plural.Kind) (rule : Plural.Rule) (f : α → β)
    (cases : List (Key × α)) :
    choosePluralByNumber x kind rule (cases.map fun c => (c.1, f c.2)) =
      (choosePluralByNumber x kind rule cases).map f := by
  have hexact : ((exactKey? x).bind fun n => caseOf? (.exact n) (cases.map fun c => (c.1, f c.2))) =
      ((exactKey? x).bind fun n => caseOf? (.exact n) cases).map f := by
    simp only [caseOf?_map, Option.map_bind]
    rfl
  rw [choosePluralByNumber, choosePluralByNumber, hexact, caseOf?_map, caseOf?_map]
  cases (exactKey? x).bind fun n => caseOf? (.exact n) cases with
  | some case => rfl
  | none => cases caseOf? (.label (rule.category x kind).label) cases <;> rfl

lemma choosePlural_map (value : Value) (kind : Plural.Kind) (offset : Float) (rule : Plural.Rule)
    (f : α → β) (cases : List (Key × α)) :
    choosePlural value kind offset rule (cases.map fun c => (c.1, f c.2)) =
      (choosePlural value kind offset rule cases).map f := by
  rw [choosePlural, choosePlural]
  cases value.number? with
  | some x => exact choosePluralByNumber_map (x - offset) kind rule f cases
  | none => exact caseOf?_map (.label "other") f cases

lemma chooseSelect_map (value : Value) (f : α → β) (cases : List (String × α)) :
    chooseSelect value (cases.map fun c => (c.1, f c.2)) = (chooseSelect value cases).map f := by
  have hother := caseOf?_map "other" f cases
  cases value with
  | null => exact hother
  | _ =>
      simp only [chooseSelect, caseOf?_map]
      cases caseOf? (Value.render _) cases <;> rfl

end Choices

/-! ### Renderings and meanings -/

/-- What a rendering is worth as the text of a pattern. -/
def Rendering.outcome (rendering : Rendering) : Outcome :=
  rendering.mapError .rendering

/-- The scope in which the body of a plural is compiled: its argument and the number of its
offset. -/
def Environment.scope (env : Environment) : Option Scope :=
  env.map fun plural => ⟨plural.arg, Number.ofNat plural.offset⟩

lemma shown_eq_argument (args : Arguments) (name : String) :
    args.shown name = Meaning.argument args name := by
  rw [Arguments.shown, Meaning.argument]
  cases args.get? name <;> rfl

lemma outcome_renderNumberSign (context : Context) (plural : Reading) (args : Arguments) :
    (renderNumberSign plural.arg (Number.ofNat plural.offset) context.strict args).outcome =
      Meaning.numberSign context args plural := by
  rw [renderNumberSign, Meaning.numberSign, ← Arguments.value, Arguments.number?_value]
  cases args.number? plural.arg with
  | some x => rfl
  | none =>
      simp only [shown_eq_argument]
      cases context.strict <;> rfl

/-- What messages put around a text are the marks of direction of a pattern. -/
lemma isolated_eq : isolated = fun text => "\u2068" ++ text ++ "\u2069" := rfl

/-- Marks of direction go around texts only, so they may be added before or after an error counts
as a failure. -/
lemma outcome_render_wrap (context : Context) (node : LiveNode) (args : Arguments) :
    ((Compile.wrap context node).render args).outcome =
      Meaning.apart context (node.render args).outcome := by
  rw [Compile.wrap, Meaning.apart]
  cases context.isolate with
  | false => rfl
  | true =>
      rw [if_pos rfl, if_pos rfl, Node.render, isolated_eq]
      cases node.render args <;> rfl

/-- The case that was picked is rendered as it is read off, if all cases are. -/
lemma outcome_renderChosen {chosen : Option (Arguments → Rendering)}
    {chosen' : Option (Environment → Outcome)} {args : Arguments} {env : Environment}
    (h : (chosen.map fun body => (body args).outcome) = chosen'.map fun body => body env) :
    (renderChosen chosen args).outcome = Meaning.ofChosen chosen' env := by
  cases chosen with
  | none =>
      cases chosen' with
      | none => rfl
      | some _ => cases h
  | some body =>
      cases chosen' with
      | none => cases h
      | some _ => exact Option.some.inj h

/-! ### The simulation -/

section Simulation

variable {σ : Type} {context : Context} (args : Arguments)

mutual

/-- **Static binding agrees with dynamic binding**: a node that is compiled in the scope of a plural
says what its element means while that plural is read off. -/
theorem render_element (env : Environment) : ∀ {e : Element σ} {node : LiveNode},
    Compile.element context env.scope e = .ok node →
      (node.render args).outcome = meaning context args e env
  | .literal value _, node, h => by
      obtain rfl := Except.ok.inj h
      rfl
  | .argument name _, node, h => by
      obtain rfl := Except.ok.inj h
      rw [outcome_render_wrap, meaning, Node.render, shown_eq_argument]
      rfl
  | .call arg name style _, node, h => by
      rw [Compile.element, Compile.call] at h
      rw [meaning, Meaning.call]
      cases hname : context.registry.resolve? name with
      | none => rw [hname] at h; cases h
      | some formatter =>
          rw [hname] at h
          obtain rfl := Except.ok.inj h
          rw [outcome_render_wrap]
          rfl
  | .plural arg kind offset cases _, node, h => by
      obtain ⟨-, branches, hbranches, rfl⟩ := compile_plural h
      -- The plural itself is the scope of its cases, whatever plural is around it.
      have hcases := render_pluralCases (some ⟨arg, offset⟩) hbranches
      rw [outcome_render_wrap, meaning, Node.render]
      congr 1
      apply outcome_renderChosen
      rw [← choosePlural_map, hcases]
      exact choosePlural_map _ kind _ _ (fun body : Environment → Outcome => body _) _
  -- A select is no scope: below it number signs belong to the plural around it.
  | .select arg cases _, node, h => by
      obtain ⟨branches, hbranches, rfl⟩ := compile_select h
      have hcases := render_selectCases env hbranches
      rw [outcome_render_wrap, meaning, Node.render]
      congr 1
      apply outcome_renderChosen
      rw [← chooseSelect_map, hcases]
      exact chooseSelect_map _ (fun body : Environment → Outcome => body env) _
  | .numberSign _, node, h => by
      obtain rfl := Except.ok.inj h
      cases env with
      | none => rfl
      | some plural =>
          rw [Environment.scope, Option.map_some, Compile.numberSign, outcome_render_wrap,
            Node.render, outcome_renderNumberSign]
          rfl

/-- Elements in a row are rendered in a row, up to the first that fails. -/
theorem render_elements (env : Environment) : ∀ {es : List (Element σ)} {nodes : List LiveNode},
    Compile.elements context env.scope es = .ok nodes →
      (Node.renderAll nodes args).outcome = meanings context args es env
  | [], nodes, h => by
      obtain rfl := Except.ok.inj h
      rfl
  | e :: rest, nodes, h => by
      obtain ⟨node, others, hnode, hothers, rfl⟩ := compile_cons h
      have hfirst := render_element env hnode
      have hrest := render_elements env hothers
      rw [meanings, ← hfirst, ← hrest, Node.renderAll]
      cases node.render args with
      | error e => rfl
      | ok first => cases Node.renderAll others args <;> rfl

/-- Each case of a plural is rendered as it is read off, under the same key. -/
theorem render_pluralCases (env : Environment) : ∀ {cases : List (Case Key σ (Element σ))}
    {branches : List (Branch Key LiveNode)},
    Compile.pluralCases context env.scope cases = .ok branches →
      ((Node.renderPlural branches).map fun c => (c.1, (c.2 args).outcome)) =
        (pluralMeanings context args cases).map fun c => (c.1, c.2 env)
  | [], branches, h => by
      obtain rfl := Except.ok.inj h
      rfl
  | ⟨key, body, _⟩ :: rest, branches, h => by
      obtain ⟨nodes, others, hnodes, hothers, rfl⟩ := compile_pluralCases_cons h
      have hbody := render_elements env hnodes
      have hrest := render_pluralCases env hothers
      rw [Node.renderPlural, pluralMeanings, List.map_cons, List.map_cons, hrest, hbody]

/-- Each case of a select is rendered as it is read off, under the same key. -/
theorem render_selectCases (env : Environment) : ∀ {cases : List (Case String σ (Element σ))}
    {branches : List (Branch String LiveNode)},
    Compile.selectCases context env.scope cases = .ok branches →
      ((Node.renderSelect branches).map fun c => (c.1, (c.2 args).outcome)) =
        (selectMeanings context args cases).map fun c => (c.1, c.2 env)
  | [], branches, h => by
      obtain rfl := Except.ok.inj h
      rfl
  | ⟨key, body, _⟩ :: rest, branches, h => by
      obtain ⟨nodes, others, hnodes, hothers, rfl⟩ := compile_selectCases_cons h
      have hbody := render_elements env hnodes
      have hrest := render_selectCases env hothers
      rw [Node.renderSelect, selectMeanings, List.map_cons, List.map_cons, hrest, hbody]

end

/-- **A message says what its pattern means**, with the same text or the same error for all
arguments, whenever the pattern can be compiled at all. -/
theorem format_message {pattern : List (Element σ)} {m : LiveMessage}
    (h : Compile.message context pattern = .ok m) :
    (m.format args).outcome = meanings context args pattern none := by
  rw [Compile.message] at h
  obtain ⟨nodes, hnodes, h⟩ := bind_eq_ok.mp h
  obtain rfl := Except.ok.inj h
  exact render_elements args none hnodes

/-- A number sign below a select stands for the plural around both, and it may stand beside a call
and beside a plural of its own. -/
theorem format_message_english :
    let context : Context := ⟨"en", Plural.Family.english.rule "en",
      ⟨[], some Formatting.basicBackend⟩, true, true⟩
    let text := "{n, plural, offset:1 other{{g, select, x{# x} other{{m, plural, other{#}} #}}}}"
    ∃ pattern m, Pattern.parse text = .ok pattern ∧ Compile.message context pattern = .ok m ∧
      ∀ args, (m.format args).outcome = meanings context args pattern none := by
  intro context text
  have hok : (match Pattern.parse text with
      | .ok pattern => (Compile.message context pattern).isOk
      | .error _ => false) = true := by
    decide +kernel
  cases hparse : Pattern.parse text with
  | error e => rw [hparse] at hok; cases hok
  | ok pattern =>
      rw [hparse] at hok
      cases hm : Compile.message context pattern with
      | error e => simp only [hm] at hok; cases hok
      | ok m => exact ⟨pattern, m, rfl, hm, fun args => format_message args hm⟩

end Simulation

end MessageCatalog
