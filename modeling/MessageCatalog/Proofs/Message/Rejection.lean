/-
Which patterns are rejected, and for what.

A pattern is compiled unless there is a call without a formatter in it, or a plural with a label
that its rule refuses. It does not matter how deep such a statement stands, and whether any value
would lead there.

* `Statement`, `Element.statements`: the statements that are checked, in the order in which they
  are written, a plural before those in its cases;
* `Context.Rejects`, `Context.Blames`: the statements that are rejected, and with which error;
* `Context.fault?`, `Checks`: the check of one statement, and a computation that makes such checks
  until one of them fails;
* `message_rejected`: a pattern is rejected for the first of its statements that is.
-/
import MessageCatalog.Proofs.Message.Labels

namespace MessageCatalog

open Pattern (Case Element)
open Plural (Category Key Kind Rule)

/-! ### Statements -/

/-- A statement that is checked when a pattern is compiled. -/
inductive Statement where
  | call (arg name : String)
  | plural (arg : String) (kind : Kind) (keys : List Key)

namespace Pattern.Element

variable {σ : Type}

mutual

/-- The statements of an element at every depth, in the order in which they are written. -/
def statements : Element σ → List Statement
  | .call arg name _ _ => [.call arg name]
  | .plural arg kind _ cases _ => .plural arg kind (cases.map (·.key)) :: statementsOfPlural cases
  | .select _ cases _ => statementsOfSelect cases
  | _ => []

/-- The statements of elements. -/
def statementsOf : List (Element σ) → List Statement
  | [] => []
  | e :: rest => e.statements ++ statementsOf rest

/-- The statements of plural cases. -/
def statementsOfPlural : List (Case Key σ (Element σ)) → List Statement
  | [] => []
  | ⟨_, body, _⟩ :: rest => statementsOf body ++ statementsOfPlural rest

/-- The statements of select cases. -/
def statementsOfSelect : List (Case String σ (Element σ)) → List Statement
  | [] => []
  | ⟨_, body, _⟩ :: rest => statementsOf body ++ statementsOfSelect rest

end

end Pattern.Element

/-! ### What is rejected -/

/-- A label that a rule refuses: the rule declares categories for the kind of the plural, but none
with this label, and the label is not the one for all other values. -/
def Plural.Rule.Refuses (rule : Rule) (kind : Kind) (label : String) : Prop :=
  rule.declared kind ≠ [] ∧ ¬rule.Knows kind label

/-- A statement that cannot be compiled: a call without a formatter, or a plural with a label that
the rule refuses. -/
def Context.Rejects (context : Context) : Statement → Prop
  | .call _ name => context.registry.resolve? name = none
  | .plural _ kind keys => ∃ label, .label label ∈ keys ∧ context.rule.Refuses kind label

/-- The error for a statement that cannot be compiled. It names the formatter that is missing, or
the first label that the rule refuses, and the argument of the statement. -/
inductive Context.Blames (context : Context) : Statement → StatementError → Prop where
  | unknownFormatter {arg name} : context.registry.resolve? name = none →
      Blames context (.call arg name) (.unknownFormatter name arg)
  | invalidKey {arg kind before label after} :
      (∀ earlier, .label earlier ∈ before → ¬context.rule.Refuses kind earlier) →
      context.rule.Refuses kind label →
      Blames context (.plural arg kind (before ++ .label label :: after))
        (.invalidKey label arg context.rule.locale (context.rule.labels kind))

/-! ### The check of one statement -/

/-- What is wrong with a statement. -/
def Context.fault? (context : Context) : Statement → Option StatementError
  | .call arg name =>
    if (context.registry.resolve? name).isNone then some (.unknownFormatter name arg) else none
  | .plural arg kind keys =>
    if (context.rule.declared kind).isEmpty then none
    else (badLabel? (context.rule.declared kind) keys).map fun label =>
      .invalidKey label arg context.rule.locale (context.rule.labels kind)

/-- The check of labels passes those that the rule knows. -/
lemma isDeclaredLabel_iff {rule : Rule} {kind : Kind} {label : String} :
    isDeclaredLabel (rule.declared kind) label = true ↔ rule.Knows kind label := by
  refine ⟨knows_of_isDeclaredLabel, ?_⟩
  rintro (rfl | hlabel)
  · rfl
  · obtain ⟨category, hcategory, rfl⟩ := List.mem_map.mp hlabel
    rw [isDeclaredLabel, Category.ofLabel?_label]
    exact Bool.or_eq_true_iff.mpr (.inr (List.contains_iff_mem.mpr hcategory))

/-- The label that the check complains about is the first one that does not pass it. -/
lemma badLabel?_eq_some {declared : List Category} {keys : List Key} {label : String}
    (h : badLabel? declared keys = some label) :
    ∃ before after, keys = before ++ .label label :: after ∧
      (∀ earlier, .label earlier ∈ before → isDeclaredLabel declared earlier = true) ∧
      ¬isDeclaredLabel declared label = true := by
  induction keys with
  | nil => cases h
  | cons key rest ih =>
      cases key with
      | exact number =>
          obtain ⟨before, after, rfl, hbefore, hlabel⟩ := ih h
          refine ⟨.exact number :: before, after, rfl, fun earlier he => ?_, hlabel⟩
          rcases List.mem_cons.mp he with heq | he
          · cases heq
          · exact hbefore earlier he
      | label text =>
          rw [badLabel?] at h
          split at h
          · rename_i htext
            obtain ⟨before, after, rfl, hbefore, hlabel⟩ := ih h
            refine ⟨.label text :: before, after, rfl, fun earlier he => ?_, hlabel⟩
            rcases List.mem_cons.mp he with heq | he
            · obtain rfl := Key.label.inj heq
              exact htext
            · exact hbefore earlier he
          · rename_i htext
            obtain rfl := Option.some.inj h
            exact ⟨[], rest, rfl, fun _ he => absurd he List.not_mem_nil, htext⟩

/-- Labels that pass the check do not keep it from complaining about the next one. -/
lemma badLabel?_append {declared : List Category} {before : List Key} {label : String}
    (hbefore : ∀ earlier, .label earlier ∈ before → isDeclaredLabel declared earlier = true)
    (hlabel : ¬isDeclaredLabel declared label = true) (after : List Key) :
    badLabel? declared (before ++ .label label :: after) = some label := by
  induction before with
  | nil => rw [List.nil_append, badLabel?, if_neg hlabel]
  | cons key rest ih =>
      have hrest := ih fun earlier he => hbefore earlier (List.mem_cons_of_mem _ he)
      cases key with
      | exact number => exact hrest
      | label text =>
          rw [List.cons_append, badLabel?, if_pos (hbefore text List.mem_cons_self), hrest]

section Faults

variable {context : Context} {s : Statement}

/-- A statement with a fault is blamed for it. -/
lemma blames_of_fault? {e : StatementError} (h : context.fault? s = some e) :
    context.Blames s e := by
  cases s with
  | call arg name =>
      rw [Context.fault?] at h
      split at h
      · rename_i hnone
        obtain rfl := Option.some.inj h
        exact .unknownFormatter (Option.isNone_iff_eq_none.mp hnone)
      · cases h
  | plural arg kind keys =>
      rw [Context.fault?] at h
      split at h
      · cases h
      · rename_i hdeclared
        obtain ⟨label, hlabel, rfl⟩ := Option.map_eq_some_iff.mp h
        obtain ⟨before, after, rfl, hbefore, hlabel⟩ := badLabel?_eq_some hlabel
        refine .invalidKey (fun earlier he hrefuses => ?_) ⟨?_, ?_⟩
        · exact hrefuses.2 (isDeclaredLabel_iff.mp (hbefore earlier he))
        · exact fun hnil => hdeclared (List.isEmpty_iff.mpr hnil)
        · exact fun hknows => hlabel (isDeclaredLabel_iff.mpr hknows)

/-- A statement that is blamed for something is rejected. -/
lemma Context.Blames.rejects {e : StatementError} (h : context.Blames s e) :
    context.Rejects s := by
  cases h with
  | unknownFormatter hnone => exact hnone
  | invalidKey _ hlabel =>
      exact ⟨_, List.mem_append_right _ List.mem_cons_self, hlabel⟩

/-- A statement without a fault is not rejected. -/
lemma not_rejects_of_fault? (h : context.fault? s = none) : ¬context.Rejects s := by
  cases s with
  | call arg name =>
      intro hnone
      rw [Context.fault?, if_pos (Option.isNone_iff_eq_none.mpr hnone)] at h
      cases h
  | plural arg kind keys =>
      rintro ⟨label, hlabel, hdeclared, hknows⟩
      rw [Context.fault?, if_neg (fun hempty => hdeclared (List.isEmpty_iff.mp hempty)),
        Option.map_eq_none_iff] at h
      exact hknows (isDeclaredLabel_iff.mp (isDeclaredLabel_of_badLabel? h hlabel))

lemma rejects_iff : context.Rejects s ↔ ∃ e, context.fault? s = some e := by
  cases h : context.fault? s with
  | none => simpa using not_rejects_of_fault? h
  | some e => simpa using (blames_of_fault? h).rejects

/-- Statements are blamed for their faults only. -/
lemma blames_iff {e : StatementError} : context.Blames s e ↔ context.fault? s = some e := by
  refine ⟨fun h => ?_, blames_of_fault?⟩
  cases h with
  | unknownFormatter hnone =>
      rw [Context.fault?, if_pos (Option.isNone_iff_eq_none.mpr hnone)]
  | @invalidKey arg kind before label after hbefore hlabel =>
      obtain ⟨hdeclared, hunknown⟩ := hlabel
      have hpasses : ∀ earlier, Key.label earlier ∈ before →
          isDeclaredLabel (context.rule.declared kind) earlier = true := fun earlier he =>
        isDeclaredLabel_iff.mpr <| not_not.mp fun hknows => hbefore earlier he ⟨hdeclared, hknows⟩
      rw [Context.fault?, if_neg (fun hempty => hdeclared (List.isEmpty_iff.mp hempty)),
        badLabel?_append hpasses (fun h => hunknown (isDeclaredLabel_iff.mp h)), Option.map_some]

end Faults

/-! ### Compilation -/

/-- A computation that checks statements one after the other. It has the first fault for its error,
and a result if there is none. -/
def Checks {α : Type} (context : Context) (ss : List Statement)
    (x : Except StatementError α) : Prop :=
  match ss.findSome? context.fault? with
  | some e => x = .error e
  | none => ∃ a, x = .ok a

section Compilation

variable {σ α β : Type} {context : Context} {ss ts : List Statement}

lemma Checks.ok (a : α) : Checks context [] (.ok a) := ⟨a, rfl⟩

/-- Where a check fails, nothing behind it is looked at. -/
lemma Checks.bind {x : Except StatementError α} {f : α → Except StatementError β}
    (hx : Checks context ss x) (hf : ∀ a, Checks context ts (f a)) :
    Checks context (ss ++ ts) (x >>= f) := by
  rw [Checks, List.findSome?_append]
  rw [Checks] at hx
  cases hss : ss.findSome? context.fault? with
  | some e =>
      rw [hss] at hx
      rw [hx]
      rfl
  | none =>
      rw [hss] at hx
      obtain ⟨a, rfl⟩ := hx
      exact hf a

/-- A computation makes the checks of what it starts with. -/
lemma Checks.done {x : Except StatementError α} (hx : Checks context ss x)
    (f : α → β) : Checks context ss (x >>= fun a => .ok (f a)) := by
  have hbind := hx.bind fun a => Checks.ok (f a)
  rwa [List.append_nil] at hbind

lemma checks_call (arg name : String) (style : Option Formatting.Style) :
    Checks context [.call arg name] (Compile.call context arg name style) := by
  rw [Checks, List.findSome?_singleton, Context.fault?, Compile.call]
  cases context.registry.resolve? name with
  | none => rfl
  | some formatter => exact ⟨_, rfl⟩

lemma checks_keys (arg : String) (kind : Kind) (keys : List Key) :
    Checks context [.plural arg kind keys] (checkKeys context.rule arg kind keys) := by
  rw [Checks, List.findSome?_singleton, Context.fault?, checkKeys]
  by_cases hdeclared : (context.rule.declared kind).isEmpty = true
  · rw [if_pos hdeclared, if_pos hdeclared]
    exact ⟨(), rfl⟩
  · rw [if_neg hdeclared, if_neg hdeclared]
    cases badLabel? (context.rule.declared kind) keys with
    | none => exact ⟨(), rfl⟩
    | some label => rfl

mutual

/-- **The compilation of an element checks its statements**, in the order in which they are
written. -/
theorem checks_element (scope : Option Scope) :
    ∀ e : Element σ, Checks context e.statements (Compile.element context scope e)
  | .literal value _ => .ok _
  | .argument name _ => .ok _
  | .numberSign _ => .ok _
  | .call arg name style _ => checks_call arg name style
  | .plural arg kind offset cases _ => by
      rw [Compile.element, Element.statements]
      refine (checks_keys arg kind (cases.map (·.key))).bind fun _ => ?_
      exact (checks_pluralCases _ cases).done _
  | .select arg cases _ => by
      rw [Compile.element, Element.statements]
      exact (checks_selectCases scope cases).done _

theorem checks_elements (scope : Option Scope) :
    ∀ es : List (Element σ), Checks context (Element.statementsOf es)
      (Compile.elements context scope es)
  | [] => .ok _
  | e :: rest => by
      rw [Compile.elements, Element.statementsOf]
      refine (checks_element scope e).bind fun node => ?_
      exact (checks_elements scope rest).done _

theorem checks_pluralCases (scope : Option Scope) :
    ∀ cases : List (Case Key σ (Element σ)), Checks context (Element.statementsOfPlural cases)
      (Compile.pluralCases context scope cases)
  | [] => .ok _
  | ⟨key, body, _⟩ :: rest => by
      rw [Compile.pluralCases, Element.statementsOfPlural]
      refine (checks_elements scope body).bind fun nodes => ?_
      exact (checks_pluralCases scope rest).done _

theorem checks_selectCases (scope : Option Scope) :
    ∀ cases : List (Case String σ (Element σ)), Checks context (Element.statementsOfSelect cases)
      (Compile.selectCases context scope cases)
  | [] => .ok _
  | ⟨key, body, _⟩ :: rest => by
      rw [Compile.selectCases, Element.statementsOfSelect]
      refine (checks_elements scope body).bind fun nodes => ?_
      exact (checks_selectCases scope rest).done _

end

/-- A pattern has the first fault of its statements for its error. -/
lemma message_eq_error_iff {pattern : List (Element σ)} {e : StatementError} :
    Compile.message context pattern = .error e ↔
      (Element.statementsOf pattern).findSome? context.fault? = some e := by
  have hchecks : Checks context (Element.statementsOf pattern) (Compile.message context pattern) :=
    (checks_elements none pattern).done _
  rw [Checks] at hchecks
  cases hfault : (Element.statementsOf pattern).findSome? context.fault? with
  | some e' =>
      rw [hfault] at hchecks
      simp [hchecks]
  | none =>
      rw [hfault] at hchecks
      obtain ⟨m, hm⟩ := hchecks
      simp [hm]

/-- **A pattern is rejected for the first of its statements that is.** It cannot be compiled if and
only if one of its statements is rejected, wherever in the pattern it stands. The error is that of
the first such statement, a plural being looked at before the statements in its cases. -/
theorem message_rejected (context : Context) (pattern : List (Element σ)) :
    ((∃ e, Compile.message context pattern = .error e) ↔
      ∃ s ∈ Element.statementsOf pattern, context.Rejects s) ∧
    ∀ e, Compile.message context pattern = .error e ↔
      ∃ before s after, Element.statementsOf pattern = before ++ s :: after ∧
        (∀ earlier ∈ before, ¬context.Rejects earlier) ∧ context.Blames s e := by
  constructor
  · simp only [message_eq_error_iff, ← Option.isSome_iff_exists, List.findSome?_isSome_iff,
      rejects_iff]
  · intro e
    rw [message_eq_error_iff, List.findSome?_eq_some_iff]
    have hfaultless : ∀ s, context.fault? s = none ↔ ¬context.Rejects s := fun s => by
      rw [rejects_iff, ← Option.isSome_iff_exists, Option.not_isSome_iff_eq_none]
    simp only [blames_iff, hfaultless]
    constructor
    · rintro ⟨before, s, after, heq, hs, hbefore⟩
      exact ⟨before, s, after, heq, hbefore, hs⟩
    · rintro ⟨before, s, after, heq, hbefore, hs⟩
      exact ⟨before, s, after, heq, hs, hbefore⟩

end Compilation

end MessageCatalog
