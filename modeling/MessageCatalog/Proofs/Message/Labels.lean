/-
The labels of compiled plurals.

* `Rule.Knows`: the labels that may be used with a rule;
* `knows_of_checkKeys`: the check of keys lets no other labels pass;
* `Node.Checked`: a plural with a given rule, which knows its labels;
* `all_checked_message`: every plural of a compiled message is of this kind, at any depth.
-/
import MessageCatalog.Proofs.Message.Compiled

namespace MessageCatalog

open Pattern (Case Element)
open Plural (Category Key Kind Rule)

/-! ### Labels that pass the check -/

/-- The labels that may be used with a rule: those of its categories, and the one for all other
values. -/
def Plural.Rule.Knows (rule : Rule) (kind : Kind) (label : String) : Prop :=
  label = "other" ∨ label ∈ rule.labels kind

lemma knows_of_isDeclaredLabel {rule : Rule} {kind : Kind} {label : String}
    (h : isDeclaredLabel (rule.declared kind) label = true) : rule.Knows kind label := by
  rw [isDeclaredLabel] at h
  split at h
  · rename_i category hcategory
    obtain rfl := Category.label_of_ofLabel? hcategory
    rcases Bool.or_eq_true_iff.mp h with hother | hdeclared
    · obtain rfl : category = .other := eq_of_beq hother
      exact .inl rfl
    · exact .inr (List.mem_map_of_mem (List.contains_iff_mem.mp hdeclared))
  · cases h

lemma isDeclaredLabel_of_badLabel? {declared : List Category} {keys : List Key}
    (h : badLabel? declared keys = none) {label : String} (hlabel : .label label ∈ keys) :
    isDeclaredLabel declared label = true := by
  induction keys with
  | nil => cases hlabel
  | cons key rest ih =>
      cases key with
      | exact number =>
          rw [badLabel?] at h
          rcases List.mem_cons.mp hlabel with heq | hlabel
          · cases heq
          · exact ih h hlabel
      | label text =>
          rw [badLabel?] at h
          split at h
          · rename_i htext
            rcases List.mem_cons.mp hlabel with heq | hlabel
            · exact Key.label.inj heq ▸ htext
            · exact ih h hlabel
          · cases h

/-- **The check of keys lets no labels pass but those that the rule knows**, if it declares any. -/
theorem knows_of_checkKeys {rule : Rule} {arg : String} {kind : Kind} {keys : List Key}
    (h : checkKeys rule arg kind keys = .ok ()) (hdeclared : rule.declared kind ≠ [])
    {label : String} (hlabel : .label label ∈ keys) : rule.Knows kind label := by
  have hnonempty : (rule.declared kind).isEmpty = false := List.isEmpty_eq_false_iff.mpr hdeclared
  simp only [checkKeys, hnonempty, Bool.false_eq_true, if_false] at h
  split at h
  · rename_i hnone
    exact knows_of_isDeclaredLabel (isDeclaredLabel_of_badLabel? hnone hlabel)
  · cases h

/-! ### Compiled nodes -/

namespace Node

/-- A rule knows the labels of cases, if it declares any of their kind. -/
def Labelled (rule : Rule) (kind : Kind) (cases : List (Branch Key LiveNode)) : Prop :=
  rule.declared kind ≠ [] → ∀ c ∈ cases, ∀ label, c.key = .label label → rule.Knows kind label

/-- A plural has a rule that knows its labels. -/
def LabelsKnown : LiveNode → Prop
  | .plural _ kind _ rule cases => Labelled rule kind cases
  | _ => True

/-- A plural has the given rule, which knows its labels. -/
def Checked (given : Rule) : LiveNode → Prop
  | .plural _ kind _ rule cases => rule = given ∧ Labelled rule kind cases
  | _ => True

end Node

section Compilation

variable {σ : Type} {context : Context}

/-- Keys that have passed the check are known to the rule. -/
lemma labelled_of_checkKeys {rule : Rule} {arg : String} {kind : Kind}
    {cases : List (Case Key σ (Element σ))} {branches : List (Branch Key LiveNode)}
    (hcheck : checkKeys rule arg kind (cases.map (·.key)) = .ok ())
    (hkeys : branches.map (·.key) = cases.map (·.key)) : Node.Labelled rule kind branches := by
  intro hdeclared c hc label hlabel
  refine knows_of_checkKeys hcheck hdeclared ?_
  rw [← hkeys, ← hlabel]
  exact List.mem_map_of_mem hc

/-- All elements give nodes with the rule of the context, which knows their labels. -/
lemma carries_checked : Compile.Carries context (fun _ (_ : Element σ) => True)
    (fun _ node => node.Checked context.rule) where
  text _ _ := trivial
  isolate _ _ := trivial
  argument _ := trivial
  call _ _ := trivial
  numberSign _ := trivial
  plural _ hcheck hkeys := ⟨rfl, labelled_of_checkKeys hcheck hkeys⟩
  select _ _ := trivial
  pluralBody _ _ _ _ _ := trivial
  selectBody _ _ _ _ _ := trivial

/-- **Every plural of a message has the rule that the message is compiled with, which knows its
labels.** -/
theorem all_checked_message {pattern : List (Element σ)} {m : LiveMessage}
    (h : Compile.message context pattern = .ok m) :
    Node.AllOf (Node.Checked context.rule) m.nodes :=
  carries_checked.allOf (fun _ _ hnode => hnode.here) (fun _ _ => trivial) h

end Compilation

end MessageCatalog
