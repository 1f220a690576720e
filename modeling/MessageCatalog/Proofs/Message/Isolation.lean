/-
What isolation changes.

* `Node.ShowsUnmarked`: what a node shows has no marks of direction;
* `Isolating`: two texts of which the second one has isolates, or the same error;
* `relates_isolating`: isolating nodes say what plain ones say, with isolates;
* `LiteralsOutside`: no literal of a pattern is inside an isolate;
* `message_isolated`: isolation adds balanced isolates, and changes nothing else.
-/
import MessageCatalog.Proofs.Catalog.Switches
import MessageCatalog.Proofs.Text.Isolates

namespace MessageCatalog

open Pattern (Element)

/-! ### What is shown without marks -/

/-- What a node without branches shows has no marks. A number that it shows never has any. -/
def Node.ShowsUnmarked (args : Arguments) : LiveNode → Prop
  | .text value => Unmarked value.toList
  | .argument name => Unmarked (args.value name).render.toList
  | .numberSign arg _ _ =>
    (args.value arg).number? = none → Unmarked (args.value arg).render.toList
  | .call arg formatter locale style =>
    Unmarked (formatter.run ⟨args.value arg, locale, style⟩).toList
  | _ => True

instance (args : Arguments) : DecidablePred (Node.ShowsUnmarked args)
  | .text value => inferInstanceAs (Decidable (Unmarked value.toList))
  | .argument name => inferInstanceAs (Decidable (Unmarked (args.value name).render.toList))
  | .numberSign arg _ _ =>
    match hnumber : (args.value arg).number? with
    | some _ => .isTrue fun h => nomatch hnumber.symm.trans h
    | none => decidable_of_iff (Unmarked (args.value arg).render.toList)
        ⟨fun h _ => h, fun h => h hnumber⟩
  | .call arg formatter locale style =>
    inferInstanceAs (Decidable (Unmarked (formatter.run ⟨args.value arg, locale, style⟩).toList))
  | .plural .. | .select .. | .isolate _ => .isTrue trivial

/-! ### Plain nodes and isolating ones -/

/-- Of two renderings the second one has the text of the first one with isolates, or they have the
same error. The first one has no marks if none are shown by the nodes that are reached. -/
inductive Isolating (args : Arguments) (leaves : List LiveNode) : Rendering → Rendering → Prop where
  | error (e : FormatError) : Isolating args leaves (.error e) (.error e)
  | ok {shown shown' : String} (isolates : Isolates shown.toList shown'.toList)
      (unmarked : (∀ leaf ∈ leaves, leaf.ShowsUnmarked args) → Unmarked shown.toList) :
      Isolating args leaves (.ok shown) (.ok shown')

namespace Isolating

variable {args : Arguments} {leaves others : List LiveNode} {x x' y y' : Rendering}

/-- One text is shown twice. -/
lemma same {shown : String}
    (h : (∀ leaf ∈ leaves, leaf.ShowsUnmarked args) → Unmarked shown.toList) :
    Isolating args leaves (.ok shown) (.ok shown) :=
  .ok (.refl _) h

lemma append (h : Isolating args leaves x x') (hy : Isolating args others y y') :
    Isolating args (leaves ++ others)
      (do
        let first ← x
        let rest ← y
        return first ++ rest)
      (do
        let first ← x'
        let rest ← y'
        return first ++ rest) := by
  cases h with
  | error e => exact .error e
  | ok isolates unmarked =>
      cases hy with
      | error e => exact .error e
      | ok isolates' unmarked' =>
          refine .ok ?_ fun hleaves => ?_
          · rw [String.toList_append, String.toList_append]
            exact isolates.append isolates'
          · obtain ⟨hfirst, hrest⟩ := List.forall_mem_append.mp hleaves
            rw [String.toList_append, unmarked_append]
            exact ⟨unmarked hfirst, unmarked' hrest⟩

lemma toList_isolated (text : String) :
    (isolated text).toList = isolateStart :: (text.toList ++ [isolateEnd]) := by
  rw [isolated, String.toList_append, String.toList_append, String.toList_singleton,
    String.toList_singleton, List.append_assoc, List.singleton_append]

lemma apart (h : Isolating args leaves x x') : Isolating args leaves x (x'.map isolated) := by
  cases h with
  | error e => exact .error e
  | ok isolates unmarked =>
      refine .ok ?_ unmarked
      rw [toList_isolated]
      exact isolates.apart

/-- Where no marks are shown, there are no marks but those of balanced isolates. -/
lemma outcome (h : Isolating args leaves x x')
    (hleaves : ∀ leaf ∈ leaves, leaf.ShowsUnmarked args) :
    (∃ e, x = .error e ∧ x' = .error e) ∨
      ∃ shown shown', x = .ok shown ∧ x' = .ok shown' ∧
        withoutMarks shown'.toList = shown.toList ∧ Balanced shown'.toList := by
  cases h with
  | error e => exact .inl ⟨e, rfl, rfl⟩
  | @ok shown shown' isolates unmarked =>
      have hshown := unmarked hleaves
      exact .inr
        ⟨shown, shown', rfl, rfl, isolates.withoutMarks_eq hshown, isolates.balanced hshown⟩

lemma numberSign (arg : String) (offset : Float) (strict : Bool) :
    Isolating args [.numberSign arg offset strict] (renderNumberSign arg offset strict args)
      (renderNumberSign arg offset strict args) := by
  rw [renderNumberSign, ← Arguments.number?_value, ← Arguments.render_value]
  split
  · exact same fun _ => unmarked_numberText _
  · rename_i hnumber
    cases strict with
    | true => exact .error _
    | false => exact same fun hleaves => hleaves _ (List.mem_singleton_self _) hnumber

end Isolating

namespace Switches

/-- The same switches, without isolation. -/
def plain (s : Switches) : Switches := { s with isolate := false }

/-- The same switches, with isolation. -/
def isolating (s : Switches) : Switches := { s with isolate := true }

/-- **Isolating nodes say what plain ones say, with isolates.** -/
theorem relates_isolating (args : Arguments) (s : Switches) :
    Relates args s.plain s.isolating (Isolating args) where
  nil := .same fun _ => by decide
  same node shown h := by
    refine .same fun hleaves => ?_
    have hnode := hleaves node (List.mem_singleton_self node)
    cases node with
    | text value => exact Option.some.inj h ▸ hnode
    | argument name => exact Option.some.inj h ▸ hnode
    | call arg formatter locale style => exact Option.some.inj h ▸ hnode
    | _ => cases h
  numberSign arg offset := .numberSign arg offset s.strict
  append := .append
  apart h := h.apart

end Switches

/-! ### Literals -/

section Rows

variable {args : Arguments} {σ : Type}

/-- Nodes that stand after others are said after them. -/
lemma Node.renderAll_append (nodes others : List LiveNode) (args : Arguments) :
    renderAll (nodes ++ others) args = do
      let first ← renderAll nodes args
      let rest ← renderAll others args
      return first ++ rest := by
  induction nodes with
  | nil =>
      rw [List.nil_append]
      cases renderAll others args with
      | error e => rfl
      | ok shown => exact congrArg Except.ok String.empty_append.symm
  | cons node nodes ih =>
      rw [List.cons_append, renderAll, renderAll, ih]
      simp only [bind_assoc, pure_bind, String.append_assoc]

lemma Node.leavesOfAll_append (args : Arguments) (nodes others : List LiveNode) :
    leavesOfAll args (nodes ++ others) = leavesOfAll args nodes ++ leavesOfAll args others := by
  induction nodes with
  | nil => rw [List.nil_append, leavesOfAll, List.nil_append]
  | cons node nodes ih => rw [List.cons_append, leavesOfAll, leavesOfAll, ih, List.append_assoc]

/-- Elements are compiled one by one. -/
lemma compile_append (context : Context) (scope : Option Scope) (front back : List (Element σ)) :
    Compile.elements context scope (front ++ back) = do
      let first ← Compile.elements context scope front
      let rest ← Compile.elements context scope back
      return first ++ rest := by
  induction front with
  | nil =>
      rw [List.nil_append]
      cases Compile.elements context scope back <;> rfl
  | cons e front ih =>
      rw [List.cons_append, Compile.elements, Compile.elements, ih]
      simp only [bind_assoc, pure_bind, List.cons_append]

lemma length_of_compile {context : Context} {scope : Option Scope} {es : List (Element σ)}
    {nodes : List LiveNode} (h : Compile.elements context scope es = .ok nodes) :
    nodes.length = es.length := by
  induction es generalizing nodes with
  | nil =>
      obtain rfl := Except.ok.inj h
      rfl
  | cons e rest ih =>
      obtain ⟨node, others, _, hothers, rfl⟩ := compile_cons h
      exact congrArg (· + 1) (ih hothers)

/-- The literals of a pattern, as far as they are in no statement, stand in the output of its
message where no isolate is open. The output before one is what the nodes before it say. -/
def LiteralsOutside (pattern : List (Element σ)) (nodes : List LiveNode) (args : Arguments)
    (out : String) : Prop :=
  ∀ front value mark back, pattern = front ++ .literal value mark :: back →
    ∃ first rest before after, nodes = first ++ .text value :: rest ∧
      first.length = front.length ∧ Node.renderAll first args = .ok before ∧
      Node.renderAll rest args = .ok after ∧ out = before ++ (value ++ after) ∧
      ∀ place < value.length, ¬Inside out.toList (before.length + place)

open Node Switches in
/-- **No literal is inside an isolate,** if no marks are shown without isolation. -/
theorem literalsOutside {context : Context} {pattern : List (Element σ)} {m : LiveMessage}
    (hm : Compile.message context pattern = .ok m) (s : Switches)
    (hleaves : ∀ leaf ∈ leavesOfAll args (m.recast s.plain).nodes, leaf.ShowsUnmarked args)
    {out : String} (hout : (m.recast s.isolating).format args = .ok out) :
    LiteralsOutside pattern (m.recast s.isolating).nodes args out := by
  have hrelates := relates_isolating args s
  rintro front value mark back rfl
  rw [Compile.message] at hm
  obtain ⟨nodes, hnodes, hm⟩ := bind_eq_ok.mp hm
  obtain rfl := Except.ok.inj hm
  -- What splits the pattern at the literal splits its nodes, and then the text that they show.
  rw [compile_append] at hnodes
  obtain ⟨first, hcompiled, hnodes⟩ := bind_eq_ok.mp hnodes
  obtain ⟨more, hmore, hnodes⟩ := bind_eq_ok.mp hnodes
  obtain rfl := Except.ok.inj hnodes
  obtain ⟨node, rest, hnode, _, rfl⟩ := compile_cons hmore
  rw [Compile.element] at hnode
  obtain rfl := Except.ok.inj hnode
  have hrecast (s : Switches) :
      (Message.recast s ⟨context.locale, first ++ .text value :: rest⟩).nodes =
        first.map (recast s) ++ .text value :: rest.map (recast s) := by
    rw [Message.recast, recastAll_eq_map, List.map_append, List.map_cons, recast]
  rw [Message.format] at hout
  rw [hrecast] at hleaves hout ⊢
  rw [leavesOfAll_append, leavesOfAll] at hleaves
  obtain ⟨hfirst, hmore⟩ := List.forall_mem_append.mp hleaves
  have hvalue : Unmarked value.toList := hmore (.text value) (by simp [leaves])
  rw [renderAll_append] at hout
  obtain ⟨before, hbefore, hout⟩ := bind_eq_ok.mp hout
  obtain ⟨after, hafter, hout⟩ := bind_eq_ok.mp hout
  obtain rfl := Except.ok.inj hout
  rw [renderAll] at hafter
  obtain ⟨_, htext, hafter⟩ := bind_eq_ok.mp hafter
  obtain ⟨after, hrest, hafter⟩ := bind_eq_ok.mp hafter
  rw [Node.render] at htext
  obtain rfl := Except.ok.inj htext
  obtain rfl := Except.ok.inj hafter
  refine ⟨_, _, before, after, rfl, ?_, hbefore, hrest, rfl, fun place hplace => ?_⟩
  · rw [List.length_map, length_of_compile hcompiled]
  -- What is shown in front of the literal is balanced, so that no isolate is open behind it.
  · rcases (hrelates.nodes first fun node _ => hrelates.render node).outcome hfirst with
      ⟨e, _, herror⟩ | ⟨_, _, _, hok, _, hbalanced⟩
    · cases hbefore.symm.trans herror
    · obtain rfl := Except.ok.inj (hbefore.symm.trans hok)
      rw [String.toList_append, String.toList_append, ← String.length_toList]
      exact hbalanced.not_inside hvalue (by rw [String.length_toList]; exact hplace.le)

end Rows

/-! ### Messages -/

namespace Compiler

/-- **Isolation adds balanced isolates, and changes nothing else.** With isolation and without it, a
pattern has a message under the same locales, and otherwise the same error. If no marks of direction
are in the literals, arguments and results of formatters that a message shows without isolation,
then with isolation it has the same error, or the same text with marks: there are none but those of
balanced isolates, and no literal that is in no statement is inside one. -/
theorem message_isolated (compiler : Compiler) (locale : Option String) (text : String) :
    let plain : Compiler := { compiler with isolate := false }
    let isolating : Compiler := { compiler with isolate := true }
    (∃ e, plain.message locale text = .error e ∧ isolating.message locale text = .error e) ∨
      ∃ pattern m m', Pattern.parse text = .ok pattern ∧ plain.message locale text = .ok m ∧
        isolating.message locale text = .ok m' ∧
        ∀ args, (∀ leaf ∈ Node.leavesOfAll args m.nodes, leaf.ShowsUnmarked args) →
          (∃ e, m.format args = .error e ∧ m'.format args = .error e) ∨
            ∃ out out', m.format args = .ok out ∧ m'.format args = .ok out' ∧
              withoutMarks out'.toList = out.toList ∧ Balanced out'.toList ∧
              LiteralsOutside pattern m'.nodes args out' := by
  intro plain isolating
  let s : Switches := ⟨compiler.checkKeys, compiler.strict, true⟩
  rcases message_switch plain s rfl locale text with
    herror | ⟨_, m, hpattern, hm, hm'⟩
  · exact .inl herror
  obtain ⟨_, pattern, _, hparse, hmessage⟩ := pattern_eq_ok hpattern
  refine .inr ⟨pattern, m, m.recast s, hparse, hm, hm', fun args hleaves => ?_⟩
  -- The plain message is a recast of itself, and the other one is the recast that isolates.
  have hself : m.recast s.plain = m := recast_pattern hpattern
  have hformat := (Switches.relates_isolating args s).format m
  rw [hself] at hformat
  rcases hformat.outcome hleaves with herror | ⟨out, out', hout, hout', htext, hbalanced⟩
  · exact .inl herror
  · have houtside := literalsOutside hmessage s (hself.symm ▸ hleaves) hout'
    exact .inr ⟨out, out', hout, hout', htext, hbalanced, houtside⟩

/-- A select inside a plural is isolated inside its isolate, and what it shows inside both. -/
theorem message_isolated_english :
    let compiler : Compiler := ⟨⟨Plural.languages, ["en"], "en"⟩, {}, true, false, true⟩
    let plain : Compiler := { compiler with isolate := false }
    let text := "a {n, plural, one{# {g, select, x{{w}} other{}}} other{}} b"
    let args : Arguments := .ofPairs [("n", .num 1), ("g", .text "x"), ("w", .text "word")]
    ∃ pattern m m' out', Pattern.parse text = .ok pattern ∧ plain.message none text = .ok m ∧
      compiler.message none text = .ok m' ∧
      (∀ leaf ∈ Node.leavesOfAll args m.nodes, leaf.ShowsUnmarked args) ∧
      m.format args = .ok "a 1 word b" ∧ m'.format args = .ok out' ∧
      withoutMarks out'.toList = "a 1 word b".toList ∧ Balanced out'.toList ∧
      LiteralsOutside pattern m'.nodes args out' := by
  intro compiler plain text args
  have hok : passes (fun m : LiveMessage => decide (∀ leaf ∈ Node.leavesOfAll args m.nodes,
      leaf.ShowsUnmarked args) && decide (m.format args = .ok "a 1 word b"))
      (plain.message none text) = true := by
    decide +kernel
  obtain ⟨m, hm, hshown⟩ := passes_eq_true hok
  obtain ⟨hleaves, hformat⟩ := Bool.and_eq_true_iff.mp hshown
  have hleaves := of_decide_eq_true hleaves
  have hformat := of_decide_eq_true hformat
  rcases message_isolated compiler none text with
    ⟨e, herror, _⟩ | ⟨pattern, m₀, m', hparse, hm₀, hm', hisolated⟩
  · cases hm.symm.trans herror
  obtain rfl := Except.ok.inj (hm.symm.trans hm₀)
  rcases hisolated args hleaves with ⟨e, herror, _⟩ | ⟨out, out', hout, hout', htext, hrest⟩
  · cases hformat.symm.trans herror
  obtain rfl := Except.ok.inj (hformat.symm.trans hout)
  exact ⟨pattern, m, m', out', hparse, hm, hm', hleaves, hformat, hout', htext, hrest⟩

end Compiler

end MessageCatalog
