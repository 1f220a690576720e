/-
How deeply the text of a module is nested.

Patterns, groups and export paths may be nested to any depth, and nothing that is done to them looks
at it. Every level of them costs a number of levels of the text, and a text that has too many of
these is not read. Here the levels of a text are counted on the source that it is made of.

* `Json.Form.value?_of_deep`: what is nested too deeply has no value;
* `Element.levels`, `Source.levels`, `Target.levels`: the levels of what an element, a source and a
  target become in the text of a module;
* `depth_element`, `depth_traverse`, `depth_bodyOf`: the text has as many levels;
* `load_nesting`: so a module that has been made is loaded if and only if these levels are not too
  many;
* `load_nested`: they are for groups inside each other, of which there may be any number.
-/
import MessageCatalog.Proofs.Module.Mapping

namespace MessageCatalog

open Formatting (Formatter Reference)
open Pattern (Case Element)
open Plural (Key Rule)

/-! ### Values that are nested too deeply -/

namespace Json.Form

mutual

/-- **What is nested too deeply has no value.** -/
theorem value?_of_deep : ∀ {j : Json} {limit : Nat}, limit < j.depth →
    (ofJson j).value? limit = none
  | .array items, limit, h => by
      cases limit with
      | zero => rfl
      | succ limit =>
          rw [Json.depth] at h
          rw [ofJson, value?, itemValues?_of_deep (by omega), Option.map_none]
  | .object members, limit, h => by
      cases limit with
      | zero => rfl
      | succ limit =>
          rw [Json.depth] at h
          rw [ofJson, value?, memberValues?_of_deep (by omega), Option.map_none]
  | .null, _, h | .bool _, _, h | .integer _, _, h | .real _, _, h | .string _, _, h => by
      simp [Json.depth] at h

theorem itemValues?_of_deep : ∀ {items : List Json} {limit : Nat}, limit < depthOfItems items →
    itemValues? limit (ofItems items) = none
  | [], _, h => nomatch h
  | item :: rest, limit, h => by
      rw [depthOfItems, lt_max_iff] at h
      rw [ofItems, itemValues?]
      rcases h with h | h
      · rw [value?_of_deep h]
      · rw [itemValues?_of_deep h]
        cases (ofJson item).value? limit <;> rfl

theorem memberValues?_of_deep : ∀ {members : List (String × Json)} {limit : Nat},
    limit < depthOfMembers members → memberValues? limit (ofMembers members) = none
  | [], _, h => nomatch h
  | (key, item) :: rest, limit, h => by
      rw [depthOfMembers, lt_max_iff] at h
      simp only [ofMembers, memberValues?]
      rcases h with h | h
      · rw [value?_of_deep h]
      · rw [memberValues?_of_deep h]
        cases (ofJson item).value? limit <;> rfl

end

end Json.Form

/-! ### Levels of a source -/

namespace Pattern.Element

variable {σ : Type}

mutual

/-- The levels of the node of an element. The flags tell whether nodes are isolated, and whether
there is a plural around the element. Every case of a statement costs four levels: the node, the
list of its cases, the case and the list of its nodes. -/
def levels (isolate inPlural : Bool) : Element σ → Nat
  | .literal _ _ => 1
  | .argument _ _ => isolate.toNat + 1
  | .call _ _ _ _ => isolate.toNat + 2
  | .plural _ _ _ cases _ => isolate.toNat + (2 + levelsOfPlural isolate cases)
  | .select _ cases _ => isolate.toNat + (2 + levelsOfSelect isolate inPlural cases)
  | .numberSign _ => (isolate && inPlural).toNat + 1

/-- The levels of the nodes of elements. -/
def levelsOf (isolate inPlural : Bool) : List (Element σ) → Nat
  | [] => 0
  | e :: rest => max (e.levels isolate inPlural) (levelsOf isolate inPlural rest)

/-- The levels of the branches of plural cases. -/
def levelsOfPlural (isolate : Bool) : List (Case Key σ (Element σ)) → Nat
  | [] => 0
  | ⟨_, body, _⟩ :: rest => max (2 + levelsOf isolate true body) (levelsOfPlural isolate rest)

/-- The levels of the branches of select cases. -/
def levelsOfSelect (isolate inPlural : Bool) : List (Case String σ (Element σ)) → Nat
  | [] => 0
  | ⟨_, body, _⟩ :: rest =>
    max (2 + levelsOf isolate inPlural body) (levelsOfSelect isolate inPlural rest)

end

end Pattern.Element

/-- The levels of the message of a pattern. -/
def patternLevels (isolate : Bool) (text : String) : Nat :=
  match Pattern.parse text with
  | .ok es => 3 + Element.levelsOf isolate false es
  | .error _ => 0

namespace Source

mutual

/-- The levels of the entry of a source. Every group costs two levels. -/
def levels (isolate : Bool) : Source → Nat
  | .one text => patternLevels isolate text
  | .group entries => 2 + levelsOfEntries isolate entries

/-- The levels of the entries of sources under keys. -/
def levelsOfEntries (isolate : Bool) : List (String × Source) → Nat
  | [] => 0
  | (_, source) :: rest => max (source.levels isolate) (levelsOfEntries isolate rest)

end

end Source

namespace Module

/-- The levels of groups around what is put under a path. -/
def pathLevels (path : String) : Nat :=
  match pathSegments? path with
  | some segments => 2 * segments.length
  | none => 0

/-- The levels of the forms that a target asks for, given those of an entry. Entries under their own
names need no group around them. -/
def Target.levels (entry : Nat) : Target → Nat
  | .named => entry - 1
  | .default | .universal none => entry
  | .path keys | .universal (some keys) => entry + pathLevels keys

end Module

/-! ### Levels of nodes -/

namespace Module

open Json (depthOfItems depthOfMembers)

variable {σ : Type} {context : Context}

/-- Isolation costs a level. -/
lemma depth_wrap (node : LiveNode) :
    (nodeJson (storeNode (Compile.wrap context node))).depth =
      context.isolate.toNat + (nodeJson (storeNode node)).depth := by
  rw [Compile.wrap]
  cases context.isolate with
  | false => simp
  | true =>
      simp [storeNode, Node.map, nodeJson, Json.depth, depthOfMembers]
      omega

lemma depth_textsJson (texts : List String) : (textsJson texts).depth = 1 := by
  have hitems : depthOfItems (texts.map .string) = 0 := by
    induction texts with
    | nil => rfl
    | cons text rest ih =>
        rw [List.map_cons, depthOfItems, ih]
        rfl
  rw [textsJson, Json.depth, hitems]

lemma depth_optionalMember (key : String) (value : Option Json) :
    depthOfMembers (optionalMember key value) = (value.map Json.depth).getD 0 := by
  cases value with
  | none => rfl
  | some j => simp [optionalMember, depthOfMembers]

lemma depthOfMembers_append (members others : List (String × Json)) :
    depthOfMembers (members ++ others) = max (depthOfMembers members) (depthOfMembers others) := by
  induction members with
  | nil => simp [depthOfMembers]
  | cons member rest ih =>
      rw [List.cons_append, depthOfMembers, depthOfMembers, ih, max_assoc]

/-- A call names its formatter in an object, and no style is nested more deeply than that. -/
lemma depth_call (arg : String) (formatter : Formatter) (locale : String)
    (style : Option Formatting.Style) :
    (nodeJson (storeNode (.call arg formatter locale style))).depth = 2 := by
  have hreference : (referenceJson formatter.reference).depth = 1 := by
    cases formatter.reference <;> rfl
  have hstyle : ((style.map styleJson).map Json.depth).getD 0 ≤ 1 := by
    cases style with
    | none => exact Nat.zero_le 1
    | some style =>
        cases style with
        | single text => exact Nat.zero_le 1
        | list texts => exact (depth_textsJson texts).le
  rw [storeNode, Node.map, nodeJson, Json.depth, depthOfMembers_append, depth_optionalMember]
  simp only [depthOfMembers, hreference]
  simp only [Json.depth]
  omega

/-- A choice costs a level for its node and one for the list of its cases. -/
lemma depth_plural (arg : String) (kind : Plural.Kind) (offset : Float) (locale : String)
    (cases : List (Branch String StoredNode)) :
    (nodeJson (.plural arg kind offset locale cases)).depth =
      2 + depthOfItems (casesJson cases) := by
  simp only [nodeJson, Json.depth, depthOfMembers]
  omega

lemma depth_select (arg : String) (cases : List (Branch String StoredNode)) :
    (nodeJson (.select arg cases)).depth = 2 + depthOfItems (casesJson cases) := by
  simp only [nodeJson, Json.depth, depthOfMembers]
  omega

/-- A case costs a level for itself and one for the list of its nodes. -/
lemma depth_casesJson_cons (key : String) (body : List StoredNode)
    (rest : List (Branch String StoredNode)) :
    depthOfItems (casesJson (⟨key, body⟩ :: rest)) =
      max (2 + depthOfItems (nodesJson body)) (depthOfItems (casesJson rest)) := by
  simp only [casesJson, depthOfItems, Json.depth, depthOfMembers]
  omega

mutual

/-- **The node of an element has the levels that are counted for the element.** -/
theorem depth_element {scope : Option Scope} : ∀ {e : Element σ} {node : LiveNode},
    Compile.element context scope e = .ok node →
      (nodeJson (storeNode node)).depth = e.levels context.isolate scope.isSome
  | .literal value _, node, h => by
      rw [Compile.element] at h
      obtain rfl := Except.ok.inj h
      simp [storeNode, Node.map, nodeJson, Json.depth, depthOfMembers, Element.levels]
  | .argument name _, node, h => by
      rw [Compile.element] at h
      obtain rfl := Except.ok.inj h
      rw [depth_wrap]
      simp [storeNode, Node.map, nodeJson, Json.depth, depthOfMembers, Element.levels]
  | .call arg name style _, node, h => by
      rw [Compile.element, Compile.call] at h
      split at h
      · obtain rfl := Except.ok.inj h
        rw [depth_wrap, depth_call, Element.levels]
      · cases h
  | .plural arg kind offset cases _, node, h => by
      obtain ⟨-, branches, hbranches, rfl⟩ := compile_plural h
      rw [depth_wrap, Element.levels, storeNode, Node.map, depth_plural,
        depth_pluralCases hbranches]
  | .select arg cases _, node, h => by
      obtain ⟨branches, hbranches, rfl⟩ := compile_select h
      rw [depth_wrap, Element.levels, storeNode, Node.map, depth_select,
        depth_selectCases hbranches]
  | .numberSign _, node, h => by
      rw [Compile.element] at h
      obtain rfl := Except.ok.inj h
      -- Outside of plurals a number sign is literal text, which is never isolated.
      cases scope with
      | none =>
          simp [Compile.numberSign, storeNode, Node.map, nodeJson, Json.depth, depthOfMembers,
            Element.levels]
      | some scope =>
          rw [Compile.numberSign, depth_wrap]
          simp [storeNode, Node.map, nodeJson, Json.depth, depthOfMembers, Element.levels]

theorem depth_elements {scope : Option Scope} : ∀ {es : List (Element σ)} {nodes : List LiveNode},
    Compile.elements context scope es = .ok nodes →
      depthOfItems (nodesJson (storeNodes nodes)) =
        Element.levelsOf context.isolate scope.isSome es
  | [], nodes, h => by
      rw [Compile.elements] at h
      obtain rfl := Except.ok.inj h
      rw [Element.levelsOf, storeNodes, Node.mapAll, nodesJson, depthOfItems]
  | e :: rest, nodes, h => by
      obtain ⟨node, others, hnode, hothers, rfl⟩ := compile_cons h
      have hfirst := depth_element hnode
      have hrest := depth_elements hothers
      rw [storeNode] at hfirst
      rw [storeNodes] at hrest
      rw [Element.levelsOf, storeNodes, Node.mapAll, nodesJson, depthOfItems, hfirst, hrest]

theorem depth_pluralCases {scope : Scope} :
    ∀ {cases : List (Case Key σ (Element σ))} {branches : List (Branch Key LiveNode)},
      Compile.pluralCases context (some scope) cases = .ok branches →
        depthOfItems (casesJson
          (Node.mapPlural Formatter.reference Rule.locale Key.text branches)) =
          Element.levelsOfPlural context.isolate cases
  | [], branches, h => by
      rw [Compile.pluralCases] at h
      obtain rfl := Except.ok.inj h
      rw [Element.levelsOfPlural, Node.mapPlural, casesJson, depthOfItems]
  | ⟨key, body, _⟩ :: rest, branches, h => by
      obtain ⟨nodes, others, hnodes, hothers, rfl⟩ := compile_pluralCases_cons h
      have hbody := depth_elements hnodes
      rw [storeNodes, Option.isSome_some] at hbody
      rw [Element.levelsOfPlural, Node.mapPlural, depth_casesJson_cons, hbody,
        depth_pluralCases hothers]

theorem depth_selectCases {scope : Option Scope} :
    ∀ {cases : List (Case String σ (Element σ))} {branches : List (Branch String LiveNode)},
      Compile.selectCases context scope cases = .ok branches →
        depthOfItems (casesJson
          (Node.mapSelect Formatter.reference Rule.locale Key.text branches)) =
          Element.levelsOfSelect context.isolate scope.isSome cases
  | [], branches, h => by
      rw [Compile.selectCases] at h
      obtain rfl := Except.ok.inj h
      rw [Element.levelsOfSelect, Node.mapSelect, casesJson, depthOfItems]
  | ⟨key, body, _⟩ :: rest, branches, h => by
      obtain ⟨nodes, others, hnodes, hothers, rfl⟩ := compile_selectCases_cons h
      have hbody := depth_elements hnodes
      rw [storeNodes] at hbody
      rw [Element.levelsOfSelect, Node.mapSelect, depth_casesJson_cons, hbody,
        depth_selectCases hothers]

end

/-! ### Levels of bundles -/

/-- A message costs three levels: that of its kind, its own, and the list of its nodes. -/
lemma depth_one (m : StoredMessage) :
    (entryJson (.one m)).depth = 3 + depthOfItems (nodesJson m.nodes) := by
  simp only [entryJson, messageJson, Json.depth, depthOfMembers]
  omega

/-- A group costs two levels: that of its kind and its own. -/
lemma depth_group (entries : List (String × Entry)) :
    (entryJson (.group entries)).depth = 2 + depthOfMembers (entriesJson entries) := by
  simp only [entryJson, Json.depth, depthOfMembers]
  omega

lemma depth_pattern {compiler : Compiler} {locale text : String} {m : LiveMessage}
    (h : compiler.pattern locale text = .ok m) :
    (entryJson (store (.one m))).depth = patternLevels compiler.isolate text := by
  obtain ⟨rule, elements, _, hparse, hmessage⟩ := Compiler.pattern_eq_ok h
  obtain ⟨nodes, hnodes, hm⟩ := bind_eq_ok.mp hmessage
  obtain rfl := Except.ok.inj hm
  have hlevels := depth_elements hnodes
  rw [storeNodes] at hlevels
  rw [store, Bundle.map, depth_one, patternLevels, hparse]
  simp only [Message.mapNodes, hlevels]
  rfl

mutual

/-- **The bundle of a source has the levels that are counted for the source.** -/
theorem depth_traverse {compiler : Compiler} : ∀ {source : Source} {locale : String}
    {b : Bundle LiveMessage},
    source.traverse compiler.localeBelow compiler.pattern locale = .ok b →
      (entryJson (store b)).depth = source.levels compiler.isolate
  | .one text, locale, b, h => by
      obtain ⟨m, hm, rfl⟩ := map_eq_ok.mp h
      rw [depth_pattern hm, Source.levels]
  | .group entries, locale, b, h => by
      obtain ⟨others, hothers, rfl⟩ := map_eq_ok.mp h
      rw [store, Bundle.map, depth_group, depth_traverseEntries hothers, Source.levels]

theorem depth_traverseEntries {compiler : Compiler} : ∀ {entries : List (String × Source)}
    {locale : String} {made : List (String × Bundle LiveMessage)},
    Bundle.traverseEntries compiler.localeBelow compiler.pattern locale entries = .ok made →
      depthOfMembers (entriesJson (Bundle.mapEntries
        (Message.mapNodes Formatter.reference Rule.locale Key.text) made)) =
        Source.levelsOfEntries compiler.isolate entries
  | [], locale, made, h => by
      obtain rfl := Except.ok.inj h
      rw [Source.levelsOfEntries, Bundle.mapEntries, entriesJson, depthOfMembers]
  | (key, source) :: rest, locale, made, h => by
      obtain ⟨first, others, hfirst, hothers, rfl⟩ := Bundle.traverseEntries_cons h
      have hlevels := depth_traverse hfirst
      rw [store] at hlevels
      rw [Source.levelsOfEntries, Bundle.mapEntries, entriesJson, depthOfMembers, hlevels,
        depth_traverseEntries hothers]

end

/-- Every segment of a path costs a group. -/
lemma depth_nest (entry : Entry) (segments : List String) :
    (entryJson (entry.nest segments)).depth = (entryJson entry).depth + 2 * segments.length := by
  induction segments with
  | nil => rfl
  | cons segment rest ih =>
      have hstep : (entryJson (entry.nest (segment :: rest))).depth =
          2 + (entryJson (entry.nest rest)).depth := by
        show (entryJson (.group [(segment, entry.nest rest)])).depth = _
        rw [depth_group, entriesJson, entriesJson, depthOfMembers, depthOfMembers, Nat.max_zero]
      rw [hstep, ih, List.length_cons]
      omega

/-! ### Levels of modules -/

lemma depth_bodyJson (body : Body) : (bodyJson body).depth =
    1 + max (max (((body.default.map entryJson).map Json.depth).getD 0)
      (((body.exports.map fun entries => Json.object (entriesJson entries)).map Json.depth).getD 0))
      (((body.assign.map entryJson).map Json.depth).getD 0) := by
  rw [bodyJson, Json.depth, depthOfMembers_append, depthOfMembers_append, depth_optionalMember,
    depth_optionalMember, depth_optionalMember, Nat.add_comm]

/-- Entries under their own names have no more levels than the group of them. -/
lemma depth_exports (entries : List (String × Entry)) :
    (Json.object (entriesJson entries)).depth = (entryJson (.group entries)).depth - 1 := by
  rw [depth_group, Json.depth]
  omega

/-- So a body that has a group as well has no more levels for them. -/
lemma max_exports {entry : Entry} {exports : Option (Entries Entry)}
    (h : ∀ entries ∈ exports, entry = .group entries) :
    max (entryJson entry).depth
      (((exports.map fun entries => Json.object (entriesJson entries)).map Json.depth).getD 0) =
        (entryJson entry).depth := by
  cases exports with
  | none => exact Nat.max_zero _
  | some entries =>
      obtain rfl := h entries rfl
      simp only [Option.map_some, Option.getD_some, depth_exports]
      omega

lemma depth_nestUnder {path : String} {entry assigned : Entry}
    (h : nestUnder path entry = .ok assigned) :
    (entryJson assigned).depth = (entryJson entry).depth + pathLevels path := by
  obtain ⟨segments, hsegments, rfl⟩ := nestUnder_eq_ok h
  rw [depth_nest, pathLevels, hsegments]

/-- **A body has the levels that are counted for its target**, and one of its own. -/
theorem depth_bodyOf {entry : Entry} {target : Target} {body : Body}
    (h : bodyOf entry target = .ok body) :
    (bodyJson body).depth = 1 + target.levels (entryJson entry).depth := by
  rw [depth_bodyJson]
  cases target with
  | named =>
      cases entry with
      | one m => cases h
      | group entries =>
          obtain rfl := Except.ok.inj h
          simp [depth_exports, Target.levels]
  | default =>
      obtain rfl := Except.ok.inj h
      simp [Target.levels]
  | path path =>
      rw [bodyOf] at h
      obtain ⟨assigned, hassigned, h⟩ := bind_eq_ok.mp h
      obtain rfl := Except.ok.inj h
      simp [depth_nestUnder hassigned, Target.levels]
  | universal path =>
      cases path with
      | none =>
          obtain rfl := Except.ok.inj h
          simp only [Option.map_some, Option.getD_some]
          -- The exports are the group of the entry, and add no level to it.
          rw [max_exports]
          · simp [Target.levels]
          · exact fun entries hentries => eq_group_of_exports hentries
      | some path =>
          obtain ⟨assign, hassign, h⟩ := bind_eq_ok.mp h
          obtain ⟨assigned, hassigned, rfl⟩ := map_eq_ok.mp hassign
          obtain rfl := Except.ok.inj h
          simp only [Option.map_some, Option.getD_some]
          rw [max_exports]
          · simp [Target.levels, depth_nestUnder hassigned]
          · exact fun entries hentries => eq_group_of_exports hentries

lemma depth_targetJson (target : Target) : (targetJson target).depth = 1 := by
  cases target with
  | universal path => cases path <;> rfl
  | _ => rfl

lemma depth_runtimeJson (runtime : Runtime) : (runtimeJson runtime).depth = 2 := by
  simp [runtimeJson, Json.depth, depthOfMembers, depth_textsJson]

lemma depth_importsJson (locales : Entries Import) :
    depthOfMembers (locales.map fun (locale, categories) => (locale, importJson categories)) ≤
      2 := by
  induction locales with
  | nil => exact Nat.zero_le 2
  | cons entry rest ih =>
      have hfirst : (importJson entry.2).depth = 2 := by
        simp [importJson, Json.depth, depthOfMembers, depth_textsJson]
      exact max_le hfirst.le ih

lemma depth_referencesJson (references : List Reference) :
    depthOfItems (references.map referenceJson) ≤ 1 := by
  induction references with
  | nil => exact Nat.zero_le 1
  | cons reference rest ih =>
      have hfirst : (referenceJson reference).depth = 1 := by
        cases reference <;> rfl
      exact max_le hfirst.le ih

/-- The parts of a module beside its body have three levels at most. -/
lemma depth_json (m : Module) :
    1 + (bodyJson m.body).depth ≤ (json m).depth ∧
      (json m).depth ≤ max 4 (1 + (bodyJson m.body).depth) := by
  have hlocales := depth_importsJson m.locales
  have hformatters := depth_referencesJson m.formatters
  rw [json, Json.depth]
  simp only [depthOfMembers, depth_runtimeJson, depth_targetJson]
  simp only [Json.depth] at hlocales ⊢
  omega

/-- A text that is nested too deeply is not read. -/
lemma parse?_text_of_deep {m : Module} (hfinite : m.body.Finite)
    (hdeep : Json.nestingLimit < (json m).depth) : parse? m.text = none := by
  have hwhole : Json.Form.parse? m.text = some (Json.Form.ofJson (json m)) :=
    Json.parse?_pretty (storable_json hfinite)
  simp [parse?, hwhole, form_ofJson, Json.Form.value?_of_deep hdeep]

section Load

variable {compiler : Compiler} {locale : Option String} {source : Source} {b : Bundle LiveMessage}
  {target : Target} {m : Module} {host : Host}

/-- The module of a compiled source is nested too deeply if its body is. -/
lemma limit_lt_depth_json (hcompile : compiler.bundle locale source = .ok b)
    (hmodule : ofBundle b target = .ok m) : Json.nestingLimit < (json m).depth ↔
      Json.nestingLimit < 2 + target.levels (source.levels compiler.isolate) := by
  obtain ⟨selected, htraverse⟩ := Compiler.bundle_eq_ok hcompile
  obtain ⟨body, hbody, rfl⟩ := ofBundle_eq_ok hmodule
  have hdepth := depth_bodyOf hbody
  rw [depth_traverse htraverse] at hdepth
  obtain ⟨hlower, hupper⟩ := depth_json
    ⟨.current, target, importsOf b, referencesOf b, body.hash.text, body⟩
  simp only at hlower hupper
  have hlimit : Json.nestingLimit = 127 := rfl
  omega

/-- A text that is nested too deeply is not loaded, whatever the host has. -/
lemma load_of_deep (hcompile : compiler.bundle locale source = .ok b)
    (hmodule : ofBundle b target = .ok m) (hdeep : Json.nestingLimit < (json m).depth) :
    load m.text host = .error .json := by
  have hfinite : ∀ m ∈ b.items, Node.AllOf Node.Finite m.nodes := fun m hm =>
    Node.AllOf.imp (fun _ hnode => hnode.1) m.nodes (Compiler.made_bundle hcompile m hm)
  rw [load, parse?_text_of_deep (finite_ofBundle hfinite hmodule) hdeep]

/-- **A module that has been made is loaded if and only if its text is not nested too deeply**, and
how deeply it is can be counted on its source and its target. -/
theorem load_nesting (hsource : source.Ordered) (hcompile : compiler.bundle locale source = .ok b)
    (hmodule : ofBundle b target = .ok m) (hhost : host.Supplies b) :
    ((∃ loaded, load m.text host = .ok loaded) ↔
      2 + target.levels (source.levels compiler.isolate) ≤ Json.nestingLimit) ∧
    (load m.text host = .error .json ↔
      Json.nestingLimit < 2 + target.levels (source.levels compiler.isolate)) := by
  have hdeep := limit_lt_depth_json hcompile hmodule
  rcases Nat.lt_or_ge Json.nestingLimit
    (2 + target.levels (source.levels compiler.isolate)) with hlt | hle
  · have herror : load m.text host = .error .json :=
      load_of_deep hcompile hmodule (hdeep.mpr hlt)
    refine ⟨⟨fun ⟨loaded, hloaded⟩ => ?_, fun hle => absurd hlt (Nat.not_lt.mpr hle)⟩,
      fun _ => hlt, fun _ => herror⟩
    rw [herror] at hloaded
    cases hloaded
  · have hdepth : (json m).depth ≤ Json.nestingLimit :=
      Nat.not_lt.mp fun h => absurd (hdeep.mp h) (Nat.not_lt.mpr hle)
    obtain ⟨f, hlink, -⟩ := link_ofBundle (Compiler.made_bundle hcompile) hmodule hhost
    have hloaded : load m.text host = .ok (b.map f) := by
      rw [load_eq_link hsource hcompile hmodule hdepth, hlink]
    refine ⟨⟨fun _ => hle, fun _ => ⟨_, hloaded⟩⟩, fun herror => ?_,
      fun hlt => absurd hlt (Nat.not_lt.mpr hle)⟩
    rw [hloaded] at herror
    cases herror

/-- What the default settings compile is supplied by a host with the same plural rules. -/
lemma supplies_languages (hbuild : Setup.build { provider := Plural.languages } = .ok compiler)
    (h : compiler.bundle locale source = .ok b) :
    Host.Supplies { rules := Plural.languages } b := by
  obtain ⟨resolver, hresolver, rfl⟩ := Setup.resolver_of_build hbuild
  have hprovider : Plural.languages = resolver.provider :=
    congrArg Prod.fst (Except.ok.inj (Locale.Resolver.make_eq_ok hresolver).1)
  refine Host.supplies_of_rules (fun key rule hrule => ?_) rfl (fun _ hbackend => ?_) h
  · have hname : rule.locale = key := by
      rw [← hprovider] at hrule
      obtain ⟨family, _, rfl⟩ := Option.map_eq_some_iff.mp hrule
      rfl
    rw [← hprovider, ← hname] at hrule
    exact ⟨rule, hrule, fun _ _ => rfl, fun _ _ => List.Subset.refl _⟩
  · cases hbackend

/-- Sixty groups inside each other have 126 levels, of which a text may have 127. -/
theorem load_nesting_sixty :
    let source : Source := (Bundle.one "x").nest (List.replicate 60 "g")
    let host : Host := { rules := Plural.languages }
    ∃ compiler b m, Setup.build { provider := Plural.languages } = .ok compiler ∧
      source.Ordered ∧ compiler.bundle none source = .ok b ∧ ofBundle b .default = .ok m ∧
      host.Supplies b ∧ 2 + Target.default.levels (source.levels compiler.isolate) = 126 ∧
      ((∃ loaded, load m.text host = .ok loaded) ↔
        2 + Target.default.levels (source.levels compiler.isolate) ≤ Json.nestingLimit) ∧
      (load m.text host = .error .json ↔
        Json.nestingLimit < 2 + Target.default.levels (source.levels compiler.isolate)) := by
  intro source host
  have hok : passes (fun compiler => passes (fun b => passes (fun _ =>
      decide (2 + Target.default.levels (source.levels compiler.isolate) = 126))
        (ofBundle b .default)) (compiler.bundle none source))
          (Setup.build { provider := Plural.languages }) = true := by
    decide +kernel
  obtain ⟨compiler, hbuild, hok⟩ := passes_eq_true hok
  obtain ⟨b, hcompile, hok⟩ := passes_eq_true hok
  obtain ⟨m, hmodule, hok⟩ := passes_eq_true hok
  have hpattern : (Bundle.one "x").Ordered := trivial
  have hsource : source.Ordered := Bundle.ordered_nest hpattern _
  have hsupplies := supplies_languages hbuild hcompile
  exact ⟨compiler, b, m, hbuild, hsource, hcompile, hmodule, hsupplies, of_decide_eq_true hok,
    load_nesting hsource hcompile hmodule hsupplies⟩

/-- **With one group more the module is made all the same, and is not read.** -/
theorem load_nested :
    let source : Source := (Bundle.one "x").nest (List.replicate 61 "g")
    let host : Host := { rules := Plural.languages }
    ∃ compiler b m, Setup.build { provider := Plural.languages } = .ok compiler ∧
      compiler.bundle none source = .ok b ∧ ofBundle b .default = .ok m ∧ host.Supplies b ∧
      load m.text host = .error .json := by
  intro source host
  have hok : passes (fun compiler => passes (fun b => passes (fun m =>
      decide (Json.nestingLimit < (json m).depth)) (ofBundle b .default))
        (compiler.bundle none source)) (Setup.build { provider := Plural.languages }) = true := by
    decide +kernel
  obtain ⟨compiler, hbuild, hok⟩ := passes_eq_true hok
  obtain ⟨b, hcompile, hok⟩ := passes_eq_true hok
  obtain ⟨m, hmodule, hok⟩ := passes_eq_true hok
  exact ⟨compiler, b, m, hbuild, hcompile, hmodule, supplies_languages hbuild hcompile,
    load_of_deep hcompile hmodule (of_decide_eq_true hok)⟩

end Load

end Module

end MessageCatalog
