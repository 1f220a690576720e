/-
What number signs stand for.

A plural looks its number up when it picks a case, and each number sign looks its number up again
when it is shown, with an argument and an offset of its own. Compilation gives a sign those of the
nearest plural around it, so that both see the same number. In the case of an exact number this is
the number of the key, and the signs show it.

* `Node.ownSigns`: the number signs of a node that stand for the plural around it;
* `Node.Binds`, `bound_message`: a sign has the argument and the offset of this plural;
* `Node.fill`, `render_fill`: a text in place of these signs;
* `Node.ShowsKey`, `message_showsKey`: the case of an exact number shows this number.
-/
import MessageCatalog.Proofs.Message.Branches
import MessageCatalog.Proofs.Message.Choice

namespace MessageCatalog

open Number (Equals)
open Pattern (Element)
open Plural (Key Kind Rule)

/-! ### The signs of a plural -/

namespace Node

mutual

/-- The number signs of a node, but for those below a plural in it. -/
def ownSigns : LiveNode → List LiveNode
  | .numberSign arg offset strict => [.numberSign arg offset strict]
  | .select _ cases => ownSignsOfSelect cases
  | .isolate inner => inner.ownSigns
  | _ => []

/-- The number signs of nodes, but for those below a plural in them. -/
def ownSignsOfAll : List LiveNode → List LiveNode
  | [] => []
  | node :: rest => node.ownSigns ++ ownSignsOfAll rest

/-- The number signs of select branches, but for those below a plural in them. -/
def ownSignsOfSelect : List (Branch String LiveNode) → List LiveNode
  | [] => []
  | ⟨_, body⟩ :: rest => ownSignsOfAll body ++ ownSignsOfSelect rest

end

lemma ownSignsOfAll_eq_flatMap (nodes : List LiveNode) :
    ownSignsOfAll nodes = nodes.flatMap ownSigns := by
  induction nodes with
  | nil => rfl
  | cons node rest ih => rw [ownSignsOfAll, ih, List.flatMap_cons]

lemma ownSignsOfSelect_eq_flatMap (cases : List (Branch String LiveNode)) :
    ownSignsOfSelect cases = cases.flatMap fun c => c.body.flatMap ownSigns := by
  induction cases with
  | nil => rfl
  | cons c rest ih => rw [ownSignsOfSelect, ih, ownSignsOfAll_eq_flatMap, List.flatMap_cons]

/-- A number sign has the argument and the offset of the plural around it. -/
def Binds (scope : Option Scope) : LiveNode → Prop
  | .numberSign arg offset _ => scope = some ⟨arg, offset⟩
  | _ => True

/-- So have all signs of a node that stand for the plural around it. -/
lemma Within.binds_ownSigns {scope : Option Scope} {node : LiveNode} (h : node.Within Binds scope) :
    ∀ sign ∈ node.ownSigns, ∃ s strict, scope = some s ∧
      sign = .numberSign s.arg s.offset strict := by
  induction h with
  | @numberSign scope arg offset strict hbinds =>
      intro sign hsign
      rw [ownSigns, List.mem_singleton] at hsign
      exact ⟨⟨arg, offset⟩, strict, hbinds, hsign⟩
  | select _ _ ih =>
      intro sign hsign
      rw [ownSigns, ownSignsOfSelect_eq_flatMap] at hsign
      obtain ⟨c, hc, hsign⟩ := List.mem_flatMap.mp hsign
      obtain ⟨node, hnode, hsign⟩ := List.mem_flatMap.mp hsign
      exact ih c hc node hnode sign hsign
  | isolate _ _ ih =>
      intro sign hsign
      rw [ownSigns] at hsign
      exact ih sign hsign
  | _ =>
      intro sign hsign
      simp only [ownSigns, List.not_mem_nil] at hsign

/-- The signs that stand for a plural have its argument and its offset. -/
lemma Within.binds_plural {scope : Option Scope} {arg : String} {kind : Kind} {offset : Float}
    {rule : Rule} {cases : List (Branch Key LiveNode)}
    (h : (Node.plural arg kind offset rule cases : LiveNode).Within Binds scope)
    {c : Branch Key LiveNode} (hc : c ∈ cases) {sign : LiveNode}
    (hsign : sign ∈ ownSignsOfAll c.body) :
    ∃ strict, sign = .numberSign arg offset strict := by
  cases h with
  | plural _ hcases =>
      rw [ownSignsOfAll_eq_flatMap] at hsign
      obtain ⟨node, hnode, hsign⟩ := List.mem_flatMap.mp hsign
      obtain ⟨s, strict, hscope, hsign⟩ := (hcases c hc node hnode).binds_ownSigns sign hsign
      obtain rfl := Option.some.inj hscope
      exact ⟨strict, hsign⟩

end Node

/-- Compilation binds every number sign. -/
lemma carries_binds {σ : Type} {context : Context} :
    Compile.Carries context (fun _ (_ : Element σ) => True) Node.Binds where
  text _ _ := trivial
  isolate _ _ := trivial
  argument _ := trivial
  call _ _ := trivial
  numberSign _ := rfl
  plural _ _ _ := trivial
  select _ _ := trivial
  pluralBody _ _ _ _ _ := trivial
  selectBody _ _ _ _ _ := trivial

/-! ### A text in place of the signs -/

namespace Node

mutual

/-- The node with a text in place of its number signs, but for those below a plural in it. -/
def fill (text : String) : LiveNode → LiveNode
  | .numberSign _ _ _ => .text text
  | .select arg cases => .select arg (fillSelect text cases)
  | .isolate inner => .isolate (inner.fill text)
  | node => node

/-- The nodes with a text in place of their number signs. -/
def fillAll (text : String) : List LiveNode → List LiveNode
  | [] => []
  | node :: rest => node.fill text :: fillAll text rest

/-- The select branches with a text in place of their number signs. -/
def fillSelect (text : String) : List (Branch String LiveNode) → List (Branch String LiveNode)
  | [] => []
  | ⟨key, body⟩ :: rest => ⟨key, fillAll text body⟩ :: fillSelect text rest

end

variable {text : String} {args : Arguments}

lemma fillAll_eq_map (nodes : List LiveNode) : fillAll text nodes = nodes.map (fill text) := by
  induction nodes with
  | nil => rfl
  | cons node rest ih => rw [fillAll, ih, List.map_cons]

lemma fillSelect_eq_map (cases : List (Branch String LiveNode)) :
    fillSelect text cases = cases.map (Branch.mapBody (fill text)) := by
  induction cases with
  | nil => rfl
  | cons c rest ih => rw [fillSelect, ih, fillAll_eq_map, List.map_cons, Branch.mapBody]

/-- **A node says the same with a text in place of its signs**, if each of these shows the text. -/
theorem render_fill (node : LiveNode) (h : ∀ sign ∈ node.ownSigns, sign.render args = .ok text) :
    (node.fill text).render args = node.render args := by
  induction node using Node.ind with
  | numberSign arg offset strict =>
      rw [fill, render, h _ (by rw [ownSigns]; exact List.mem_singleton_self _)]
  | select arg cases ih =>
      rw [ownSigns, ownSignsOfSelect_eq_flatMap] at h
      rw [fill, render_select, render_select, fillSelect_eq_map, pickSelect_mapBody]
      cases hpicked : pickSelect args arg cases with
      | none => rfl
      | some c =>
          have hc := mem_of_pickSelect hpicked
          exact renderAll_map fun node hnode => ih c hc node hnode fun sign hsign =>
            h sign (List.mem_flatMap.mpr ⟨c, hc, List.mem_flatMap.mpr ⟨node, hnode, hsign⟩⟩)
  | isolate inner ih =>
      rw [ownSigns] at h
      rw [fill, render, render, ih h]
  | _ => simp only [fill]

lemma renderAll_fillAll {nodes : List LiveNode}
    (h : ∀ sign ∈ ownSignsOfAll nodes, sign.render args = .ok text) :
    renderAll (fillAll text nodes) args = renderAll nodes args := by
  rw [ownSignsOfAll_eq_flatMap] at h
  rw [fillAll_eq_map]
  exact renderAll_map fun node hnode => render_fill node fun sign hsign =>
    h sign (List.mem_flatMap.mpr ⟨node, hnode, hsign⟩)

end Node

/-! ### The case of an exact number -/

section ExactCase

variable {args : Arguments} {arg : String} {kind : Kind} {offset : Float} {rule : Rule}

/-- A case is found under its own key. -/
lemma key_of_caseOf? {κ ν : Type} [BEq κ] [LawfulBEq κ] {key : κ} {cases : List (Branch κ ν)}
    {c : Branch κ ν} (h : caseOf? key (cases.map fun c => (c.key, c)) = some c) : c.key = key := by
  obtain ⟨entry, hfound, rfl⟩ := Option.map_eq_some_iff.mp h
  obtain ⟨c, _, rfl⟩ := List.mem_map.mp (List.mem_of_find?_eq_some hfound)
  have hkey := List.find?_some hfound
  exact eq_of_beq hkey

/-- A value that picks the case of an exact number is this number, less the offset. -/
lemma exists_number_of_pickPlural {cases : List (Branch Key LiveNode)} {c : Branch Key LiveNode}
    (h : pickPlural args arg kind offset rule cases = some c) {k : Int} (hkey : c.key = .exact k) :
    ∃ raw, args.number? arg = some raw ∧ Equals (raw - offset) k := by
  rw [pickPlural, choosePlural, args.number?_value] at h
  cases hnumber : args.number? arg with
  | none =>
      rw [hnumber] at h
      cases hkey.symm.trans (key_of_caseOf? h)
  | some raw =>
      rw [hnumber] at h
      simp only [choosePluralByNumber] at h
      split at h
      · rename_i d hexact
        obtain rfl := Option.some.inj h
        obtain ⟨n, hn, hcase⟩ := Option.bind_eq_some_iff.mp hexact
        obtain rfl := Key.exact.inj ((key_of_caseOf? hcase).symm.trans hkey)
        exact ⟨raw, rfl, (exactKey?_eq_some_iff.mp hn).1⟩
      · split at h
        · rename_i d hlabel
          obtain rfl := Option.some.inj h
          cases hkey.symm.trans (key_of_caseOf? hlabel)
        · cases hkey.symm.trans (key_of_caseOf? h)

/-- So its number sign shows the number. -/
lemma render_sign_of_pickPlural {cases : List (Branch Key LiveNode)} {c : Branch Key LiveNode}
    (h : pickPlural args arg kind offset rule cases = some c) {k : Int} (hkey : c.key = .exact k)
    (hk : k.natAbs < 2 ^ 53) (strict : Bool) :
    (Node.numberSign arg offset strict : LiveNode).render args = .ok (toString k) := by
  obtain ⟨raw, hnumber, hequals⟩ := exists_number_of_pickPlural h hkey
  rw [Node.render, renderNumberSign, hnumber]
  exact congrArg Except.ok (Number.numberText_of_equals hequals hk)

/-- A plural whose value picks the case of an exact number shows this number: all number signs that
stand for the plural have its argument and its offset and show the number, and the case says what it
would say with the number written there. -/
def Node.ShowsKey (args : Arguments) : LiveNode → Prop
  | .plural arg kind offset rule cases =>
    ∀ c k, pickPlural args arg kind offset rule cases = some c → c.key = .exact k →
      k.natAbs < 2 ^ 53 →
        (∀ sign ∈ Node.ownSignsOfAll c.body,
          (∃ strict, sign = .numberSign arg offset strict) ∧ sign.render args = .ok (toString k)) ∧
        Node.renderAll c.body args = Node.renderAll (Node.fillAll (toString k) c.body) args
  | _ => True

lemma Node.Within.showsKey {scope : Option Scope} {node : LiveNode}
    (h : node.Within Node.Binds scope) (args : Arguments) : node.ShowsKey args := by
  cases node with
  | plural arg kind offset rule cases =>
      intro c k hpicked hkey hk
      have hsigns : ∀ sign ∈ Node.ownSignsOfAll c.body,
          (∃ strict, sign = .numberSign arg offset strict) ∧
            sign.render args = .ok (toString k) := by
        intro sign hsign
        obtain ⟨strict, rfl⟩ := h.binds_plural (mem_of_pickPlural hpicked) hsign
        exact ⟨⟨strict, rfl⟩, render_sign_of_pickPlural hpicked hkey hk strict⟩
      exact ⟨hsigns, (Node.renderAll_fillAll fun sign hsign => (hsigns sign hsign).2).symm⟩
  | _ => trivial

/-- **The number shown is the number picked.** In a message, at any depth, a plural whose value
picks the case of an exact number below `2 ^ 53` in magnitude shows this number. -/
theorem message_showsKey {σ : Type} {context : Context} {pattern : List (Element σ)}
    {m : LiveMessage} (h : Compile.message context pattern = .ok m) (args : Arguments) :
    Node.AllOf (Node.ShowsKey args) m.nodes :=
  carries_binds.allOf (fun _ _ hnode => hnode.showsKey args) (fun _ _ => trivial) h

/-- The number sign below a select stands for the plural around both, and shows the number of a text
less the offset; the one of the plural inside does not count. -/
theorem message_showsKey_english :
    let rule := Plural.Family.english.rule "en"
    let context : Context := ⟨"en", rule, ⟨[], none⟩, true, false⟩
    let args : Arguments := .ofPairs [("n", .text "-1.0"), ("g", .text "x"), ("m", .num 5)]
    let inner : Element Unit :=
      .plural "m" .cardinal 0 [⟨.label "other", [.numberSign ()], ()⟩] ()
    let gate : Element Unit :=
      .select "g" [⟨"x", [.numberSign ()], ()⟩, ⟨"other", [], ()⟩] ()
    let sign : LiveNode := .numberSign "n" (Number.ofNat 1) true
    let body : List LiveNode := [.select "g" [⟨"x", [sign]⟩, ⟨"other", []⟩],
      .plural "m" .cardinal (Number.ofNat 0) rule
        [⟨.label "other", [.numberSign "m" (Number.ofNat 0) true]⟩]]
    let cases : List (Branch Key LiveNode) := [⟨.exact (-2), body⟩, ⟨.label "other", []⟩]
    Compile.message context [.plural "n" .cardinal 1
        [⟨.exact (-2), [gate, inner], ()⟩, ⟨.label "other", [], ()⟩] ()] =
      .ok ⟨"en", [.plural "n" .cardinal (Number.ofNat 1) rule cases]⟩ ∧
    pickPlural args "n" .cardinal (Number.ofNat 1) rule cases = some ⟨.exact (-2), body⟩ ∧
    Node.ownSignsOfAll body = [sign] ∧ sign.render args = .ok "-2" := by
  intro rule context args inner gate sign body cases
  have hm : Compile.message context [.plural "n" .cardinal 1
        [⟨.exact (-2), [gate, inner], ()⟩, ⟨.label "other", [], ()⟩] ()] =
      .ok ⟨"en", [.plural "n" .cardinal (Number.ofNat 1) rule cases]⟩ := by rfl
  have hpicked : pickPlural args "n" .cardinal (Number.ofNat 1) rule cases =
      some ⟨.exact (-2), body⟩ := by
    have hnumber : (args.value "n").number? = some (-1) := by decide +kernel
    simp only [pickPlural, choosePlural, hnumber]
    exact choosePluralByNumber_of_exact (by decide) List.mem_cons_self (by decide +kernel)
      (by decide)
  have hshows := message_showsKey hm args
  simp only [Node.AllOf, Node.All] at hshows
  have hsigns := (hshows.1.1 _ (-2) hpicked rfl (by decide)).1
  exact ⟨hm, hpicked, rfl, (hsigns sign (List.mem_singleton_self _)).2⟩

end ExactCase

end MessageCatalog
