/-
Linking: making stored nodes live again.

* `Linking`: where the rules and the formatters of stored nodes come from;
* `linkNode`, `linkBundle`: the live form of a node and of a bundle.
-/
import MessageCatalog.Module.Host

namespace MessageCatalog.Module

open Formatting (Formatter Reference)
open Plural (Key Rule)

/-- What stored nodes are linked with. -/
structure Linking where
  rule : String → Except LoadError Rule
  formatter : Reference → Except LoadError Formatter

/-- Demands a case for all other values. -/
def checkOther {ν : Type} (arg : String) (cases : List (Branch String ν)) : Except LoadError Unit :=
  if cases.any (·.key == "other") then .ok () else .error (.invalid (.noOther arg))

/-- The plural key that a text is. -/
def linkKey (text : String) : Except LoadError Key :=
  match Key.ofText? text with
  | some key => .ok key
  | none => .error (.invalid (.badKey text))

mutual

/-- The live form of a node. What a choice needs comes before what its cases need. -/
def linkNode (linking : Linking) : StoredNode → Except LoadError LiveNode
  | .text value => .ok (.text value)
  | .argument name => .ok (.argument name)
  | .numberSign arg offset strict => .ok (.numberSign arg offset strict)
  | .call arg reference locale style => do
    let formatter ← linking.formatter reference
    return .call arg formatter locale style
  | .plural arg kind offset locale cases => do
    let rule ← linking.rule locale
    checkOther arg cases
    let branches ← linkPlural linking cases
    return .plural arg kind offset rule branches
  | .select arg cases => do
    checkOther arg cases
    let branches ← linkSelect linking cases
    return .select arg branches
  | .isolate inner => do
    let node ← linkNode linking inner
    return .isolate node

/-- The live forms of nodes. -/
def linkNodes (linking : Linking) : List StoredNode → Except LoadError (List LiveNode)
  | [] => .ok []
  | node :: rest => do
    let first ← linkNode linking node
    let others ← linkNodes linking rest
    return first :: others

/-- The live forms of plural cases. -/
def linkPlural (linking : Linking) :
    List (Branch String StoredNode) → Except LoadError (List (Branch Key LiveNode))
  | [] => .ok []
  | ⟨text, body⟩ :: rest => do
    let key ← linkKey text
    let nodes ← linkNodes linking body
    let others ← linkPlural linking rest
    return ⟨key, nodes⟩ :: others

/-- The live forms of select cases. -/
def linkSelect (linking : Linking) :
    List (Branch String StoredNode) → Except LoadError (List (Branch String LiveNode))
  | [] => .ok []
  | ⟨key, body⟩ :: rest => do
    let nodes ← linkNodes linking body
    let others ← linkSelect linking rest
    return ⟨key, nodes⟩ :: others

end

/-- The live form of a message. -/
def linkMessage (linking : Linking) (m : StoredMessage) : Except LoadError LiveMessage := do
  let nodes ← linkNodes linking m.nodes
  return ⟨m.locale, nodes⟩

/-- The live form of a bundle. -/
def linkBundle (linking : Linking) (entry : Entry) : Except LoadError (Bundle LiveMessage) :=
  entry.traverse (fun _ _ => ()) (fun _ m => linkMessage linking m) ()

/-- Links with imported rules only, and with the formatters of a host. -/
def Linking.imported (host : Host) (rules : Entries Rule) : Linking where
  rule name :=
    match Entries.get? rules name with
    | some rule => .ok rule
    | none => .error (.invalid (.notImported name))
  formatter := host.formatter

end MessageCatalog.Module
