/-
The forms of JSON texts.

A text may follow the grammar of JSON and still hold what has no value: a number that no float is
near to, or a string with half of a surrogate pair. So reading goes in two steps, from a text to
its form, which may be nested to any depth, and from the form to a value. What a record has beside
its fields is taken out between the two, so that it needs a form only.

* `Form`: what a text is by the grammar;
* `Form.value?`: the value of a form whose nesting stays within a bound;
* `Form.ofJson`: the form of a value, with the law that it has this value;
* `Form.record`, `Form.table`: a form with no more than is read of it.
-/
import MessageCatalog.Json.Value

namespace MessageCatalog.Json

/-- What a text is by the grammar of JSON. A leaf or a key without a value follows the grammar,
but stands for nothing. -/
inductive Form where
  | leaf (value : Option Json)
  | array (items : List Form)
  | object (members : List (Option String × Form))

namespace Form

/-! ### Values -/

mutual

/-- The value of a form with at most the given number of nested arrays and objects. -/
def value? : Nat → Form → Option Json
  | _, .leaf value => value
  | 0, .array _ => none
  | limit + 1, .array items => (itemValues? limit items).map .array
  | 0, .object _ => none
  | limit + 1, .object members => (memberValues? limit members).map .object

/-- The values of the items of an array. -/
def itemValues? (limit : Nat) : List Form → Option (List Json)
  | [] => some []
  | item :: rest =>
    match item.value? limit, itemValues? limit rest with
    | some value, some values => some (value :: values)
    | _, _ => none

/-- The keys of an object and their values. -/
def memberValues? (limit : Nat) : List (Option String × Form) → Option (List (String × Json))
  | [] => some []
  | (key, item) :: rest =>
    match key, item.value? limit, memberValues? limit rest with
    | some key, some value, some values => some ((key, value) :: values)
    | _, _, _ => none

end

mutual

/-- The form of a value. -/
def ofJson : Json → Form
  | .array items => .array (ofItems items)
  | .object members => .object (ofMembers members)
  | j => .leaf (some j)

/-- The forms of the items of an array. -/
def ofItems : List Json → List Form
  | [] => []
  | item :: rest => ofJson item :: ofItems rest

/-- The forms of the members of an object. -/
def ofMembers : List (String × Json) → List (Option String × Form)
  | [] => []
  | (key, item) :: rest => (some key, ofJson item) :: ofMembers rest

end

mutual

/-- The form of a value has this value, within any bound that the value's nesting keeps. -/
theorem value?_ofJson (j : Json) (limit : Nat) (h : j.depth ≤ limit) :
    (ofJson j).value? limit = some j := by
  cases j with
  | array items =>
    cases limit with
    | zero => simp [Json.depth] at h
    | succ limit =>
      have bound : depthOfItems items ≤ limit := by simpa [Json.depth] using h
      simp [ofJson, value?, itemValues?_ofItems items limit bound]
  | object members =>
    cases limit with
    | zero => simp [Json.depth] at h
    | succ limit =>
      have bound : depthOfMembers members ≤ limit := by simpa [Json.depth] using h
      simp [ofJson, value?, memberValues?_ofMembers members limit bound]
  | _ => simp [ofJson, value?]

/-- The forms of items have these items as their values. -/
theorem itemValues?_ofItems (items : List Json) (limit : Nat) (h : depthOfItems items ≤ limit) :
    itemValues? limit (ofItems items) = some items := by
  cases items with
  | nil => rfl
  | cons item rest =>
    rw [depthOfItems, Nat.max_le] at h
    simp [ofItems, itemValues?, value?_ofJson item limit h.1, itemValues?_ofItems rest limit h.2]

/-- The forms of members have these members as their values. -/
theorem memberValues?_ofMembers (members : List (String × Json)) (limit : Nat)
    (h : depthOfMembers members ≤ limit) :
    memberValues? limit (ofMembers members) = some members := by
  cases members with
  | nil => rfl
  | cons member rest =>
    obtain ⟨key, item⟩ := member
    rw [depthOfMembers, Nat.max_le] at h
    simp [ofMembers, memberValues?, value?_ofJson item limit h.1,
      memberValues?_ofMembers rest limit h.2]

end

/-! ### Parts -/

/-- Changes items one by one, each with a function of its own. Items without one stay. -/
def each {α : Type} : List (α → α) → List α → List α
  | part :: parts, item :: rest => part item :: each parts rest
  | _, items => items

/-- A record with no more members than its fields, where of each field no more is left than is
read of it. A key without a value might be any, so that it stays. -/
def record (fields : List (String × (Form → Form))) : Form → Form
  | .object members => .object <| members.filterMap fun (key, item) =>
    match key with
    | none => some (none, item)
    | some name => (fields.lookup name).map fun part => (some name, part item)
  | .array items => .array (each (fields.map Prod.snd) items)
  | form => form

/-- An object under any keys, with no more left of each value than is read of it. -/
def table (part : Form → Form) : Form → Form
  | .object members => .object (members.map fun (key, item) => (key, part item))
  | form => form

end Form

end MessageCatalog.Json
