/-
Plural categories and the two ways of counting.

* `Category`, `Category.ofLabel?`: the six categories and their labels;
* `Kind`: counting or ranking.
-/

namespace MessageCatalog.Plural

/-- The categories that languages sort numbers into. -/
inductive Category where
  | zero
  | one
  | two
  | few
  | many
  | other
deriving DecidableEq

namespace Category

/-- All categories. -/
def all : List Category := [.zero, .one, .two, .few, .many, .other]

/-- The label of a category in patterns. -/
def label : Category → String
  | .zero => "zero"
  | .one => "one"
  | .two => "two"
  | .few => "few"
  | .many => "many"
  | .other => "other"

/-- The category with a label. -/
def ofLabel? (text : String) : Option Category :=
  all.find? fun category => category.label == text

theorem ofLabel?_label (category : Category) : ofLabel? category.label = some category := by
  cases category <;> decide

theorem label_of_ofLabel? {text : String} {category : Category}
    (h : ofLabel? text = some category) : category.label = text := by
  have hfound := List.find?_some h
  exact eq_of_beq hfound

end Category

/-- Whether numbers count things or rank them. -/
inductive Kind where
  | cardinal
  | ordinal
deriving DecidableEq

/-- The label of a kind. -/
def Kind.label : Kind → String
  | .cardinal => "cardinal"
  | .ordinal => "ordinal"

/-- The kind with a label. -/
def Kind.ofLabel? (text : String) : Option Kind :=
  [Kind.cardinal, Kind.ordinal].find? fun kind => kind.label == text

theorem Kind.ofLabel?_label (kind : Kind) : Kind.ofLabel? kind.label = some kind := by
  cases kind <;> decide

end MessageCatalog.Plural
