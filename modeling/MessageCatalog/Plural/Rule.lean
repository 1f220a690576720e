/-
Plural rules.

* `Rule`: a named function from numbers to categories, with the categories that it declares;
* `Provider`: where rules come from.
-/
import MessageCatalog.Entries
import MessageCatalog.Plural.Category

namespace MessageCatalog.Plural

/-- A plural rule. The sets of categories that it declares serve to check the keys of cases; an
empty set declares nothing. -/
structure Rule where
  locale : String
  category : Float → Kind → Category
  cardinal : List Category
  ordinal : List Category

namespace Rule

/-- The categories that a rule declares for a kind. -/
def declared (rule : Rule) : Kind → List Category
  | .cardinal => rule.cardinal
  | .ordinal => rule.ordinal

/-- The same rule, declaring nothing. -/
def undeclared (rule : Rule) : Rule :=
  { rule with cardinal := [], ordinal := [] }

/-- The labels of the categories that a rule declares for a kind. -/
def labels (rule : Rule) (kind : Kind) : List String :=
  (rule.declared kind).map Category.label

end Rule

/-- A source of plural rules by exact locale name. -/
abbrev Provider := String → Option Rule

/-- The rules of a mapping, each under its key. -/
def Provider.ofEntries (rules : Entries Rule) : Provider :=
  Entries.get? rules

end MessageCatalog.Plural
