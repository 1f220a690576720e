/-
Plural rules of some languages.

Languages with the same rules form a family. A family's rules look at a `Quantity`: the magnitude
of a number as a whole number, or as a fraction with its integer part. Main definitions:

* `Quantity.ofFloat`: the quantity of a float;
* `Family.cardinal`, `Family.ordinal`: the rules;
* `Family.cardinals`, `Family.ordinals`: the categories that the rules may give;
* `languages`: the rules by language code.
-/
import MessageCatalog.Number.Exact
import MessageCatalog.Plural.Rule

namespace MessageCatalog.Plural

-- Powers here are core's own, also where Mathlib is in scope.
attribute [local instance (high)] instPowNat

/-! ### Quantities -/

/-- The magnitude of a number, as plural rules see it. -/
inductive Quantity where
  /-- A whole number. -/
  | whole (count : Nat)
  /-- Strictly between a natural number and the next one. -/
  | fraction (floor : Nat)
  /-- Not a number, or too large to count. -/
  | boundless
deriving DecidableEq

/-- The largest count. -/
def Quantity.largest : Nat := 2 ^ (64 : Nat) - 1

/-- The quantity of a float. Counting stops at `2 ^ 64`, which is still taken for the largest
count; a larger number has no count at all. -/
def Quantity.ofFloat (x : Float) : Quantity :=
  match Number.view x with
  | .finite e =>
    let floor := e.units / Number.unit
    if e.units % Number.unit ≠ 0 then .fraction floor
    else if floor ≤ largest then .whole floor
    else if floor = largest + 1 then .whole largest
    else .boundless
  | _ => .boundless

/-! ### Whole numbers -/

/-- Endings in 1, in 2 to 4, and all others, with the numbers from 11 to 14 among the others. -/
def slavic (n : Nat) : Category :=
  if n % 10 = 1 ∧ n % 100 ≠ 11 then .one
  else if 2 ≤ n % 10 ∧ n % 10 ≤ 4 ∧ ¬(12 ≤ n % 100 ∧ n % 100 ≤ 14) then .few
  else .many

/-- The number one, endings in 2 to 4 but not in 12 to 14, and all others. -/
def polish (n : Nat) : Category :=
  if n = 1 then .one
  else if 2 ≤ n % 10 ∧ n % 10 ≤ 4 ∧ ¬(12 ≤ n % 100 ∧ n % 100 ≤ 14) then .few
  else .many

/-- Zero, one and two by themselves, the rest by its last two digits. -/
def arabic (n : Nat) : Category :=
  if n = 0 then .zero
  else if n = 1 then .one
  else if n = 2 then .two
  else if 3 ≤ n % 100 ∧ n % 100 ≤ 10 then .few
  else if 11 ≤ n % 100 then .many
  else .other

/-- The number one, and the nonzero multiples of a million. -/
def romance (n : Nat) : Category :=
  if n = 1 then .one
  else if n ≠ 0 ∧ n % 1000000 = 0 then .many
  else .other

/-- Endings in 1, 2 and 3, but not in 11, 12 and 13. -/
def englishOrdinal (n : Nat) : Category :=
  if n % 10 = 1 ∧ n % 100 ≠ 11 then .one
  else if n % 10 = 2 ∧ n % 100 ≠ 12 then .two
  else if n % 10 = 3 ∧ n % 100 ≠ 13 then .few
  else .other

/-- The ranks up to nine, each in a category of its own choice. -/
def welshOrdinal (n : Nat) : Category :=
  if n = 0 ∨ n = 7 ∨ n = 8 ∨ n = 9 then .zero
  else if n = 1 then .one
  else if n = 2 then .two
  else if n = 3 ∨ n = 4 then .few
  else if n = 5 ∨ n = 6 then .many
  else .other

/-! ### Families -/

/-- Languages that share their plural rules. -/
inductive Family where
  | english
  | germanic
  | french
  | spanish
  | italian
  | hebrew
  | russian
  | serboCroatian
  | polish
  | arabic
  | welsh
  | uniform
deriving DecidableEq

namespace Family

/-- The category of a whole number of things. -/
def cardinalOfWhole (family : Family) (n : Nat) : Category :=
  match family with
  | .english | .germanic => if n = 1 then .one else .other
  | .french => if n < 2 then .one else romance n
  | .spanish | .italian => romance n
  | .hebrew => if n = 1 then .one else if n = 2 then .two else .other
  | .russian => slavic n
  | .serboCroatian =>
    match slavic n with
    | .many => .other
    | category => category
  | .polish => Plural.polish n
  | .arabic => Plural.arabic n
  | .welsh =>
    if n = 0 then .zero
    else if n = 1 then .one
    else if n = 2 then .two
    else if n = 3 then .few
    else if n = 6 then .many
    else .other
  | .uniform => .other

/-- The category of a rank. -/
def ordinalOfWhole (family : Family) (n : Nat) : Category :=
  match family with
  | .english => englishOrdinal n
  | .french => if n = 1 then .one else .other
  | .italian => if n = 11 ∨ n = 8 ∨ n = 80 ∨ n = 800 then .many else .other
  | .welsh => welshOrdinal n
  | _ => .other

/-- The category of a quantity of things. Two families have a category for small fractions. -/
def cardinal (family : Family) : Quantity → Category
  | .whole n => family.cardinalOfWhole n
  | .fraction floor =>
    match family with
    | .french => if floor < 2 then .one else .other
    | .hebrew => if floor = 0 then .one else .other
    | _ => .other
  | .boundless => .other

/-- The category of a rank; only whole numbers rank. -/
def ordinal (family : Family) : Quantity → Category
  | .whole n => family.ordinalOfWhole n
  | _ => .other

/-- The categories of things counted. -/
def cardinals : Family → List Category
  | .english | .germanic => [.one, .other]
  | .french | .spanish | .italian => [.one, .many, .other]
  | .hebrew => [.one, .two, .other]
  | .russian | .polish => [.one, .few, .many, .other]
  | .serboCroatian => [.one, .few, .other]
  | .arabic | .welsh => [.zero, .one, .two, .few, .many, .other]
  | .uniform => [.other]

/-- The categories of ranks. -/
def ordinals : Family → List Category
  | .english => [.one, .two, .few, .other]
  | .welsh => [.zero, .one, .two, .few, .many, .other]
  | .french => [.one, .other]
  | .italian => [.many, .other]
  | _ => [.other]

/-- The category of a float. -/
def category (family : Family) (x : Float) : Kind → Category
  | .cardinal => family.cardinal (.ofFloat x)
  | .ordinal => family.ordinal (.ofFloat x)

/-- The languages of a family. -/
def codes : Family → List String
  | .english => ["en"]
  | .germanic =>
    ["de", "nl", "sv", "da", "no", "nb", "nn", "el", "hu", "fi", "et", "tr", "bg"]
  | .french => ["fr"]
  | .spanish => ["es"]
  | .italian => ["it"]
  | .hebrew => ["he"]
  | .russian => ["ru", "uk"]
  | .serboCroatian => ["hr", "sr", "bs"]
  | .polish => ["pl"]
  | .arabic => ["ar"]
  | .welsh => ["cy"]
  | .uniform => ["zh", "ja", "ko", "th", "vi", "id", "ms"]

/-- All families. -/
def all : List Family :=
  [.english, .germanic, .french, .spanish, .italian, .hebrew, .russian, .serboCroatian, .polish,
    .arabic, .welsh, .uniform]

/-- The family of a language. -/
def ofLanguage? (code : String) : Option Family :=
  all.find? fun family => family.codes.contains code

/-- The rule of a family, under the name of one of its languages. -/
def rule (family : Family) (locale : String) : Rule :=
  { locale
    category := family.category
    cardinal := family.cardinals
    ordinal := family.ordinals }

end Family

/-- The rules of the languages above, by bare language code. Regions and scripts are not looked
at: falling back from a longer name is the caller's part. -/
def languages : Provider := fun locale =>
  (Family.ofLanguage? locale).map (·.rule locale)

end MessageCatalog.Plural
