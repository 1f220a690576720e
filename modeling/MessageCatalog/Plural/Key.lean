/-
The keys of plural cases.

* `Key`: an exact number or the label of a category;
* `Key.ofText?`, `Key.text`: reading and writing of keys.
-/
import MessageCatalog.Number.Integer

namespace MessageCatalog.Plural

/-- The key of a plural case. -/
inductive Key where
  /-- Stands for one number only. -/
  | exact (number : Int)
  /-- Stands for the numbers of a category. -/
  | label (text : String)
deriving DecidableEq

namespace Key

/-- Reads a key: an equals sign announces an exact number in the signed 64-bit range, and any
other text is a label unless it is empty. -/
def ofText? (text : String) : Option Key :=
  match text.toList with
  | [] => none
  | '=' :: number => (Number.int64? number).map .exact
  | _ => some (.label text)

/-- The text of a key. -/
def text : Key → String
  | .exact number => String.ofList ('=' :: Number.intText number)
  | .label text => text

/-- Whether a key is the label that takes every number. -/
def isOther : Key → Bool
  | .label text => text == "other"
  | .exact _ => false

end Key

example : Key.ofText? "=+01" = some (.exact 1) := by decide +kernel

example : Key.ofText? "=x" = none := by decide +kernel

example : (Key.exact (-2)).text = "=-2" := by decide +kernel

end MessageCatalog.Plural
