/-
Locale identifiers such as `en`, `en-US` and `zh_Hant_TW`.

* `Id.parse`: a language and subtags, separated by hyphens or underscores;
* `Id.text`: the text of an identifier, which keeps the separators;
* `Id.lineage`: an identifier and its ancestors, each without the last subtag of the one before.
-/
import MessageCatalog.Text.Blank

namespace MessageCatalog.Locale

/-- A locale identifier: a language, and subtags with the separators before them. -/
structure Id where
  language : String
  subtags : List (Char × String)
deriving DecidableEq

/-- What can be wrong with the text of an identifier. -/
inductive Fault where
  | empty
  | emptySubtag
  | language
  | subtag
deriving DecidableEq

/-- The wording of a fault. -/
def Fault.message : Fault → String
  | .empty => "invalid input: locale is empty"
  | .emptySubtag => "invalid input: locale has empty subtag"
  | .language => "invalid input: invalid language subtag"
  | .subtag => "invalid input: invalid locale subtag"

/-- The characters between subtags. -/
def isSeparator (c : Char) : Bool :=
  c == '-' || c == '_'

/-- Two to eight ASCII letters. -/
def isLanguage (cs : List Char) : Bool :=
  cs.all Char.isAlpha && 2 ≤ cs.length && cs.length ≤ 8

/-- At most eight ASCII letters and digits. -/
def isSubtag (cs : List Char) : Bool :=
  cs.all Char.isAlphanum && cs.length ≤ 8

namespace Id

/-- Reads an identifier; white space at the ends of its text does not count. -/
def parse (text : String) : Except Fault Id :=
  let cs := Text.trimChars text.toList
  let (language, subtags) := Text.cut isSeparator cs
  if cs.isEmpty then .error .empty
  else if language.isEmpty || subtags.any (·.2.isEmpty) then .error .emptySubtag
  else if !isLanguage language then .error .language
  else if !subtags.all (isSubtag ·.2) then .error .subtag
  else .ok ⟨String.ofList language, subtags.map fun (c, subtag) => (c, String.ofList subtag)⟩

/-- The text of an identifier. -/
def text (id : Id) : String :=
  id.subtags.foldl (fun text (c, subtag) => text.push c ++ subtag) id.language

/-- The language and the subtags, without the separators. -/
def parts (id : Id) : List String :=
  id.language :: id.subtags.map (·.2)

/-- An identifier and its ancestors, down to the bare language. -/
def lineage (id : Id) : List Id :=
  (List.range (id.subtags.length + 1)).map fun dropped =>
    { id with subtags := id.subtags.take (id.subtags.length - dropped) }

end Id

example : (Id.parse " zh_Hant-TW ").toOption.map (fun id => id.lineage.map Id.text) =
    some ["zh_Hant-TW", "zh_Hant", "zh"] := by decide +kernel

example : (Id.parse "en--US") = .error .emptySubtag := by rfl

end MessageCatalog.Locale
