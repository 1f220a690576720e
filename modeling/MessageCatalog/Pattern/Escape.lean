/-
Escapes in the literal text of a pattern.

A backslash in front of a backslash, a number sign or a brace makes that character literal; in
front of any other character it stands for itself.

* `escape`: literal text as it is written in a pattern;
* `unescape`: the literal text that is written.
-/

namespace MessageCatalog.Pattern

/-- The characters with a meaning in literal text. -/
def isEscapable (c : Char) : Bool :=
  c == '\\' || c == '#' || c == '{' || c == '}'

/-- Puts a backslash in front of every character with a meaning. -/
def escapeChars : List Char → List Char
  | [] => []
  | c :: cs => if isEscapable c then '\\' :: c :: escapeChars cs else c :: escapeChars cs

/-- Takes the backslashes away that stand in front of a character with a meaning. -/
def unescapeChars : List Char → List Char
  | [] => []
  | '\\' :: c :: cs =>
    if isEscapable c then c :: unescapeChars cs else '\\' :: unescapeChars (c :: cs)
  | c :: cs => c :: unescapeChars cs

/-- Literal text as it is written in a pattern. -/
def escape (text : String) : String :=
  String.ofList (escapeChars text.toList)

/-- The literal text that is written. -/
def unescape (text : String) : String :=
  String.ofList (unescapeChars text.toList)

end MessageCatalog.Pattern
