/-
Writing JSON.

* `escapeChar`, `quoted`: a string in quotes, with only the escapes that JSON needs;
* `compact`: a value on one line without blanks;
* `pretty`: a value over several lines, two blanks to a level.
-/
import MessageCatalog.Json.Value
import MessageCatalog.Number.Layout
import MessageCatalog.Text.Hexadecimal

namespace MessageCatalog.Json

/-! ### Scalars -/

/-- A character inside a string: the short escapes where there are some, a code for the other
control characters below the space, and every other character as it is. -/
def escapeChar (c : Char) : List Char :=
  if c == '"' then ['\\', '"']
  else if c == '\\' then ['\\', '\\']
  else if c == '\x08' then ['\\', 'b']
  else if c == '\x0c' then ['\\', 'f']
  else if c == '\n' then ['\\', 'n']
  else if c == '\r' then ['\\', 'r']
  else if c == '\t' then ['\\', 't']
  else if c.toNat < 0x20 then
    ['\\', 'u', '0', '0', Text.hexChar (c.toNat / 16), Text.hexChar (c.toNat % 16)]
  else [c]

/-- A string in quotes. -/
def quoted (text : String) : List Char :=
  '"' :: (text.toList.flatMap escapeChar ++ ['"'])

/-- A float that JSON can hold; the others are null. -/
def realText (x : Float) : List Char :=
  if Number.isFinite x then Number.Layout.stored.text x else ['n', 'u', 'l', 'l']

/-! ### Values -/

mutual

/-- A value on one line without blanks. -/
def compact : Json → List Char
  | .null => ['n', 'u', 'l', 'l']
  | .bool true => ['t', 'r', 'u', 'e']
  | .bool false => ['f', 'a', 'l', 's', 'e']
  | .integer n => Number.intText n
  | .real x => realText x
  | .string text => quoted text
  | .array items => '[' :: (compactItems items ++ [']'])
  | .object members => '{' :: (compactMembers members ++ ['}'])

/-- The items of an array, with commas between them. -/
def compactItems : List Json → List Char
  | [] => []
  | [item] => item.compact
  | item :: rest => item.compact ++ ',' :: compactItems rest

/-- The members of an object, with commas between them. -/
def compactMembers : List (String × Json) → List Char
  | [] => []
  | [(key, value)] => quoted key ++ ':' :: value.compact
  | (key, value) :: rest => quoted key ++ ':' :: (value.compact ++ ',' :: compactMembers rest)

end

/-- The start of a line at a level. -/
def newline (level : Nat) : List Char :=
  '\n' :: List.replicate (2 * level) ' '

mutual

/-- A value over several lines, starting at a level. Empty arrays and objects stay closed. -/
def prettyAt (level : Nat) : Json → List Char
  | .null => ['n', 'u', 'l', 'l']
  | .bool true => ['t', 'r', 'u', 'e']
  | .bool false => ['f', 'a', 'l', 's', 'e']
  | .integer n => Number.intText n
  | .real x => realText x
  | .string text => quoted text
  | .array [] => ['[', ']']
  | .array items => '[' :: (prettyItems (level + 1) items ++ newline level ++ [']'])
  | .object [] => ['{', '}']
  | .object members => '{' :: (prettyMembers (level + 1) members ++ newline level ++ ['}'])

/-- The items of an array, each on a line of its own. -/
def prettyItems (level : Nat) : List Json → List Char
  | [] => []
  | [item] => newline level ++ item.prettyAt level
  | item :: rest => newline level ++ (item.prettyAt level ++ ',' :: prettyItems level rest)

/-- The members of an object, each on a line of its own. -/
def prettyMembers (level : Nat) : List (String × Json) → List Char
  | [] => []
  | [(key, value)] => newline level ++ (quoted key ++ ':' :: ' ' :: value.prettyAt level)
  | (key, value) :: rest =>
    newline level ++
      (quoted key ++ ':' :: ' ' :: (value.prettyAt level ++ ',' :: prettyMembers level rest))

end

/-- A value over several lines, two blanks to a level. -/
def pretty (j : Json) : String :=
  String.ofList (j.prettyAt 0)

end MessageCatalog.Json
