/-
Quoted text, as error messages show the text that they complain about.

* `quote`: a string between double quotes, with a backslash before a quote or a backslash and
  an escape for each character that shows nothing.
-/

namespace MessageCatalog.Text

/-- The characters that show nothing on their own: controls, format marks, private characters,
and every space and separator other than the plain space. -/
def isHidden (c : Char) : Bool :=
  let n := c.toNat
  n < 0x20 || (0x7F ≤ n && n ≤ 0xA0) || n == 0xAD || (0x600 ≤ n && n ≤ 0x605) || n == 0x61C ||
    n == 0x6DD || n == 0x70F || n == 0x1680 || n == 0x180E || (0x2000 ≤ n && n ≤ 0x200F) ||
    (0x2028 ≤ n && n ≤ 0x202F) || (0x205F ≤ n && n ≤ 0x206F) || n == 0x3000 ||
    (0xE000 ≤ n && n ≤ 0xF8FF) || n == 0xFEFF || (0xFFF0 ≤ n && n ≤ 0xFFFB) ||
    n == 0xFFFE || n == 0xFFFF || 0xE0000 ≤ n

/-- A character inside quotes. A hidden one is written by its code in lower case hexadecimal
digits. -/
def quoteChar (c : Char) : List Char :=
  if c == '"' then ['\\', '"']
  else if c == '\\' then ['\\', '\\']
  else if c == '\n' then ['\\', 'n']
  else if c == '\t' then ['\\', 't']
  else if c == '\r' then ['\\', 'r']
  else if c.toNat == 0 then ['\\', '0']
  else if isHidden c then '\\' :: 'u' :: '{' :: (Nat.toDigits 16 c.toNat ++ ['}'])
  else [c]

/-- A string between double quotes, with its special characters escaped. -/
def quote (s : String) : String :=
  String.ofList ('"' :: (s.toList.flatMap quoteChar ++ ['"']))

/-- A list of strings, each quoted, between square brackets. -/
def quoteList (ss : List String) : String :=
  "[" ++ String.intercalate ", " (ss.map quote) ++ "]"

example : quote "a\"b\\\n\x01" = "\"a\\\"b\\\\\\n\\u\x7b1\x7d\"" := by decide +kernel

example : quoteList ["one", "other"] = "[\"one\", \"other\"]" := by decide +kernel

end MessageCatalog.Text
