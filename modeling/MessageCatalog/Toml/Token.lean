/-
The tokens of a TOML text.

* `Token`: a string with its escapes resolved, or any other character on its own;
* `lex`: the tokens of a text without its comments, or nothing if a string or a comment is wrong.
-/
import MessageCatalog.Text.Hexadecimal

namespace MessageCatalog.Toml

/-- A token of a TOML text. -/
inductive Token where
  /-- A string between single quotation marks. -/
  | text (value : String)
  /-- A string between triple quotation marks. -/
  | lines (value : String)
  /-- A character outside strings and comments; the end of a line is a line feed. -/
  | char (c : Char)
deriving DecidableEq

/-! ### Characters -/

/-- The characters that strings and comments may hold: all but the controls, of which the tab may
be used. -/
def isPlain (c : Char) : Bool :=
  c == '\t' || (0x20 ≤ c.toNat && c.toNat != 0x7F)

/-- Spaces and tabs. -/
def isBlank (c : Char) : Bool :=
  c == ' ' || c == '\t'

/-- The character that a one-letter escape stands for. -/
def shortEscape? : Char → Option Char
  | 'b' => some '\x08'
  | 't' => some '\t'
  | 'n' => some '\n'
  | 'f' => some '\x0c'
  | 'r' => some '\r'
  | '"' => some '"'
  | '\\' => some '\\'
  | _ => none

/-- The character with a code in hexadecimal digits, which may not be a surrogate. -/
def codeEscape? (digits : List Char) : Option Char :=
  match Text.hexValue? digits with
  | some n => if n.isValidChar then some (Char.ofNat n) else none
  | none => none

/-! ### Tokens -/

/-- A backslash at the end of a line of a string takes the line end away and all blanks and line
ends that follow. -/
inductive Folding where
  /-- No such backslash is near. -/
  | off
  /-- After the backslash, on its line. -/
  | pending
  /-- On a later line, with blanks only since then. -/
  | active

mutual

/-- The tokens of a text. -/
def lex : List Char → Option (List Token)
  | [] => some []
  | '\r' :: '\n' :: cs => (lex cs).map (.char '\n' :: ·)
  | '#' :: cs => lexComment cs
  | '"' :: '"' :: '"' :: '\r' :: '\n' :: cs => lexLines "" .off cs
  | '"' :: '"' :: '"' :: '\n' :: cs => lexLines "" .off cs
  | '"' :: '"' :: '"' :: cs => lexLines "" .off cs
  | '"' :: cs => lexText "" cs
  | '\'' :: '\'' :: '\'' :: '\r' :: '\n' :: cs => lexRawLines "" cs
  | '\'' :: '\'' :: '\'' :: '\n' :: cs => lexRawLines "" cs
  | '\'' :: '\'' :: '\'' :: cs => lexRawLines "" cs
  | '\'' :: cs => lexRawText "" cs
  | c :: cs => (lex cs).map (.char c :: ·)

/-- The tokens of a text that starts inside a comment. -/
def lexComment : List Char → Option (List Token)
  | [] => some []
  | '\r' :: '\n' :: cs => (lex cs).map (.char '\n' :: ·)
  | '\n' :: cs => (lex cs).map (.char '\n' :: ·)
  | c :: cs => if isPlain c then lexComment cs else none

/-- The tokens of a text that starts inside a string, of which a part has been read. -/
def lexText (text : String) : List Char → Option (List Token)
  | [] => none
  | '"' :: cs => (lex cs).map (.text text :: ·)
  | '\\' :: 'u' :: a :: b :: c :: d :: cs =>
    match codeEscape? [a, b, c, d] with
    | some e => lexText (text.push e) cs
    | none => none
  | '\\' :: 'U' :: a :: b :: c :: d :: e :: f :: g :: h :: cs =>
    match codeEscape? [a, b, c, d, e, f, g, h] with
    | some e => lexText (text.push e) cs
    | none => none
  | '\\' :: c :: cs =>
    match shortEscape? c with
    | some e => lexText (text.push e) cs
    | none => none
  | c :: cs => if isPlain c && c != '\\' then lexText (text.push c) cs else none

/-- The tokens of a text that starts inside a string without escapes. -/
def lexRawText (text : String) : List Char → Option (List Token)
  | [] => none
  | '\'' :: cs => (lex cs).map (.text text :: ·)
  | c :: cs => if isPlain c then lexRawText (text.push c) cs else none

/-- The tokens of a text that starts inside a string of several lines. Its last characters may be
one or two quotation marks. -/
def lexLines (text : String) : Folding → List Char → Option (List Token)
  | _, [] => none
  | .pending, '\r' :: '\n' :: cs => lexLines text .active cs
  | .pending, '\n' :: cs => lexLines text .active cs
  | .pending, c :: cs => if isBlank c then lexLines text .pending cs else none
  | .active, '\r' :: '\n' :: cs => lexLines text .active cs
  | .active, '\n' :: cs => lexLines text .active cs
  | .active, ' ' :: cs => lexLines text .active cs
  | .active, '\t' :: cs => lexLines text .active cs
  | _, '"' :: '"' :: '"' :: '"' :: '"' :: cs => (lex cs).map (.lines (text ++ "\"\"") :: ·)
  | _, '"' :: '"' :: '"' :: '"' :: cs => (lex cs).map (.lines (text.push '"') :: ·)
  | _, '"' :: '"' :: '"' :: cs => (lex cs).map (.lines text :: ·)
  | _, '\r' :: '\n' :: cs => lexLines (text.push '\n') .off cs
  | _, '\n' :: cs => lexLines (text.push '\n') .off cs
  | _, '\\' :: 'u' :: a :: b :: c :: d :: cs =>
    match codeEscape? [a, b, c, d] with
    | some e => lexLines (text.push e) .off cs
    | none => none
  | _, '\\' :: 'U' :: a :: b :: c :: d :: e :: f :: g :: h :: cs =>
    match codeEscape? [a, b, c, d, e, f, g, h] with
    | some e => lexLines (text.push e) .off cs
    | none => none
  | _, '\\' :: '\r' :: '\n' :: cs => lexLines text .active cs
  | _, '\\' :: '\n' :: cs => lexLines text .active cs
  | _, '\\' :: c :: cs =>
    match shortEscape? c with
    | some e => lexLines (text.push e) .off cs
    | none => if isBlank c then lexLines text .pending cs else none
  | _, c :: cs => if isPlain c && c != '\\' then lexLines (text.push c) .off cs else none

/-- The tokens of a text that starts inside a string of several lines without escapes. -/
def lexRawLines (text : String) : List Char → Option (List Token)
  | [] => none
  | '\'' :: '\'' :: '\'' :: '\'' :: '\'' :: cs => (lex cs).map (.lines (text ++ "''") :: ·)
  | '\'' :: '\'' :: '\'' :: '\'' :: cs => (lex cs).map (.lines (text.push '\'') :: ·)
  | '\'' :: '\'' :: '\'' :: cs => (lex cs).map (.lines text :: ·)
  | '\r' :: '\n' :: cs => lexRawLines (text.push '\n') cs
  | c :: cs => if isPlain c || c == '\n' then lexRawLines (text.push c) cs else none

end

end MessageCatalog.Toml
