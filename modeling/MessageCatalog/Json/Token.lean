/-
The tokens of a JSON text.

* `Token`: punctuation, strings with their escapes resolved, and the other scalars;
* `OpenText`: the part of a string that has been read;
* `lex`: the tokens of a text, or nothing if some part of it is no token.
-/
import MessageCatalog.Json.Value
import MessageCatalog.Number.Decimal
import MessageCatalog.Text.Hexadecimal

namespace MessageCatalog.Json

/-- A token of a JSON text. A string or a number may have no value. -/
inductive Token where
  | leftBracket
  | rightBracket
  | leftBrace
  | rightBrace
  | colon
  | comma
  | text (value : Option String)
  | scalar (value : Option Json)

/-! ### Characters -/

/-- JSON's white space: space, tab, line feed, carriage return. -/
def isSpace (c : Char) : Bool :=
  c == ' ' || c == '\t' || c == '\n' || c == '\r'

/-- The characters of numbers and of the words `null`, `true` and `false`. -/
def isWordChar (c : Char) : Bool :=
  c.isAlphanum || c == '+' || c == '-' || c == '.'

/-- The token that a punctuation character is. -/
def punctuation? : Char → Option Token
  | '[' => some .leftBracket
  | ']' => some .rightBracket
  | '{' => some .leftBrace
  | '}' => some .rightBrace
  | ':' => some .colon
  | ',' => some .comma
  | _ => none

/-- The character that a one-letter escape stands for. -/
def shortEscape? : Char → Option Char
  | '"' => some '"'
  | '\\' => some '\\'
  | '/' => some '/'
  | 'b' => some '\x08'
  | 'f' => some '\x0c'
  | 'n' => some '\n'
  | 'r' => some '\r'
  | 't' => some '\t'
  | _ => none

/-- The code unit that four hexadecimal digits spell. -/
def codeUnit? (a b c d : Char) : Option Nat :=
  Text.hexValue? [a, b, c, d]

/-- The first half of a surrogate pair. -/
def isHighSurrogate (unit : Nat) : Bool := 0xD800 ≤ unit && unit < 0xDC00

/-- The second half of a surrogate pair. -/
def isLowSurrogate (unit : Nat) : Bool := 0xDC00 ≤ unit && unit < 0xE000

/-! ### Strings and words -/

/-- The characters of a string that have been read, and the first half of a surrogate pair that
waits for its second half. -/
structure OpenText where
  text : String
  high : Option Nat

/-- Nothing of a string. -/
def OpenText.start : OpenText := ⟨"", none⟩

/-- Takes a character on. It may not stand between the halves of a pair. -/
def OpenText.push? (before : OpenText) (c : Char) : Option OpenText :=
  match before.high with
  | none => some ⟨before.text.push c, none⟩
  | some _ => none

/-- Takes an escaped code unit on. Half of a pair without its partner has no meaning. -/
def OpenText.pushUnit? (before : OpenText) (unit : Nat) : Option OpenText :=
  match before.high with
  | some high =>
    if isLowSurrogate unit then
      some ⟨before.text.push (Char.ofNat (0x10000 + (high - 0xD800) * 0x400 + (unit - 0xDC00))),
        none⟩
    else none
  | none =>
    if isHighSurrogate unit then some ⟨before.text, some unit⟩
    else if isLowSurrogate unit then none
    else some ⟨before.text.push (Char.ofNat unit), none⟩

/-- The string that ends here. -/
def OpenText.text? (before : OpenText) : Option String :=
  match before.high with
  | none => some before.text
  | some _ => none

/-- The value of a number, if a float can be near to it. An integer zero with a minus sign is the
float, as integers have no such zero. -/
def numberValue? (literal : Number.Literal) : Option Json :=
  let value := literal.decimal.toFloat
  if !Number.isFinite value then none
  else if literal.isInteger && !(literal.sign == some '-' && Number.isZero value) then
    let magnitude := (Number.ofDigits? literal.whole).getD 0
    some (.integer (if literal.sign == some '-' then -(magnitude : Int) else magnitude))
  else some (.real value)

/-- The token that a word is: a constant or a number. -/
def ofWord? (word : List Char) : Option Token :=
  if word = ['n', 'u', 'l', 'l'] then some (.scalar (some .null))
  else if word = ['t', 'r', 'u', 'e'] then some (.scalar (some (.bool true)))
  else if word = ['f', 'a', 'l', 's', 'e'] then some (.scalar (some (.bool false)))
  else
    match Number.Literal.scan? word with
    | none => none
    | some literal => if literal.isJson then some (.scalar (numberValue? literal)) else none

/-! ### Tokens -/

mutual

/-- The tokens of a text. -/
def lex : List Char → Option (List Token)
  | [] => some []
  | c :: cs =>
    if isSpace c then lex cs
    else if c == '"' then lexText (some .start) cs
    else if isWordChar c then lexWord [c] cs
    else
      match punctuation? c with
      | some token => (lex cs).map (token :: ·)
      | none => none

/-- The tokens of a text that starts inside a string. Of the string a part has been read, which
may already be without a value. -/
def lexText (before : Option OpenText) : List Char → Option (List Token)
  | [] => none
  | '\\' :: 'u' :: a :: b :: c :: d :: cs =>
    match codeUnit? a b c d with
    | some unit => lexText (before.bind (·.pushUnit? unit)) cs
    | none => none
  | '\\' :: e :: cs =>
    match shortEscape? e with
    | some c => lexText (before.bind (·.push? c)) cs
    | none => none
  | c :: cs =>
    if c == '"' then (lex cs).map (.text (before.bind OpenText.text?) :: ·)
    else if c == '\\' || c.toNat < 0x20 then none
    else lexText (before.bind (·.push? c)) cs

/-- The tokens of a text that starts inside a word, of which a part has been read backwards. -/
def lexWord (word : List Char) : List Char → Option (List Token)
  | [] => (ofWord? word.reverse).map ([·])
  | c :: cs =>
    if isWordChar c then lexWord (c :: word) cs
    else
      match ofWord? word.reverse with
      | none => none
      | some scalar =>
        if isSpace c then (lex cs).map (scalar :: ·)
        else
          match punctuation? c with
          | some token => (lex cs).map fun rest => scalar :: token :: rest
          | none => none

end

end MessageCatalog.Json
