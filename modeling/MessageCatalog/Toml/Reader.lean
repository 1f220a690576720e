/-
Reading TOML.

* `key?`: a dotted key;
* `value?`: the value at the start of a row of tokens, and the tokens after it;
* `statements?`: the statements of a document, each on a line of its own;
* `build?`: the table that statements make;
* `parse?`: the table of a text.
-/
import MessageCatalog.Toml.Scalar
import MessageCatalog.Toml.Token

namespace MessageCatalog.Toml

/-! ### Blanks and words -/

/-- Whether a token is a character of a kind. -/
def Token.isChar (kind : Char → Bool) : Token → Bool
  | .char c => kind c
  | _ => false

/-- Tokens without the blanks in front. -/
def skipBlanks (tokens : List Token) : List Token :=
  tokens.dropWhile (Token.isChar isBlank)

/-- Tokens without the blanks and line ends in front. -/
def skipLines (tokens : List Token) : List Token :=
  tokens.dropWhile (Token.isChar fun c => isBlank c || c == '\n')

/-- The characters of numbers, dates and the like. -/
def isWordChar (c : Char) : Bool :=
  c.isAlphanum || c == '_' || c == '-' || c == '+' || c == '.' || c == ':'

/-- Takes the longest word off a row of tokens. -/
def takeWord : List Token → List Char × List Token
  | .char c :: rest =>
    if isWordChar c then
      let (word, rest) := takeWord rest
      (c :: word, rest)
    else ([], .char c :: rest)
  | rest => ([], rest)

/-! ### Keys -/

/-- The characters of keys without quotation marks. -/
def isKeyChar (c : Char) : Bool :=
  c.isAlphanum || c == '_' || c == '-'

/-- The part of a key that tokens spell: one string, or characters that need no quotation marks. -/
def part? : List Token → Option String
  | [] => none
  | [.text s] => some s
  | tokens =>
    let (word, rest) := takeWord tokens
    if rest.isEmpty && word.all isKeyChar then some (String.ofList word) else none

/-- A row of tokens without the blanks at its two ends. -/
def trimBlanks (tokens : List Token) : List Token :=
  (skipBlanks (skipBlanks tokens).reverse).reverse

/-- The most parts that a key has. -/
def partLimit : Nat := 79

/-- The key that tokens spell: the path of the table that it lies in, and its last part. -/
def key? (tokens : List Token) : Option (List String × String) := do
  let parts ← (Text.pieces (Token.isChar (· == '.')) tokens).mapM fun piece => part? (trimBlanks piece)
  let last ← parts.getLast?
  if parts.length ≤ partLimit then some (parts.dropLast, last) else none

/-- Splits tokens at the first one that is a given character. -/
def splitAt? (c : Char) (tokens : List Token) : Option (List Token × List Token) :=
  match tokens.dropWhile fun token => token != .char c with
  | [] => none
  | _ :: rest => some (tokens.takeWhile fun token => token != .char c, rest)

/-! ### Values -/

/-- The most arrays and tables between braces that a value has inside each other. -/
def nestingLimit : Nat := 79

/-- A value that is one word. A date may be followed by a space and a time of day. -/
def wordValue? (tokens : List Token) : Option (Value × List Token) :=
  let (word, rest) := takeWord tokens
  match isDate word, rest with
  | true, .char ' ' :: afterSpace =>
    let (time, afterTime) := takeWord afterSpace
    if isZonedTime time then some (.moment (String.ofList (word ++ ' ' :: time)), afterTime)
    else some (.moment (String.ofList word), rest)
  | _, _ => (scalar? word).map fun value => (value, rest)

mutual

/-- The value at the start of a row of tokens, with at most `depth` levels of nesting. The first
number bounds the steps that are made. -/
def value? : Nat → Nat → List Token → Option (Value × List Token)
  | 0, _, _ => none
  | fuel + 1, depth, tokens =>
    match tokens with
    | .text s :: rest => some (.text s, rest)
    | .lines s :: rest => some (.text s, rest)
    | .char '[' :: rest =>
      match depth with
      | 0 => none
      | depth + 1 => items? fuel depth [] (skipLines rest)
    | .char '{' :: rest =>
      match depth with
      | 0 => none
      | depth + 1 =>
        match skipBlanks rest with
        | .char '}' :: rest => some (.table .inline [], rest)
        | rest => pairs? fuel depth [] rest
    | tokens => wordValue? tokens

/-- The items of an array, read onto the ones before them. A comma may stand after the last. -/
def items? : Nat → Nat → List Value → List Token → Option (Value × List Token)
  | 0, _, _, _ => none
  | fuel + 1, depth, before, tokens =>
    match tokens with
    | .char ']' :: rest => some (.array before.reverse, rest)
    | tokens => do
      let (item, rest) ← value? fuel depth tokens
      match skipLines rest with
      | .char ',' :: rest => items? fuel depth (item :: before) (skipLines rest)
      | .char ']' :: rest => some (.array (item :: before).reverse, rest)
      | _ => none

/-- The members of a table between braces, read onto the ones before them. -/
def pairs? : Nat → Nat → Table → List Token → Option (Value × List Token)
  | 0, _, _, _ => none
  | fuel + 1, depth, before, tokens => do
    let (keyTokens, rest) ← splitAt? '=' tokens
    let (path, key) ← key? keyTokens
    let (value, rest) ← value? fuel depth (skipBlanks rest)
    let table ← before.assign? path key value
    match skipBlanks rest with
    | .char ',' :: rest => pairs? fuel depth table rest
    | .char '}' :: rest => some (.table .inline table, rest)
    | _ => none

end

/-! ### Statements -/

/-- A line of a document. -/
inductive Statement where
  /-- A key and its value. -/
  | assign (path : List String) (key : String) (value : Value)
  /-- The header of a table. -/
  | header (path : List String) (key : String)
  /-- The header of an item of an array of tables. -/
  | element (path : List String) (key : String)

/-- The tokens after the end of a line, if nothing but blanks comes before it. -/
def endOfLine? (tokens : List Token) : Option (List Token) :=
  match skipBlanks tokens with
  | [] => some []
  | .char '\n' :: rest => some rest
  | _ => none

/-- The statement at the start of a row of tokens. -/
def statement? (tokens : List Token) : Option (Statement × List Token) :=
  match tokens with
  | .char '[' :: .char '[' :: rest => do
    let (keyTokens, rest) ← splitAt? ']' rest
    let (path, key) ← key? keyTokens
    match rest with
    | .char ']' :: rest => some (.element path key, rest)
    | _ => none
  | .char '[' :: rest => do
    let (keyTokens, rest) ← splitAt? ']' rest
    let (path, key) ← key? keyTokens
    return (.header path key, rest)
  | tokens => do
    let (keyTokens, rest) ← splitAt? '=' tokens
    let (path, key) ← key? keyTokens
    let (value, rest) ← value? (2 * rest.length + 2) nestingLimit (skipBlanks rest)
    return (.assign path key value, rest)

/-- The statements of a document. The number bounds the statements that are read. -/
def statementsUpTo? : Nat → List Token → Option (List Statement)
  | 0, _ => none
  | fuel + 1, tokens =>
    match skipLines tokens with
    | [] => some []
    | tokens => do
      let (statement, rest) ← statement? tokens
      let rest ← endOfLine? rest
      let others ← statementsUpTo? fuel rest
      return statement :: others

/-- The statements of a document; each of them takes up a token at least. -/
def statements? (tokens : List Token) : Option (List Statement) :=
  statementsUpTo? (tokens.length + 1) tokens

/-! ### Documents -/

/-- The table of a document, and the path of the table that keys are put into. -/
structure Document where
  header : List String
  root : Table

/-- Carries a statement out. -/
def Document.add? (document : Document) : Statement → Option Document
  | .assign path key value => do
    let root ← Table.within? (·.assign? path key value) document.header document.root
    return { document with root := root }
  | .header path key => do
    let root ← Table.within? (Table.define? key) path document.root
    return ⟨path ++ [key], root⟩
  | .element path key => do
    let root ← Table.within? (Table.append? key) path document.root
    return ⟨path ++ [key], root⟩

/-- The table that statements make. -/
def build? (statements : List Statement) : Option Table :=
  (statements.foldlM Document.add? ⟨[], []⟩).map Document.root

/-- A text without the mark of byte order that may stand in front of it. -/
def withoutMark : List Char → List Char
  | '\uFEFF' :: rest => rest
  | cs => cs

/-- The table of a text. -/
def parse? (text : String) : Option Table := do
  let tokens ← lex (withoutMark text.toList)
  build? (← statements? tokens)

end MessageCatalog.Toml
