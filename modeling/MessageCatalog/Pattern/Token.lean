/-
The tokens of a pattern.

Braces switch between literal text and the words of a block: the text of a pattern is literal, a
block inside it holds words, a block inside that is literal again. So the number of open braces
tells how a character is read. Main definitions:

* `Token`: a piece of literal text, a word, or one punctuation character, with its span;
* `lex`: the tokens of a text, which fails only if its braces are not balanced.
-/
import MessageCatalog.Pattern.Escape
import MessageCatalog.Pattern.Span
import MessageCatalog.Text.Blank

namespace MessageCatalog.Pattern

/-- What a token is. -/
inductive Symbol where
  /-- Literal text, with its escapes resolved. -/
  | text (value : String)
  | hash
  | leftBrace
  | rightBrace
  | comma
  | word (value : String)
deriving DecidableEq

/-- A symbol and its place. -/
structure Token where
  symbol : Symbol
  span : Span
deriving DecidableEq

/-- A piece of literal text or a word, of which a part has been read. -/
structure Run where
  start : Cursor
  text : String

/-- Takes one more character into a run; a run starts where its first character is read. -/
def Run.push (run : Option Run) (here : Cursor) (c : Char) : Run :=
  match run with
  | none => ⟨here, String.singleton c⟩
  | some run => { run with text := run.text.push c }

/-- Whether the inside of so many open braces is literal text. -/
def isLiteral (depth : Nat) : Bool :=
  depth % 2 == 0

/-- Ends a run, if there is one, in front of the tokens that follow it. -/
def Run.flush (depth : Nat) (run : Option Run) (here : Cursor) (rest : List Token) : List Token :=
  match run with
  | none => rest
  | some run =>
    let symbol := if isLiteral depth then Symbol.text run.text else .word run.text
    ⟨symbol, run.start.to here.offset⟩ :: rest

/-- Ends a run at a punctuation character of one byte. -/
def Run.stop (depth : Nat) (run : Option Run) (here : Cursor) (symbol : Symbol)
    (rest : Except ParseError (List Token)) : Except ParseError (List Token) :=
  rest.map fun tokens => Run.flush depth run here (⟨symbol, here.to (here.offset + 1)⟩ :: tokens)

/-- The tokens of a text inside so many open braces, with the run that has been read up to here. -/
def lexFrom (depth : Nat) (run : Option Run) (here : Cursor) :
    List Char → Except ParseError (List Token)
  | [] =>
    if depth = 0 then .ok (Run.flush depth run here [])
    else .error ⟨.unclosedBrace, here.to (here.offset + 1)⟩
  | c :: cs =>
    let next := here.advance c
    if c == '{' then Run.stop depth run here .leftBrace (lexFrom (depth + 1) none next cs)
    else if c == '}' then
      match depth with
      | 0 => .error ⟨.unbalancedBrace, here.to (here.offset + 1)⟩
      | outer + 1 => Run.stop depth run here .rightBrace (lexFrom outer none next cs)
    else if isLiteral depth then
      if c == '#' then Run.stop depth run here .hash (lexFrom depth none next cs)
      else
        match c, cs with
        | '\\', e :: rest =>
          if isEscapable e then lexFrom depth (some (Run.push run here e)) (next.advance e) rest
          else lexFrom depth (some (Run.push run here c)) next (e :: rest)
        | c, cs => lexFrom depth (some (Run.push run here c)) next cs
    else if c == ',' then Run.stop depth run here .comma (lexFrom depth none next cs)
    else if Text.isSpace c then (lexFrom depth none next cs).map (Run.flush depth run here)
    else lexFrom depth (some (Run.push run here c)) next cs

/-- The tokens of a pattern. -/
def lex (text : String) : Except ParseError (List Token) :=
  lexFrom 0 none .start text.toList

end MessageCatalog.Pattern
