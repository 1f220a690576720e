/-
From tokens to elements.

The parser goes through the tokens once. Its state holds the elements of the message that it is
in, the place inside a block, and the statements around it whose cases are open. Main definitions:

* `State.step`: what one token does;
* `Choice.close`: the checks on a statement when its closing brace is read: its keys are checked
  in the order in which they are written, and one of them has to be `other`;
* `parse`: the elements of a text.
-/
import MessageCatalog.Pattern.Element
import MessageCatalog.Pattern.Token

namespace MessageCatalog.Pattern

open Formatting (Style)
open Plural (Key Kind)

/-! ### Statements with cases -/

/-- What a statement chooses by. -/
inductive Selector where
  | plural (kind : Kind) (offset : Nat)
  | select
deriving DecidableEq

/-- A statement whose cases are being read: its opening brace, its argument, and the cases so far
with their keys as they are written, the last one first. -/
structure Choice where
  brace : Span
  arg : String
  selector : Selector
  cases : List (Case String Span (Element Span))

/-- Whether a statement gives number signs a meaning. -/
def Choice.isPlural (choice : Choice) : Bool :=
  match choice.selector with
  | .plural .. => true
  | .select => false

/-- Reads the keys of plural cases. No two of them may be written alike in normal form. -/
def pluralCases (seen : List String) :
    List (Case String Span (Element Span)) →
      Except ParseError (List (Case Key Span (Element Span)))
  | [] => .ok []
  | ⟨text, body, span⟩ :: rest =>
    match Key.ofText? text with
    | none => .error ⟨.invalidKey, span⟩
    | some key =>
      if seen.contains key.text then .error ⟨.duplicateKey, span⟩
      else (pluralCases (key.text :: seen) rest).map (⟨key, body, span⟩ :: ·)

/-- Checks that no two select cases have one key. -/
def selectCases (seen : List String) :
    List (Case String Span (Element Span)) →
      Except ParseError (List (Case String Span (Element Span)))
  | [] => .ok []
  | ⟨key, body, span⟩ :: rest =>
    if seen.contains key then .error ⟨.duplicateKey, span⟩
    else (selectCases (key :: seen) rest).map (⟨key, body, span⟩ :: ·)

/-- The statement that a closing brace completes. -/
def Choice.close (choice : Choice) (brace : Span) : Except ParseError (Element Span) :=
  let span := choice.brace.merge brace
  match choice.selector with
  | .plural kind offset => do
    let cases ← pluralCases [] choice.cases.reverse
    if cases.any (·.key.isOther) then return .plural choice.arg kind offset cases span
    else throw ⟨.missingOther, span⟩
  | .select => do
    let cases ← selectCases [] choice.cases.reverse
    if cases.any (·.key == "other") then return .select choice.arg cases span
    else throw ⟨.missingOther, span⟩

/-! ### States -/

/-- The place of the parser inside the innermost message or block. -/
inductive Place where
  /-- In a message. -/
  | message
  /-- After the left brace of a block: the name of an argument comes next. -/
  | name (brace : Span)
  /-- After the name: the end of the block or a comma comes next. -/
  | named (brace : Span) (arg : String)
  /-- After that comma: the type of the block comes next. -/
  | type (brace : Span) (arg : String)
  /-- After the name of a formatter: the end of the block or a comma comes next. -/
  | call (brace : Span) (arg name : String)
  /-- In the style of a call, with its parts so far, the last one first. -/
  | style (brace : Span) (arg name part : String) (parts : List String)
  /-- After `plural` or `selectordinal`: a comma comes next. -/
  | plural (brace : Span) (arg : String) (kind : Kind)
  /-- After that comma: an offset or the first case comes next. -/
  | offset (brace : Span) (arg : String) (kind : Kind)
  /-- After a word that announces an offset: its number comes next. -/
  | offsetNumber (brace : Span) (arg : String) (kind : Kind) (word : Span)
  /-- After `select`: a comma comes next. -/
  | select (brace : Span) (arg : String)
  /-- Among the cases of a statement: a key or the end of the block comes next. -/
  | cases (choice : Choice)
  /-- After the key of a case: its left brace comes next. -/
  | body (choice : Choice) (key : String) (span : Span)

/-- A case whose message is being read: its statement, its key, and the elements in front of that
statement, the last one first. -/
structure OpenCase where
  before : List (Element Span)
  choice : Choice
  key : String
  span : Span

/-- The state of the parser: the elements of the innermost message, the last one first, the place
in it, and the open cases around it, the innermost first. -/
structure State where
  elements : List (Element Span)
  place : Place
  outer : List OpenCase

/-- Before the first token. -/
def State.start : State := ⟨[], .message, []⟩

/-- Whether a number sign has a meaning here: some statement around it is a plural. -/
def State.inPlural (s : State) : Bool :=
  s.outer.any (·.choice.isPlural)

/-- Puts literal text behind elements; it joins literal text that is already there. -/
def pushLiteral (value : String) (span : Span) : List (Element Span) → List (Element Span)
  | .literal before place :: rest => .literal (before ++ value) (place.merge span) :: rest
  | elements => .literal value span :: elements

/-- Puts an element behind the others and goes on in the message. -/
def State.push (s : State) (element : Element Span) : State :=
  { s with elements := element :: s.elements, place := .message }

/-- The style that the parts of a call spell: one part is a single text. -/
def styleOf (part : String) (parts : List String) : Style :=
  match parts with
  | [] => .single part
  | _ => .list (part :: parts).reverse

/-- Adds a word to a part of a style; words are one blank apart. -/
def joinWord (part word : String) : String :=
  if part.isEmpty then word else part ++ " " ++ word

/-- What follows `offset:` in a word that announces an offset. -/
def offsetWord? (word : String) : Option (List Char) :=
  if "offset:".toList.isPrefixOf word.toList then some (word.toList.drop 7) else none

/-! ### Steps -/

/-- A token inside a message. -/
def State.inMessage (s : State) (token : Token) : Except ParseError State :=
  match token.symbol with
  | .text value => .ok { s with elements := pushLiteral value token.span s.elements }
  | .hash =>
    if s.inPlural then .ok (s.push (.numberSign token.span))
    else .ok { s with elements := pushLiteral "#" token.span s.elements }
  | .leftBrace => .ok { s with place := .name token.span }
  | .rightBrace =>
    match s.outer with
    | [] => .error ⟨.unexpectedInMessage, token.span⟩
    | c :: outer =>
      let case := ⟨c.key, s.elements.reverse, c.span.merge token.span⟩
      let choice := { c.choice with cases := case :: c.choice.cases }
      .ok ⟨c.before, .cases choice, outer⟩
  | _ => .error ⟨.unexpectedInMessage, token.span⟩

/-- A token that is a key or the end of a statement. -/
def State.inCases (s : State) (choice : Choice) (token : Token) : Except ParseError State :=
  match token.symbol with
  | .rightBrace => (choice.close token.span).map s.push
  | .word key => .ok { s with place := .body choice key token.span }
  | _ => .error ⟨.expectedCaseKey, token.span⟩

/-- The offset that a number spells. -/
def State.setOffset (s : State) (brace : Span) (arg : String) (kind : Kind) (number : List Char)
    (word : Span) : Except ParseError State :=
  match Number.uint32? number with
  | some offset => .ok { s with place := .cases ⟨brace, arg, .plural kind offset, []⟩ }
  | none => .error ⟨.invalidOffset, word⟩

/-- The type of a block. -/
def State.setType (s : State) (brace : Span) (arg name : String) : State :=
  match name with
  | "plural" => { s with place := .plural brace arg .cardinal }
  | "selectordinal" => { s with place := .plural brace arg .ordinal }
  | "select" => { s with place := .select brace arg }
  | _ => { s with place := .call brace arg name }

/-- A token. -/
def State.step (s : State) (token : Token) : Except ParseError State :=
  match s.place with
  | .message => s.inMessage token
  | .name brace =>
    match token.symbol with
    | .word arg => .ok { s with place := .named brace arg }
    | _ => .error ⟨.expectedName, token.span⟩
  | .named brace arg =>
    match token.symbol with
    | .rightBrace => .ok (s.push (.argument arg (brace.merge token.span)))
    | .comma => .ok { s with place := .type brace arg }
    | _ => .error ⟨.unexpectedToken, token.span⟩
  | .type brace arg =>
    match token.symbol with
    | .word name => .ok (s.setType brace arg name)
    | _ => .error ⟨.expectedType, token.span⟩
  | .call brace arg name =>
    match token.symbol with
    | .rightBrace => .ok (s.push (.call arg name none (brace.merge token.span)))
    | .comma => .ok { s with place := .style brace arg name "" [] }
    | _ => .error ⟨.unexpectedToken, token.span⟩
  | .style brace arg name part parts =>
    match token.symbol with
    | .rightBrace =>
      .ok (s.push (.call arg name (some (styleOf part parts)) (brace.merge token.span)))
    | .comma => .ok { s with place := .style brace arg name "" (part :: parts) }
    | .word word => .ok { s with place := .style brace arg name (joinWord part word) parts }
    | _ => .error ⟨.unexpectedInStyle, token.span⟩
  | .plural brace arg kind =>
    match token.symbol with
    | .comma => .ok { s with place := .offset brace arg kind }
    | _ => .error ⟨.unexpectedToken, token.span⟩
  | .offset brace arg kind =>
    let unshifted : Choice := ⟨brace, arg, .plural kind 0, []⟩
    match token.symbol with
    | .word word =>
      match offsetWord? word with
      | none => s.inCases unshifted token
      | some [] => .ok { s with place := .offsetNumber brace arg kind token.span }
      | some number => s.setOffset brace arg kind number token.span
    | _ => s.inCases unshifted token
  | .offsetNumber brace arg kind word =>
    match token.symbol with
    | .word number => s.setOffset brace arg kind number.toList word
    | _ => .error ⟨.expectedOffset, token.span⟩
  | .select brace arg =>
    match token.symbol with
    | .comma => .ok { s with place := .cases ⟨brace, arg, .select, []⟩ }
    | _ => .error ⟨.unexpectedToken, token.span⟩
  | .cases choice => s.inCases choice token
  | .body choice key span =>
    match token.symbol with
    | .leftBrace => .ok ⟨[], .message, ⟨s.elements, choice, key, span⟩ :: s.outer⟩
    | _ => .error ⟨.unexpectedToken, token.span⟩

/-- Goes through tokens one after the other. -/
def State.run : State → List Token → Except ParseError State
  | s, [] => .ok s
  | s, token :: rest =>
    match s.step token with
    | .ok next => next.run rest
    | .error e => .error e

/-- The place after the last token, for an error at the end. -/
def endSpan (tokens : List Token) : Span :=
  match tokens.getLast? with
  | some token => { token.span with start := token.span.stop }
  | none => ⟨0, 0, 1, 1⟩

/-- The elements of a whole text: at its end no block and no case may be open. -/
def State.finish (s : State) (stop : Span) : Except ParseError (List (Element Span)) :=
  match s.place, s.outer with
  | .message, [] => .ok s.elements.reverse
  | _, _ => .error ⟨.unexpectedEnd, stop⟩

/-- The elements of a row of tokens. -/
def parseTokens (tokens : List Token) : Except ParseError (List (Element Span)) := do
  let s ← State.start.run tokens
  s.finish (endSpan tokens)

/-- The elements of a text. -/
def parse (text : String) : Except ParseError (List (Element Span)) := do
  let tokens ← lex text
  parseTokens tokens

end MessageCatalog.Pattern
