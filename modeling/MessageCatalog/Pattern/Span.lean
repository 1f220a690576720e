/-
Positions in a pattern, and what can be wrong there.

* `Cursor`: a place in a text, counted in bytes and in lines and columns;
* `Span`: a range of bytes with the line and column of its start;
* `ParseError`: a cause with the span it concerns.
-/

namespace MessageCatalog.Pattern

/-! ### Positions -/

/-- A place in a text. Lines and columns count from one, columns in characters. Neither is more than
one ahead of the number of characters in front of the place, so that counters of 32 bits agree with
them in every text of fewer than `2 ^ 32 - 1` characters. -/
structure Cursor where
  offset : Nat
  line : Nat
  column : Nat
deriving DecidableEq

/-- The start of a text. -/
def Cursor.start : Cursor := ⟨0, 1, 1⟩

/-- The place after a character. -/
def Cursor.advance (here : Cursor) (c : Char) : Cursor :=
  if c == '\n' then ⟨here.offset + c.utf8Size, here.line + 1, 1⟩
  else ⟨here.offset + c.utf8Size, here.line, here.column + 1⟩

/-- A range of bytes, with the line and the column of its start, which fit 32 bits as those of a
place do. -/
structure Span where
  start : Nat
  stop : Nat
  line : Nat
  column : Nat
deriving DecidableEq

/-- The range from one place to another. -/
def Cursor.to (here : Cursor) (stop : Nat) : Span :=
  ⟨here.offset, stop, here.line, here.column⟩

/-- The range from the start of one span to the end of another. -/
def Span.merge (first last : Span) : Span :=
  { first with stop := last.stop }

/-! ### Errors -/

/-- Why a text is no pattern. -/
inductive Cause where
  | unbalancedBrace
  | unclosedBrace
  | unexpectedInMessage
  | unexpectedToken
  | unexpectedInStyle
  | unexpectedEnd
  | expectedName
  | expectedType
  | expectedCaseKey
  | expectedOffset
  | invalidOffset
  | invalidKey
  | duplicateKey
  | missingOther
deriving DecidableEq

/-- The wording of a cause. -/
def Cause.message : Cause → String
  | .unbalancedBrace => "unbalanced brace"
  | .unclosedBrace => "unclosed brace"
  | .unexpectedInMessage => "unexpected token in message"
  | .unexpectedToken => "unexpected token"
  | .unexpectedInStyle => "unexpected token in style"
  | .unexpectedEnd => "unexpected end of pattern"
  | .expectedName => "expected argument name"
  | .expectedType => "expected argument type"
  | .expectedCaseKey => "expected case key"
  | .expectedOffset => "expected offset value"
  | .invalidOffset => "invalid offset"
  | .invalidKey => "invalid plural key"
  | .duplicateKey => "duplicate case key"
  | .missingOther => "missing other case"

/-- A cause, and where it is. -/
structure ParseError where
  cause : Cause
  span : Span
deriving DecidableEq

/-- The wording of an error, with its line and column. -/
def ParseError.message (e : ParseError) : String :=
  e.cause.message ++ " at line " ++ toString e.span.line ++ ", column " ++ toString e.span.column

end MessageCatalog.Pattern
