/-
TOML values that are written as bare words: truth values, numbers, dates and times.

* `integer?`: an integer in the signed 64-bit range, in any of four bases;
* `float?`: a number with a point or an exponent, an infinity, or not a number;
* `isDate`, `isTime`, `isMoment`: dates of the calendar and times of the day;
* `scalar?`: the value that a word is.
-/
import MessageCatalog.Number.Decimal
import MessageCatalog.Text.Blank
import MessageCatalog.Text.Hexadecimal
import MessageCatalog.Toml.Value

namespace MessageCatalog.Toml

/-! ### Numbers -/

/-- A row of digits without the low lines in it, which stand between two digits only. -/
def plainDigits? (isDigit : Char → Bool) (cs : List Char) : Option (List Char) :=
  let groups := Text.pieces (· == '_') cs
  if groups.all fun group => !group.isEmpty && group.all isDigit then some groups.flatten else none

/-- A row of decimal digits without a superfluous zero in front. -/
def wholeDigits? (cs : List Char) : Option (List Char) :=
  (plainDigits? Char.isDigit cs).filter fun digits => digits.length == 1 || digits.head? != some '0'

/-- The value of digits in a base up to sixteen. -/
def inBase (base : Nat) (digits : List Char) : Nat :=
  digits.foldl (fun value c => base * value + (Text.hexDigit? c).getD 0) 0

/-- Whether a character is a digit in a base up to sixteen. -/
def isDigitIn (base : Nat) (c : Char) : Bool :=
  (Text.hexDigit? c).any (· < base)

/-- An integer. Only decimal ones have a sign. -/
def integer? (cs : List Char) : Option Int :=
  let value : Option Int :=
    match cs with
    | '0' :: 'x' :: digits => (plainDigits? (isDigitIn 16) digits).map fun ds => (inBase 16 ds : Int)
    | '0' :: 'o' :: digits => (plainDigits? (isDigitIn 8) digits).map fun ds => (inBase 8 ds : Int)
    | '0' :: 'b' :: digits => (plainDigits? (isDigitIn 2) digits).map fun ds => (inBase 2 ds : Int)
    | '-' :: digits => (wholeDigits? digits).map fun ds => -(inBase 10 ds : Int)
    | '+' :: digits => (wholeDigits? digits).map fun ds => (inBase 10 ds : Int)
    | digits => (wholeDigits? digits).map fun ds => (inBase 10 ds : Int)
  value.filter Number.inInt64

/-- A number whose parts are separated already, which has a point or an exponent. -/
def finite? (sign : Option Char) (whole : List Char) (fraction : Option (List Char))
    (exponent : Option (List Char)) : Option Float := do
  let whole ← wholeDigits? whole
  let fraction ←
    match fraction with
    | none => some none
    | some digits => (plainDigits? Char.isDigit digits).map some
  let exponent ←
    match exponent with
    | none => some none
    | some cs =>
      let (sign, digits) := Number.takeSign cs
      (plainDigits? Char.isDigit digits).map fun digits => some (sign, digits)
  if fraction.isNone && exponent.isNone then none
  else
    let value := (Number.Literal.mk sign whole fraction exponent).decimal.toFloat
    -- What is too large is no number; far below zero it is an infinity.
    if value == 1 / 0 then none else some value

/-- A float. -/
def float? (cs : List Char) : Option Float :=
  let (sign, rest) := Number.takeSign cs
  if rest == ['i', 'n', 'f'] then some (if sign == some '-' then -1 / 0 else 1 / 0)
  else if rest == ['n', 'a', 'n'] then some (0 / 0)
  else
    let (mantissa, exponents) := Text.cut (fun c => c == 'e' || c == 'E') rest
    let (whole, fractions) := Text.cut (· == '.') mantissa
    match fractions, exponents with
    | [], [] => none
    | [], [(_, exponent)] => finite? sign whole none (some exponent)
    | [(_, fraction)], [] => finite? sign whole (some fraction) none
    | [(_, fraction)], [(_, exponent)] => finite? sign whole (some fraction) (some exponent)
    | _, _ => none

/-! ### Dates and times -/

/-- The number that two digits stand for, if it is in a range. -/
def isTwoDigits (least greatest : Nat) (a b : Char) : Bool :=
  match Number.ofDigits? [a, b] with
  | some n => decide (least ≤ n) && decide (n ≤ greatest)
  | none => false

/-- The number of days of a month. -/
def daysOf (year month : Nat) : Nat :=
  if month == 2 then
    if year % 4 == 0 && (year % 100 != 0 || year % 400 == 0) then 29 else 28
  else if [4, 6, 9, 11].contains month then 30
  else 31

/-- A day of the calendar. -/
def isDate : List Char → Bool
  | [y₁, y₂, y₃, y₄, '-', m₁, m₂, '-', d₁, d₂] =>
    match Number.ofDigits? [y₁, y₂, y₃, y₄], Number.ofDigits? [m₁, m₂] with
    | some year, some month =>
      isTwoDigits 1 12 m₁ m₂ && isTwoDigits 1 (daysOf year month) d₁ d₂
    | _, _ => false
  | _ => false

/-- A fraction of a second, which may be missing. -/
def isFraction : List Char → Bool
  | [] => true
  | '.' :: digits => !digits.isEmpty && digits.all Char.isDigit
  | _ => false

/-- A time of day. Its last second may be a leap second. -/
def isTime : List Char → Bool
  | h₁ :: h₂ :: ':' :: m₁ :: m₂ :: ':' :: s₁ :: s₂ :: fraction =>
    isTwoDigits 0 23 h₁ h₂ && isTwoDigits 0 59 m₁ m₂ && isTwoDigits 0 60 s₁ s₂ &&
      isFraction fraction
  | _ => false

/-- The distance from universal time, which may be missing. -/
def isOffset : List Char → Bool
  | [] => true
  | ['Z'] => true
  | ['z'] => true
  | [sign, h₁, h₂, ':', m₁, m₂] =>
    (sign == '+' || sign == '-') && isTwoDigits 0 23 h₁ h₂ && isTwoDigits 0 59 m₁ m₂
  | _ => false

/-- A time of day with its distance from universal time. -/
def isZonedTime (cs : List Char) : Bool :=
  let isTimeChar (c : Char) := c.isDigit || c == ':' || c == '.'
  isTime (cs.takeWhile isTimeChar) && isOffset (cs.dropWhile isTimeChar)

/-- A date, a time of day, or both with a letter between them. -/
def isMoment (cs : List Char) : Bool :=
  isDate cs || isTime cs ||
    match cs.drop 10 with
    | c :: time => isDate (cs.take 10) && (c == 'T' || c == 't') && isZonedTime time
    | [] => false

/-! ### Words -/

/-- The value that a word is. -/
def scalar? (word : List Char) : Option Value :=
  if word == ['t', 'r', 'u', 'e'] then some (.flag true)
  else if word == ['f', 'a', 'l', 's', 'e'] then some (.flag false)
  else if isMoment word then some (.moment (String.ofList word))
  else
    match float? word with
    | some x => some (.real x)
    | none => (integer? word).map .integer

example : integer? "0xDEAD_beef".toList = some 3735928559 := by decide +kernel

example : integer? "1__0".toList = none := by decide +kernel

example : isMoment "2024-02-30".toList = false := by decide +kernel

example : isMoment "1979-05-27T00:32:00.999-07:00".toList = true := by decide +kernel

end MessageCatalog.Toml
