/-
Decimal numbers: the text of one, and the float nearest to it.

* `Decimal`: a sign, a natural coefficient, and a power of ten;
* `Decimal.toFloat`: the float nearest to it, an infinity beyond the range of floats;
* `Literal.scan?`: the parts of a number text, with `Literal.isFree` for the loose grammar of
  text values and `Literal.isJson` for the strict grammar of JSON.
-/
import MessageCatalog.Number.Exact
import MessageCatalog.Number.Integer

namespace MessageCatalog.Number

-- Powers here are core's own, also where Mathlib is in scope.
attribute [local instance (high)] instPowNat

/-! ### Decimals -/

/-- The number `coefficient * 10 ^ exponent`, with a sign that zero has too. -/
structure Decimal where
  negative : Bool
  coefficient : Nat
  exponent : Int
deriving DecidableEq

/-- The float nearest to a decimal. A power of ten far outside the range of floats is settled
before it is computed: such a decimal is beyond every finite float, or nearer to zero than to any
other. -/
def Decimal.toFloat (d : Decimal) : Float :=
  if d.coefficient = 0 then nearest d.negative 0 1
  else if 400 < d.exponent then nearest d.negative (2 ^ (1024 : Nat)) 1
  else if d.exponent < -(400 + d.coefficient.log2) then nearest d.negative 0 1
  else if 0 ≤ d.exponent then nearest d.negative (d.coefficient * 10 ^ d.exponent.toNat) 1
  else nearest d.negative d.coefficient (10 ^ (-d.exponent).toNat)

/-! ### Number texts -/

/-- The parts of a number text: a sign, whole digits, the digits after a point if there is one,
and the sign and digits of an exponent if there is one. Any row of digits may be empty. -/
structure Literal where
  sign : Option Char
  whole : List Char
  fraction : Option (List Char)
  exponent : Option (Option Char × List Char)

/-- Takes a sign off a text. -/
def takeSign : List Char → Option Char × List Char
  | '+' :: rest => (some '+', rest)
  | '-' :: rest => (some '-', rest)
  | rest => (none, rest)

/-- Splits a text that consists of the parts of a number and of nothing else. -/
def Literal.scan? (cs : List Char) : Option Literal :=
  let (sign, rest) := takeSign cs
  let whole := rest.takeWhile Char.isDigit
  let (fraction, rest) :=
    match rest.dropWhile Char.isDigit with
    | '.' :: rest => (some (rest.takeWhile Char.isDigit), rest.dropWhile Char.isDigit)
    | rest => (none, rest)
  let (exponent, rest) :=
    match rest with
    | c :: rest =>
      if c == 'e' || c == 'E' then
        let (sign, rest) := takeSign rest
        (some (sign, rest.takeWhile Char.isDigit), rest.dropWhile Char.isDigit)
      else (none, c :: rest)
    | [] => (none, [])
  if rest.isEmpty then some ⟨sign, whole, fraction, exponent⟩ else none

/-- The loose grammar: at least one digit before or after the point, and at least one in an
exponent. -/
def Literal.isFree (l : Literal) : Bool :=
  !(l.whole.isEmpty && (l.fraction.getD []).isEmpty) &&
    l.exponent.all fun (_, ds) => !ds.isEmpty

/-- The strict grammar: no plus sign, no superfluous zero in front, and digits wherever a point or
an exponent announces them. -/
def Literal.isJson (l : Literal) : Bool :=
  l.sign != some '+' &&
    (match l.whole with
      | [] => false
      | ['0'] => true
      | c :: _ => c != '0') &&
    (l.fraction.all fun ds => !ds.isEmpty) &&
    l.exponent.all fun (_, ds) => !ds.isEmpty

/-- Whether a number text has neither a point nor an exponent. -/
def Literal.isInteger (l : Literal) : Bool :=
  l.fraction.isNone && l.exponent.isNone

/-- The decimal that a number text stands for. Zeros at the end of its digits go into the
exponent. -/
def Literal.decimal (l : Literal) : Decimal :=
  let fraction := l.fraction.getD []
  let all := l.whole ++ fraction
  let zeros := all.reverse.takeWhile (· == '0')
  let kept := all.take (all.length - zeros.length)
  let power : Int :=
    match l.exponent with
    | none => 0
    | some (sign, ds) =>
      let n : Int := (accumulate 0 ds).getD 0
      if sign == some '-' then -n else n
  { negative := l.sign == some '-'
    coefficient := (accumulate 0 kept).getD 0
    exponent := power - fraction.length + zeros.length }

/-- Reads the text of a number in the loose grammar. -/
def Decimal.ofText? (cs : List Char) : Option Decimal :=
  ((Literal.scan? cs).filter Literal.isFree).map Literal.decimal

example : Decimal.ofText? "-12.50e1".toList = some ⟨true, 125, 0⟩ := by decide +kernel

example : Decimal.ofText? ".".toList = none := by decide +kernel

example : (⟨false, 5, -324⟩ : Decimal).toFloat = Float.ofBits 1 := by decide +kernel

end MessageCatalog.Number
