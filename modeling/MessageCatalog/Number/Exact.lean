/-
The exact value of a float, and the float nearest to a ratio.

A finite float is a whole number of units of `2 ^ -1074`, so every fact about it is a fact about
natural numbers. Main definitions:

* `view`: a float as not-a-number, an infinity, or an exact value read off its bits;
* `nearest`: the float nearest to a ratio of natural numbers, a tie going to the even mantissa;
* `ofNat`: the float nearest to a natural number;
* `whole?`: the integer that a float is equal to, if it is whole;
* `toInt64`: a float cut off to a whole number in the signed 64-bit range;
* `roundAway`: the nearest whole float, a half going away from zero.
-/

namespace MessageCatalog.Number

-- Powers here are core's own, also where Mathlib is in scope.
attribute [local instance (high)] instPowNat

/-! ### Exact values -/

/-- One is `unit` smallest steps of a float. -/
def unit : Nat := 2 ^ (1074 : Nat)

/-- A finite float: `mantissa * 2 ^ scale` units of `2 ^ -1074`, with a sign. -/
structure Exact where
  negative : Bool
  mantissa : Nat
  scale : Nat
deriving DecidableEq

/-- The magnitude in units of `2 ^ -1074`. -/
def Exact.units (e : Exact) : Nat :=
  e.mantissa * 2 ^ e.scale

/-- What a float stands for. -/
inductive View where
  | nan
  | infinite (negative : Bool)
  | finite (value : Exact)
deriving DecidableEq

/-- Reads the fields of a 64-bit pattern: a sign bit, eleven exponent bits, and fifty-two
fraction bits. A nonzero exponent field adds the leading bit to the fraction. -/
def viewBits (bits : Nat) : View :=
  let negative := bits / 2 ^ (63 : Nat) % 2 == 1
  let field := bits / 2 ^ (52 : Nat) % 2 ^ (11 : Nat)
  let fraction := bits % 2 ^ (52 : Nat)
  if field = 2047 then
    if fraction = 0 then .infinite negative else .nan
  else if field = 0 then .finite ⟨negative, fraction, 0⟩
  else .finite ⟨negative, fraction + 2 ^ (52 : Nat), field - 1⟩

/-- What a float stands for. -/
def view (x : Float) : View :=
  viewBits x.toBits.toNat

/-- Whether a float stands for a real number. -/
def isFinite (x : Float) : Bool :=
  match view x with
  | .finite _ => true
  | _ => false

/-- Whether a float is one of the two zeros. -/
def isZero (x : Float) : Bool :=
  match view x with
  | .finite e => e.mantissa == 0
  | _ => false

/-! ### Rounding -/

/-- The natural number nearest to a ratio; a tie goes to the even one. -/
def divEven (num den : Nat) : Nat :=
  let quotient := num / den
  let twice := 2 * (num % den)
  if twice < den then quotient
  else if den < twice then quotient + 1
  else quotient + quotient % 2

/-- The bits, without the sign, of the float nearest to a ratio. The scale is the least at which
the mantissa fits into fifty-three bits; a mantissa that rounds up to `2 ^ 53` carries into the
exponent field by itself, and a carry into the last field value is infinity. -/
def nearestBits (num den : Nat) : Nat :=
  let scale := (num * unit / den).log2 - 52
  min (scale * 2 ^ (52 : Nat) + divEven (num * unit) (den * 2 ^ scale)) (2047 * 2 ^ (52 : Nat))

/-- The float nearest to a ratio of natural numbers, with a sign. -/
def nearest (negative : Bool) (num den : Nat) : Float :=
  Float.ofBits (UInt64.ofNat (nearestBits num den + if negative then 2 ^ (63 : Nat) else 0))

/-- The float nearest to a natural number. -/
def ofNat (n : Nat) : Float :=
  nearest false n 1

/-- The float nearest to an integer. -/
def ofInt (n : Int) : Float :=
  nearest (n < 0) n.natAbs 1

/-! ### Whole values -/

/-- The magnitude of a value, if it is whole. -/
def Exact.whole? (e : Exact) : Option Nat :=
  if e.units % unit = 0 then some (e.units / unit) else none

/-- The integer that a float is equal to, if it is whole. -/
def whole? (x : Float) : Option Int :=
  match view x with
  | .finite e => e.whole?.map fun n => if e.negative then -(n : Int) else n
  | _ => none

/-- A float cut off to a whole number. One beyond an end of the signed 64-bit range becomes that
end, and one that is no number becomes zero. -/
def toInt64 (x : Float) : Int :=
  let least : Int := -(2 ^ (63 : Nat))
  let greatest : Int := 2 ^ (63 : Nat) - 1
  match view x with
  | .nan => 0
  | .infinite negative => if negative then least else greatest
  | .finite e =>
    let n := e.units / unit
    if e.negative then max least (-(n : Int)) else min greatest n

/-- The nearest whole float; a half goes away from zero. The sign stays, also on zero. -/
def roundAway (x : Float) : Float :=
  match view x with
  | .finite e =>
    if e.units % unit = 0 then x
    else nearest e.negative ((2 * e.units + unit) / (2 * unit)) 1
  | _ => x

/-! ### Instances of the rules -/

example : view 1.5 = .finite ⟨false, 3 * 2 ^ 51, 1022⟩ := by decide +kernel

example : whole? (-3.0) = some (-3) := by decide +kernel

example : toInt64 (-2.5) = -2 := by decide +kernel

example : toInt64 9223372036854775808 = 9223372036854775807 := by decide +kernel

example : ofNat 4294967295 = 4294967295.0 := by decide +kernel

example : nearest false 1 10 = 0.1 := by decide +kernel

example : roundAway (-2.5) = -3.0 := by decide +kernel

end MessageCatalog.Number
