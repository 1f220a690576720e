/-
Integers in decimal digits.

* `digits`: the decimal digits of a natural number;
* `ofDigits?`: the number that a non-empty row of decimal digits stands for;
* `int64?`: an optional sign and digits, within the signed 64-bit range;
* `uint32?`: an optional plus sign and digits, below `2 ^ 32`;
* `intText`: an integer with a minus sign if it is negative.
-/

namespace MessageCatalog.Number

-- Powers here are core's own, also where Mathlib is in scope.
attribute [local instance (high)] instPowNat

/-- The decimal digits of a natural number, without leading zeros. -/
def digits (n : Nat) : List Char :=
  Nat.toDigits 10 n

/-- The value of a row of digits, read onto a value already read. -/
def accumulate (value : Nat) : List Char → Option Nat
  | [] => some value
  | c :: cs => if c.isDigit then accumulate (10 * value + (c.toNat - 48)) cs else none

/-- The number that a non-empty row of decimal digits stands for; leading zeros do not count. -/
def ofDigits? : List Char → Option Nat
  | [] => none
  | cs => accumulate 0 cs

/-- An integer in the signed 64-bit range. -/
def inInt64 (n : Int) : Bool :=
  decide (-(2 ^ (63 : Nat)) ≤ n) && decide (n < 2 ^ (63 : Nat))

/-- Reads an integer: at most one sign, then digits, within the signed 64-bit range. -/
def int64? (cs : List Char) : Option Int :=
  let value : Option Int :=
    match cs with
    | '-' :: rest => (ofDigits? rest).map fun n => -(n : Int)
    | '+' :: rest => (ofDigits? rest).map fun n => (n : Int)
    | rest => (ofDigits? rest).map fun n => (n : Int)
  value.filter inInt64

/-- Reads a natural number below `2 ^ 32`: at most a plus sign, then digits. -/
def uint32? (cs : List Char) : Option Nat :=
  let value :=
    match cs with
    | '+' :: rest => ofDigits? rest
    | rest => ofDigits? rest
  value.filter (· < 2 ^ (32 : Nat))

/-- An integer in decimal digits, with a minus sign if it is negative. -/
def intText (n : Int) : List Char :=
  if n < 0 then '-' :: digits n.natAbs else digits n.natAbs

example : int64? "+007".toList = some 7 := by decide +kernel

example : int64? "-9223372036854775808".toList = some (-9223372036854775808) := by decide +kernel

example : int64? "9223372036854775808".toList = none := by decide +kernel

example : uint32? "-1".toList = none := by decide +kernel

end MessageCatalog.Number
