/-
The shortest decimal that reads back as a given float.

The reals that round to a float form an interval. Of the grids of multiples of a power of ten, the
coarsest that has a point in that interval gives the fewest digits, and of its two points next to
the value the nearer one is taken. Main definitions:

* `Interval`: the reals that round to a value, scaled so that its ends are natural numbers;
* `gridPoint?`: the point of a grid that stands for the value, if there is one;
* `search`, `shortest`: the decimal on the coarsest grid that has such a point.
-/
import MessageCatalog.Number.Decimal

namespace MessageCatalog.Number

-- Powers here are core's own, also where Mathlib is in scope.
attribute [local instance (high)] instPowNat

/-- What to do with a value midway between two decimals of the least length. -/
inductive Tie where
  /-- The one with the even last digit. -/
  | toEven
  /-- The larger one. -/
  | away
deriving DecidableEq

/-! ### The reals that round to a value -/

/-- A value and the two ends of the reals that round to it, in quarter units of a float; the ends
belong to it if the mantissa is even. -/
structure Interval where
  value : Nat
  low : Nat
  high : Nat
  closed : Bool

/-- The reals that round to a finite magnitude reach halfway to its two neighbours. The neighbour
below a power of two is nearer than the one above, except at the bottom of the range. -/
def Exact.interval (e : Exact) : Interval :=
  let gap := 2 ^ e.scale
  let below := if e.mantissa = 2 ^ (52 : Nat) ∧ 0 < e.scale then gap else 2 * gap
  { value := 4 * e.units
    low := 4 * e.units - below
    high := 4 * e.units + 2 * gap
    closed := e.mantissa % 2 == 0 }

/-- Whether a multiple of a step lies in an interval whose ends are scaled by a factor. -/
def Interval.holds (i : Interval) (factor point : Nat) : Bool :=
  if i.closed then i.low * factor ≤ point && point ≤ i.high * factor
  else i.low * factor < point && point < i.high * factor

/-! ### Grids -/

/-- The multiple of `10 ^ exponent` that stands for a value: of the two next to it, the one in the
interval, and the nearer one if both are. -/
def gridPoint? (tie : Tie) (i : Interval) (exponent : Int) : Option Nat :=
  let factor := 10 ^ (-exponent).toNat
  let step := 4 * unit * 10 ^ exponent.toNat
  let lower := i.value * factor / step
  let upper := lower + 1
  let excess := i.value * factor % step
  match i.holds factor (lower * step), i.holds factor (upper * step) with
  | true, true =>
    if 2 * excess < step then some lower
    else if step < 2 * excess then some upper
    else match tie with
      | .toEven => some (if lower % 2 = 0 then lower else upper)
      | .away => some upper
  | true, false => some lower
  | false, true => some upper
  | false, false => none

/-- The first grid with a point for the value, of a number of grids each ten times finer than the
one before. -/
def search (tie : Tie) (i : Interval) : Nat → Int → Option (Nat × Int)
  | 0, _ => none
  | grids + 1, exponent =>
    match gridPoint? tie i exponent with
    | some point => some (point, exponent)
    | none => search tie i grids (exponent - 1)

/-- The exponent of a power of ten above a magnitude, and not far above it. -/
def ceiling (e : Exact) : Int :=
  ((e.units.log2 : Int) - 1073) * 30103 / 100000 + 1

/-- The shortest decimal that reads back as a nonzero magnitude. A multiple of `2 ^ -1074` is one
of `10 ^ -1074` too, so the search ends at that grid at the latest. -/
def shortest (tie : Tie) (e : Exact) : Decimal :=
  let top := ceiling e
  match search tie e.interval (top + 1075).toNat top with
  | some (point, exponent) => ⟨e.negative, point, exponent⟩
  | none => ⟨e.negative, 0, 0⟩

/-! ### Instances of the rules -/

/-- The shortest decimal of a float, for the instances below. -/
def shortestOf? (tie : Tie) (x : Float) : Option Decimal :=
  match view x with
  | .finite e => some (shortest tie e)
  | _ => none

example : shortestOf? .toEven 0.1 = some ⟨false, 1, -1⟩ := by decide +kernel

example : shortestOf? .toEven (Float.ofBits 1) = some ⟨false, 5, -324⟩ := by decide +kernel

example : shortestOf? .toEven 1e23 = some ⟨false, 1, 23⟩ := by decide +kernel

-- Midway between two decimals of sixteen digits.
example : shortestOf? .toEven 562949953421312.25 = some ⟨false, 5629499534213122, -1⟩ := by
  decide +kernel

example : shortestOf? .away 562949953421312.25 = some ⟨false, 5629499534213123, -1⟩ := by
  decide +kernel

end MessageCatalog.Number
