/-
How numbers are written.

* `Layout`: the decisions of a number format, on top of the shortest digits;
* `Layout.plain`: the format of output: always positional, no point on whole numbers;
* `Layout.stored`: the format of stored modules: always a point or an exponent;
* `numberText`: a number in a message, where both zeros are `0`.
-/
import MessageCatalog.Number.Shortest

namespace MessageCatalog.Number

/-- The decisions of a number format. -/
structure Layout where
  /-- Which of two equally near decimals of the least length is written. -/
  tie : Tie
  /-- The powers of ten of the first digit that are written positionally. -/
  positional : Int → Bool
  /-- Whether a positional whole number ends in `.0`. -/
  point : Bool

/-- Numbers in output are positional whatever their size. -/
def Layout.plain : Layout := ⟨.away, fun _ => true, false⟩

/-- Numbers in stored modules are positional from `1e-5` to below `1e16`, with a digit after the
point. -/
def Layout.stored : Layout := ⟨.toEven, fun power => -5 ≤ power && power < 16, true⟩

/-- Digits times a power of ten, written out with zeros. -/
def positionalText (ds : List Char) (exponent : Int) : List Char :=
  if 0 ≤ exponent then ds ++ List.replicate exponent.toNat '0'
  else
    let places := (-exponent).toNat
    if places < ds.length then
      ds.take (ds.length - places) ++ '.' :: ds.drop (ds.length - places)
    else '0' :: '.' :: (List.replicate (places - ds.length) '0' ++ ds)

/-- Digits with a point after the first one, and the power of ten of the first one with its
sign. -/
def scientificText (ds : List Char) (power : Int) : List Char :=
  let mantissa :=
    match ds with
    | d :: e :: rest => d :: '.' :: e :: rest
    | ds => ds
  mantissa ++ 'e' :: (if power < 0 then '-' else '+') :: digits power.natAbs

/-- A magnitude in a layout. -/
def Layout.magnitude (l : Layout) (e : Exact) : List Char :=
  if e.mantissa = 0 then '0' :: (if l.point then ['.', '0'] else [])
  else
    let d := shortest l.tie e
    let ds := digits d.coefficient
    let power := d.exponent + ds.length - 1
    if l.positional power then
      positionalText ds d.exponent ++ if l.point && decide (0 ≤ d.exponent) then ['.', '0'] else []
    else scientificText ds power

/-- A float in a layout. Zero keeps its sign. -/
def Layout.text (l : Layout) (x : Float) : List Char :=
  match view x with
  | .nan => ['N', 'a', 'N']
  | .infinite negative => (if negative then ['-'] else []) ++ ['i', 'n', 'f']
  | .finite e => (if e.negative then ['-'] else []) ++ l.magnitude e

/-- A number in the output of a message: the plain layout, but zero has no sign. -/
def numberText (x : Float) : String :=
  if isZero x then "0" else String.ofList (Layout.plain.text x)

example : numberText (-0.0) = "0" := by decide +kernel

example : numberText 1e21 = "1000000000000000000000" := by decide +kernel

example : numberText 0.0000001 = "0.0000001" := by decide +kernel

example : String.ofList (Layout.stored.text 4294967295) = "4294967295.0" := by decide +kernel

example : String.ofList (Layout.stored.text 12e14) = "1200000000000000.0" := by decide +kernel

example : String.ofList (Layout.stored.text 1.5e16) = "1.5e+16" := by decide +kernel

example : String.ofList (Layout.stored.text 0.00001) = "0.00001" := by decide +kernel

example : String.ofList (Layout.stored.text 0.000001) = "1e-6" := by decide +kernel

end MessageCatalog.Number
