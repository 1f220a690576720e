/-
Hexadecimal digits.

* `hexDigit?`: the value of a digit of either case;
* `hexValue?`: the number that a row of digits stands for;
* `hexChar`: the digit with a value, in lower case.
-/

namespace MessageCatalog.Text

/-- The value of a hexadecimal digit of either case. -/
def hexDigit? (c : Char) : Option Nat :=
  if '0' ≤ c ∧ c ≤ '9' then some (c.toNat - 48)
  else if 'a' ≤ c ∧ c ≤ 'f' then some (c.toNat - 87)
  else if 'A' ≤ c ∧ c ≤ 'F' then some (c.toNat - 55)
  else none

/-- The number that hexadecimal digits stand for, read onto a value already read. -/
def hexAccumulate? (value : Nat) : List Char → Option Nat
  | [] => some value
  | c :: cs =>
    match hexDigit? c with
    | some d => hexAccumulate? (16 * value + d) cs
    | none => none

/-- The number that a row of hexadecimal digits stands for. -/
def hexValue? (cs : List Char) : Option Nat :=
  hexAccumulate? 0 cs

/-- The hexadecimal digit with a value below sixteen, in lower case. -/
def hexChar (value : Nat) : Char :=
  Nat.digitChar value

theorem hexDigit?_hexChar {value : Nat} (h : value < 16) :
    hexDigit? (hexChar value) = some value := by
  have table : ∀ i : Fin 16, hexDigit? (hexChar i.val) = some i.val := by decide
  exact table ⟨value, h⟩

end MessageCatalog.Text
