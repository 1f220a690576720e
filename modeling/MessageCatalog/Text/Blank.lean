/-
White space and cutting of text.

* `isWhite`: the characters with the Unicode property `White_Space`, which `trim` strips from
  both ends of a text;
* `isSpace`: the five ASCII spaces that separate the words of a pattern;
* `cut`: a list cut at separators, each later piece kept with the separator before it, so that
  `glue_cut` gives the list back.
-/

namespace MessageCatalog.Text

/-! ### White space -/

/-- The characters with the Unicode property `White_Space`. -/
def isWhite (c : Char) : Bool :=
  let n := c.toNat
  (9 ≤ n && n ≤ 13) || n == 0x20 || n == 0x85 || n == 0xA0 || n == 0x1680 ||
    (0x2000 ≤ n && n ≤ 0x200A) || n == 0x2028 || n == 0x2029 || n == 0x202F ||
    n == 0x205F || n == 0x3000

/-- The ASCII spaces: space, tab, line feed, form feed, carriage return. The vertical tab is
not among them. -/
def isSpace (c : Char) : Bool :=
  c == ' ' || c == '\t' || c == '\n' || c == '\x0c' || c == '\r'

/-- A text without the white space at its two ends. -/
def trimChars (cs : List Char) : List Char :=
  ((cs.dropWhile isWhite).reverse.dropWhile isWhite).reverse

/-- A string without the white space at its two ends. -/
def trim (s : String) : String :=
  String.ofList (trimChars s.toList)

/-! ### Cutting at separators -/

variable {α : Type}

/-- Cuts a list at every element that is a separator: the piece before the first one, and each
later piece with the separator in front of it. -/
def cut (separator : α → Bool) : List α → List α × List (α × List α)
  | [] => ([], [])
  | c :: cs =>
    let (head, tail) := cut separator cs
    if separator c then ([], (c, head) :: tail) else (c :: head, tail)

/-- Puts the pieces of a cut list together again. -/
def glue (head : List α) : List (α × List α) → List α
  | [] => head
  | (c, piece) :: rest => head ++ c :: glue piece rest

theorem glue_cons (c : α) (head : List α) (tail : List (α × List α)) :
    glue (c :: head) tail = c :: glue head tail := by
  cases tail <;> rfl

/-- Cutting loses nothing. -/
theorem glue_cut (separator : α → Bool) (cs : List α) :
    glue (cut separator cs).1 (cut separator cs).2 = cs := by
  induction cs with
  | nil => rfl
  | cons c cs ih =>
    by_cases h : separator c = true
    · simp [cut, h, glue, ih]
    · simp [cut, h, glue_cons, ih]

/-- The pieces of a list between its separators; a list without one is its only piece. -/
def pieces (separator : α → Bool) (cs : List α) : List (List α) :=
  let (head, tail) := cut separator cs
  head :: tail.map (·.2)

end MessageCatalog.Text
