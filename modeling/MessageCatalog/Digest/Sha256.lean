/-
The SHA-256 hash function.

* `pad`: the message followed by a one bit, zeros, and its length in bits;
* `schedule`, `State.absorb`: what one block of sixty-four bytes does to the state;
* `sha256`: the hash of a list of bytes.
-/
import MessageCatalog.Digest.Hash

namespace MessageCatalog.Digest

-- Powers here are core's own, also where Mathlib is in scope.
attribute [local instance (high)] instPowNat

/-! ### Words and bytes -/

/-- The four bytes of a word, the highest first. -/
def wordBytes (w : UInt32) : List UInt8 :=
  [(w >>> 24).toUInt8, (w >>> 16).toUInt8, (w >>> 8).toUInt8, w.toUInt8]

/-- The words that groups of four bytes spell. -/
def words : List UInt8 → List UInt32
  | a :: b :: c :: d :: rest =>
    ((a.toUInt32 <<< 24) ||| (b.toUInt32 <<< 16) ||| (c.toUInt32 <<< 8) ||| d.toUInt32) ::
      words rest
  | _ => []

/-- The eight bytes of a length below `2 ^ 64`, the highest first. -/
def lengthBytes (n : Nat) : List UInt8 :=
  [56, 48, 40, 32, 24, 16, 8, 0].map fun (shift : Nat) => UInt8.ofNat (n / 2 ^ shift)

/-- A message filled up to a whole number of blocks of sixty-four bytes. -/
def pad (message : List UInt8) : List UInt8 :=
  let zeros := (119 - message.length % 64) % 64
  message ++ 0x80 :: (List.replicate zeros 0 ++ lengthBytes (8 * message.length))

/-! ### The functions of the algorithm -/

/-- Turns the bits of a word to the right. -/
def rotate (w : UInt32) (n : UInt32) : UInt32 :=
  (w >>> n) ||| (w <<< (32 - n))

/-- The third word where a bit of the first is clear, the second where it is set. -/
def choose (x y z : UInt32) : UInt32 :=
  (x &&& y) ^^^ (~~~x &&& z)

/-- The bits that at least two of three words have. -/
def majority (x y z : UInt32) : UInt32 :=
  (x &&& y) ^^^ (x &&& z) ^^^ (y &&& z)

/-- Spreads the bits of the first word of the state. -/
def spread₀ (w : UInt32) : UInt32 :=
  rotate w 2 ^^^ rotate w 13 ^^^ rotate w 22

/-- Spreads the bits of the fifth word of the state. -/
def spread₁ (w : UInt32) : UInt32 :=
  rotate w 6 ^^^ rotate w 11 ^^^ rotate w 25

/-- Spreads the bits of the word fifteen places back in the schedule. -/
def stretch₀ (w : UInt32) : UInt32 :=
  rotate w 7 ^^^ rotate w 18 ^^^ (w >>> 3)

/-- Spreads the bits of the word two places back in the schedule. -/
def stretch₁ (w : UInt32) : UInt32 :=
  rotate w 17 ^^^ rotate w 19 ^^^ (w >>> 10)

/-- The constants of the rounds: the first bits of the fractions of the cube roots of the first
sixty-four primes. -/
def roundConstants : List UInt32 :=
  [0x428a2f98, 0x71374491, 0xb5c0fbcf, 0xe9b5dba5, 0x3956c25b, 0x59f111f1, 0x923f82a4, 0xab1c5ed5,
   0xd807aa98, 0x12835b01, 0x243185be, 0x550c7dc3, 0x72be5d74, 0x80deb1fe, 0x9bdc06a7, 0xc19bf174,
   0xe49b69c1, 0xefbe4786, 0x0fc19dc6, 0x240ca1cc, 0x2de92c6f, 0x4a7484aa, 0x5cb0a9dc, 0x76f988da,
   0x983e5152, 0xa831c66d, 0xb00327c8, 0xbf597fc7, 0xc6e00bf3, 0xd5a79147, 0x06ca6351, 0x14292967,
   0x27b70a85, 0x2e1b2138, 0x4d2c6dfc, 0x53380d13, 0x650a7354, 0x766a0abb, 0x81c2c92e, 0x92722c85,
   0xa2bfe8a1, 0xa81a664b, 0xc24b8b70, 0xc76c51a3, 0xd192e819, 0xd6990624, 0xf40e3585, 0x106aa070,
   0x19a4c116, 0x1e376c08, 0x2748774c, 0x34b0bcb5, 0x391c0cb3, 0x4ed8aa4a, 0x5b9cca4f, 0x682e6ff3,
   0x748f82ee, 0x78a5636f, 0x84c87814, 0x8cc70208, 0x90befffa, 0xa4506ceb, 0xbef9a3f7, 0xc67178f2]

/-! ### Blocks -/

/-- Eight words between two rounds. -/
structure State where
  a : UInt32
  b : UInt32
  c : UInt32
  d : UInt32
  e : UInt32
  f : UInt32
  g : UInt32
  h : UInt32

/-- The state before the first block: the first bits of the fractions of the square roots of the
first eight primes. -/
def State.initial : State where
  a := 0x6a09e667
  b := 0xbb67ae85
  c := 0x3c6ef372
  d := 0xa54ff53a
  e := 0x510e527f
  f := 0x9b05688c
  g := 0x1f83d9ab
  h := 0x5be0cd19

/-- Adds two states word by word. -/
def State.add (s t : State) : State :=
  ⟨s.a + t.a, s.b + t.b, s.c + t.c, s.d + t.d, s.e + t.e, s.f + t.f, s.g + t.g, s.h + t.h⟩

/-- The bytes of a state. -/
def State.bytes (s : State) : List UInt8 :=
  wordBytes s.a ++ wordBytes s.b ++ wordBytes s.c ++ wordBytes s.d ++ wordBytes s.e ++
    wordBytes s.f ++ wordBytes s.g ++ wordBytes s.h

/-- Adds one word to a schedule, from words two, seven, fifteen and sixteen places back. -/
def extend (ws : Array UInt32) : Array UInt32 :=
  let back (n : Nat) := ws.getD (ws.size - n) 0
  ws.push (stretch₁ (back 2) + back 7 + stretch₀ (back 15) + back 16)

/-- The sixty-four words of a block of sixteen words. -/
def schedule (block : List UInt32) : List UInt32 :=
  (Nat.repeat extend 48 block.toArray).toList

/-- One round, with a word of the schedule and its constant. -/
def round (s : State) (word : UInt32 × UInt32) : State :=
  let first := s.h + spread₁ s.e + choose s.e s.f s.g + word.2 + word.1
  let second := spread₀ s.a + majority s.a s.b s.c
  ⟨first + second, s.a, s.b, s.c, s.d + first, s.e, s.f, s.g⟩

/-- What a block of sixteen words does to the state. -/
def State.absorb (s : State) (block : List UInt32) : State :=
  s.add (((schedule block).zip roundConstants).foldl round s)

/-- What the words of a message do to the state, sixteen at a time. -/
def State.absorbAll (s : State) (message : List UInt32) : State :=
  match message with
  | [] => s
  | w :: ws => (s.absorb (w :: ws.take 15)).absorbAll (ws.drop 15)
termination_by message.length
decreasing_by rw [List.length_drop, List.length_cons]; omega

/-- The hash of a list of bytes. -/
def sha256 (message : List UInt8) : Hash :=
  ⟨(State.initial.absorbAll (words (pad message))).bytes, rfl⟩

end MessageCatalog.Digest
