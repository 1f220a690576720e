/-
Hashes and their text.

* `Hash`: thirty-two bytes;
* `Hash.text`: the name of the algorithm, a colon and sixty-four digits in lower case;
* `Hash.ofText?`: reads digits of either case, with or without the name in front of them, and
  with white space around the whole.
-/
import MessageCatalog.Text.Blank
import MessageCatalog.Text.Hexadecimal

namespace MessageCatalog.Digest

/-! ### Bytes in hexadecimal digits -/

/-- The two digits of a byte, the high one first. -/
def byteDigits (byte : UInt8) : List Char :=
  [Text.hexChar (byte.toNat / 16), Text.hexChar (byte.toNat % 16)]

/-- The digits of bytes. -/
def hexText (bytes : List UInt8) : List Char :=
  bytes.flatMap byteDigits

/-- The bytes that pairs of digits spell. -/
def bytesOfHex? : List Char → Option (List UInt8)
  | [] => some []
  | [_] => none
  | high :: low :: rest =>
    match Text.hexDigit? high, Text.hexDigit? low with
    | some h, some l => (bytesOfHex? rest).map (UInt8.ofNat (16 * h + l) :: ·)
    | _, _ => none

/-! ### Hashes -/

/-- A hash of thirty-two bytes. -/
structure Hash where
  bytes : List UInt8
  size_eq : bytes.length = 32
deriving DecidableEq

namespace Hash

/-- The name of the algorithm, as it stands in front of the digits. -/
def label : List Char :=
  ['s', 'h', 'a', '2', '5', '6', ':']

/-- The text of a hash. -/
def text (hash : Hash) : String :=
  String.ofList (label ++ hexText hash.bytes)

/-- The hash that some bytes are, if their number is right. -/
def ofBytes? (bytes : List UInt8) : Option Hash :=
  if h : bytes.length = 32 then some ⟨bytes, h⟩ else none

/-- A text without the name of the algorithm in front of it, if there is one. -/
def withoutLabel (cs : List Char) : List Char :=
  if label.isPrefixOf cs then cs.drop label.length else cs

/-- Reads the text of a hash. -/
def ofText? (text : String) : Option Hash :=
  (bytesOfHex? (withoutLabel (Text.trimChars text.toList))).bind ofBytes?

end Hash

end MessageCatalog.Digest
