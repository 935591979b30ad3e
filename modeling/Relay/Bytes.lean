/-!
# Byte strings

A payload is a list of bytes. `Bytes.ofString` gives the UTF-8 form of a text and
`Bytes.text?` reads it back, refusing what is not UTF-8. The hexadecimal form has two lower
case digits a byte.
-/
namespace Relay

abbrev Bytes := List UInt8

namespace Bytes

/-- The UTF-8 form of a text. -/
def ofString (s : String) : Bytes := s.toUTF8.toList

/-- The text whose UTF-8 form the bytes are, if they are one. -/
def text? (b : Bytes) : Option String := String.fromUTF8? ⟨b.toArray⟩

/-! ## Hexadecimal form -/

def hexDigit (n : Nat) : Char :=
  if n < 10 then Char.ofNat (48 + n) else Char.ofNat (87 + n)

/-- The value of a hexadecimal digit of either case, given as an ASCII code. -/
def hexValue? (c : Nat) : Option Nat :=
  if 48 ≤ c ∧ c ≤ 57 then some (c - 48)
  else if 97 ≤ c ∧ c ≤ 102 then some (c - 87)
  else if 65 ≤ c ∧ c ≤ 70 then some (c - 55)
  else none

def toHex (b : Bytes) : String :=
  String.ofList (b.flatMap fun x => [hexDigit (x.toNat / 16), hexDigit (x.toNat % 16)])

def hexPairs : List Char → Option Bytes
  | [] => some []
  | hi :: lo :: rest => do
    let h ← hexValue? hi.toNat
    let l ← hexValue? lo.toNat
    let tail ← hexPairs rest
    return UInt8.ofNat (16 * h + l) :: tail
  | [_] => none

def ofHex? (s : String) : Option Bytes := hexPairs s.toList

end Bytes

end Relay
