/-!
# Decimal numerals

Reading an integer of a bounded range from a text: an optional sign (minus only where the
range goes below zero), then at least one ASCII digit, and nothing else. The first position at
which the text stops being a numeral of the range decides the error.
-/
namespace Relay

/-- Why a text is no integer of the range. -/
inductive NumeralError
  | empty
  | invalidDigit
  | tooLarge
  | tooSmall
  deriving DecidableEq, Repr

namespace NumeralError

def message : NumeralError → String
  | .empty => "cannot parse integer from empty string"
  | .invalidDigit => "invalid digit found in string"
  | .tooLarge => "number too large to fit in target type"
  | .tooSmall => "number too small to fit in target type"

end NumeralError

namespace Numeral

/-- The digits appended to `acc`, refused as `excess` at the first one that passes `limit`. -/
def digits (limit : Nat) (excess : NumeralError) (acc : Nat) :
    List Char → Except NumeralError Nat
  | [] => .ok acc
  | c :: rest =>
    if c.isDigit then
      let next := 10 * acc + (c.toNat - 48)
      if next ≤ limit then digits limit excess next rest else .error excess
    else .error .invalidDigit

def positive (hi : Nat) : List Char → Except NumeralError Int
  | [] => .error .invalidDigit
  | cs => (digits hi .tooLarge 0 cs).map Int.ofNat

def negative (lo : Nat) : List Char → Except NumeralError Int
  | [] => .error .invalidDigit
  | cs => (digits lo .tooSmall 0 cs).map fun n => -Int.ofNat n

/-- Reads an integer between `-lo` and `hi`; a range with `lo = 0` has no minus sign. -/
def read (lo hi : Nat) (s : String) : Except NumeralError Int :=
  match s.toList with
  | [] => .error .empty
  | '+' :: cs => positive hi cs
  | '-' :: cs => if lo = 0 then .error .invalidDigit else negative lo cs
  | cs => positive hi cs

/-- Reads a natural number of at most `hi`. -/
def readNat (hi : Nat) (s : String) : Except NumeralError Nat :=
  (read 0 hi s).map Int.toNat

def readUInt32 (s : String) : Except NumeralError UInt32 :=
  (readNat (UInt32.size - 1) s).map UInt32.ofNat

/-- Reads a truth value. -/
def readBool : String → Option Bool
  | "true" => some true
  | "false" => some false
  | _ => none

end Numeral

end Relay
