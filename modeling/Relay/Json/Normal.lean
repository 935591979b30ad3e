import Relay.Double
import Relay.Json
/-!
# The normal form of a JSON value

One value can be written in several ways. In the normal form strings have only the escapes they
need, integers of 64 bits are as they are, and every other number is the shortest decimal for
the floating point number nearest to it.
-/
namespace Relay.Json

/-- Decimals have at most so many digits before the point. -/
def mostWholeDigits : Int := 16

/-- Decimals have fewer zeros between the point and their first digit. -/
def mostLeadingZeros : Int := 5

/-- A decimal with a point, or with an exponent if it is long without one. -/
def decimalText (digits : String) (exponent : Int) : String :=
  let whole : Int := digits.length + exponent
  if mostWholeDigits < whole || whole ≤ -mostLeadingZeros then
    let fraction := digits.toList.drop 1
    let point := if fraction.isEmpty then [] else ['.']
    String.ofList (digits.toList.take 1 ++ point ++ fraction) ++ "e" ++ toString (whole - 1)
  else if exponent < 0 then Double.pointed digits exponent.natAbs
  else digits ++ Double.zeros exponent.natAbs ++ ".0"

def isWordOrLong (n : Int) : Bool := Int64.minValue.toInt ≤ n && n < UInt64.size

/-- The text of a number in the normal form. -/
def normalNumber (t : List Char) : List Char :=
  if (int? (.number t)).any isWordOrLong then t
  else
    match Double.read? (String.ofList t) with
    | some (.finite negative m e) =>
      let (digits, exponent) := Double.shortest m e
      (Double.signText negative ++ decimalText (toString digits) exponent).toList
    | _ => t

/-- A string with no more escapes than it needs. -/
def normalRaw (raw : Bytes) : Bytes := ((decode? raw).map encode).getD raw

mutual

def normal : Json → Json
  | .number t => .number (normalNumber t)
  | .string raw => .string (normalRaw raw)
  | .array xs => .array (normalItems xs)
  | .object es => .object (normalEntries es)
  | j => j

def normalItems : List Json → List Json
  | [] => []
  | x :: xs => normal x :: normalItems xs

def normalEntries : List (Bytes × Json) → List (Bytes × Json)
  | [] => []
  | (k, v) :: es => (normalRaw k, normal v) :: normalEntries es

end

end Relay.Json
