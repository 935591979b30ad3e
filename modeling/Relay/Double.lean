import Relay.Numeral
/-!
# Binary floating point

Numbers of 53 binary digits, kept exactly: a finite one is a sign and an integer times a power
of two. A decimal text stands for the nearest number, a tie for the one with the even integer.
A number is written with the fewest digits that stand for it, and among those with the nearest.
-/
namespace Relay

inductive Double
  /-- The number `significand * 2 ^ exponent` under a sign. -/
  | finite (negative : Bool) (significand : Nat) (exponent : Int)
  | infinite (negative : Bool)
  | nan
  deriving DecidableEq, Repr, Inhabited

namespace Double

/-- Binary digits of a significand. -/
def precision : Nat := 53

def minExponent : Int := -1074
def maxExponent : Int := 971

/-- The least integer that no significand reaches. -/
def significandLimit : Nat := 1 <<< precision

def zero (negative : Bool) : Double := .finite negative 0 minExponent

/-! ## Rounding -/

/-- The integer nearest to a quotient, of two the even one. -/
def roundEven (n d : Nat) : Nat :=
  let q := n / d
  let r := 2 * (n % d)
  if d < r || (d == r && q % 2 == 1) then q + 1 else q

/-- The quotient `n / d` divided by a power of two, as a fraction. -/
def descale (n d : Nat) (e : Int) : Nat × Nat :=
  if e < 0 then (n <<< e.natAbs, d) else (n, d <<< e.natAbs)

/-- The exponent under which the significand of a quotient has all its digits, or the least. -/
def exponentOf (n d : Nat) : Int :=
  let e : Int := (n.log2 : Int) - d.log2 - precision
  let (a, b) := descale n d e
  max minExponent (if a / b < significandLimit then e else e + 1)

/-- A rounded significand, which may have grown by a digit. -/
def ofRounded (negative : Bool) (m : Nat) (e : Int) : Double :=
  let (m, e) := if m < significandLimit then (m, e) else (m / 2, e + 1)
  if maxExponent < e then .infinite negative else .finite negative m e

/-- The number nearest to `n / d`. -/
def ofRatio (negative : Bool) (n d : Nat) : Double :=
  if n = 0 then zero negative
  else
    let e := exponentOf n d
    let (a, b) := descale n d e
    ofRounded negative (roundEven a b) e

/-- Decimals of so many digits before the point are beyond all numbers. -/
def largestSize : Int := 310

/-- Decimals whose digits begin so far behind the point are nearest to zero. -/
def smallestSize : Int := -330

/-- The number nearest to `digits * 10 ^ exponent`. -/
def ofDecimal (negative : Bool) (digits : Nat) (exponent : Int) : Double :=
  let size : Int := (toString digits).length + exponent
  if digits = 0 || size < smallestSize then zero negative
  else if largestSize < size then .infinite negative
  else if exponent < 0 then ofRatio negative digits (Nat.pow 10 exponent.natAbs)
  else ofRatio negative (digits * Nat.pow 10 exponent.natAbs) 1

/-! ## Reading -/

def natOfDigits (ds : List Char) : Nat := ds.foldl (fun n c => 10 * n + (c.toNat - 48)) 0

/-- An exponent in decimal; digits after the fifth or so tell nothing more. -/
def exponentOfDigits (ds : List Char) : Nat :=
  ds.foldl (fun n c => if n < 65536 then 10 * n + (c.toNat - 48) else n) 0

def unsignedExponent? (ds : List Char) : Option Nat :=
  if ds.isEmpty || !ds.all Char.isDigit then none else some (exponentOfDigits ds)

def exponent? : List Char → Option Int
  | '+' :: ds => (unsignedExponent? ds).map Int.ofNat
  | '-' :: ds => (unsignedExponent? ds).map fun n => -Int.ofNat n
  | ds => (unsignedExponent? ds).map Int.ofNat

/-- The digits behind a point, and what follows them. -/
def fraction : List Char → List Char × List Char
  | '.' :: cs => cs.span Char.isDigit
  | cs => ([], cs)

/-- Digits, a point among them or not, and an exponent or not. -/
def decimal? (negative : Bool) (cs : List Char) : Option Double :=
  let (whole, cs) := cs.span Char.isDigit
  let (part, cs) := fraction cs
  let value (e : Int) := ofDecimal negative (natOfDigits (whole ++ part)) (e - part.length)
  if whole.isEmpty && part.isEmpty then none
  else
    match cs with
    | [] => some (value 0)
    | c :: cs => if c == 'e' || c == 'E' then (exponent? cs).map value else none

def unsigned? (negative : Bool) (cs : List Char) : Option Double :=
  let word := String.ofList (cs.map Char.toLower)
  if word == "inf" || word == "infinity" then some (.infinite negative)
  else if word == "nan" then some .nan
  else decimal? negative cs

/-- The number a text stands for: a decimal or a word for infinity or no number, with a sign or
without. -/
def read? (s : String) : Option Double :=
  match s.toList with
  | '-' :: cs => unsigned? true cs
  | '+' :: cs => unsigned? false cs
  | cs => unsigned? false cs

/-! ## Shortest decimals -/

/-- The fraction `2 ^ e / 10 ^ k`. -/
def gridUnit (e k : Int) : Nat × Nat :=
  let (n, d) := if e < 0 then (1, 1 <<< e.natAbs) else (1 <<< e.natAbs, 1)
  if k < 0 then (n * Nat.pow 10 k.natAbs, d) else (n, d * Nat.pow 10 k.natAbs)

/-- The multiple of `10 ^ k` nearest to a number, of two the upper one, if there is one that
rounds to the number. The reals that do lie around it to half the distance of its neighbours,
the ends included if the significand is even. -/
def onGrid? (m : Nat) (e k : Int) : Option Nat :=
  let (n, d) := gridUnit (e - 2) k
  let low := if 2 * m == significandLimit && minExponent < e then 4 * m - 1 else 4 * m - 2
  let rounds (q : Nat) : Bool :=
    if m % 2 == 0 then low * n ≤ q * d && q * d ≤ (4 * m + 2) * n
    else low * n < q * d && q * d < (4 * m + 2) * n
  let q := 4 * m * n / d
  match rounds q, rounds (q + 1) with
  | true, true => if 2 * (4 * m * n % d) < d then some q else some (q + 1)
  | true, false => some q
  | false, true => some (q + 1)
  | false, false => none

/-- The first of the coarser grids, the coarsest first, with a decimal for the number. -/
def searchGrids (m : Nat) (e : Int) : Nat → Nat × Int
  | 0 => (0, 0)
  | i + 1 =>
    let k : Int := (i : Int) + smallestSize
    match onGrid? m e k with
    | some q => (q, k)
    | none => searchGrids m e i

/-- The shortest decimal `digits * 10 ^ exponent` that stands for a finite number. -/
def shortest (m : Nat) (e : Int) : Nat × Int :=
  if m = 0 then (0, 0) else searchGrids m e (largestSize - smallestSize).toNat

/-! ## Writing -/

def zeros (n : Nat) : String := String.ofList (List.replicate n '0')

/-- Digits with the point so many places from their end. -/
def pointed (digits : String) (places : Nat) : String :=
  let cs := digits.toList
  if places < cs.length then
    String.ofList (cs.take (cs.length - places)) ++ "." ++
      String.ofList (cs.drop (cs.length - places))
  else "0." ++ zeros (places - cs.length) ++ digits

/-- A decimal in positional form, without a point where there is no fraction. -/
def positional (digits : String) (exponent : Int) : String :=
  if exponent < 0 then pointed digits exponent.natAbs else digits ++ zeros exponent.natAbs

def signText (negative : Bool) : String := if negative then "-" else ""

/-- The text of a number, always in positional form. -/
def toText : Double → String
  | .nan => "NaN"
  | .infinite negative => signText negative ++ "inf"
  | .finite negative m e =>
    let (digits, exponent) := shortest m e
    signText negative ++ positional (toString digits) exponent

/-! ## Integers -/

/-- The nearest integer of 64 bits, a half rounding up; nothing is below zero. -/
def toWord : Double → Nat
  | .finite false m e =>
    let n := if e < 0 then (2 * m + 1 <<< e.natAbs) >>> (e.natAbs + 1) else m <<< e.natAbs
    min n (UInt64.size - 1)
  | .infinite false => UInt64.size - 1
  | _ => 0

end Double

end Relay
