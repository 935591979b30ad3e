import Relay.Json
/-!
# Reading JSON texts

A strict reader: no comments, no trailing commas, no byte order mark, no leading zeros or plus
signs, and nothing but blanks after the value. Strings are checked for form alone (no raw
control characters, complete escapes); what they stand for is `Json.decode?`'s matter.
-/
namespace Relay.Json

def isBlank (b : UInt8) : Bool := b == 0x20 || b == 0x09 || b == 0x0A || b == 0x0D

def skipBlanks : Bytes → Bytes
  | b :: rest => if isBlank b then skipBlanks rest else b :: rest
  | [] => []

def isDigit (b : UInt8) : Bool := 0x30 ≤ b && b ≤ 0x39

/-! ## Strings -/

/-- The raw string up to the closing quote, and what follows it. `seen` holds the bytes read
so far, last first. -/
def rawString (seen : Bytes) : Bytes → Option (Bytes × Bytes)
  | [] => none
  | 0x22 :: rest => some (seen.reverse, rest)
  | 0x5C :: 0x75 :: a :: b :: c :: d :: rest =>
    match hex4? a b c d with
    | some _ => rawString (d :: c :: b :: a :: 0x75 :: 0x5C :: seen) rest
    | none => none
  | 0x5C :: c :: rest =>
    match shortEscape? c with
    | some _ => rawString (c :: 0x5C :: seen) rest
    | none => none
  | b :: rest => if b < 0x20 || b == 0x5C then none else rawString (b :: seen) rest

/-! ## Numbers -/

def charOf (b : UInt8) : Char := Char.ofNat b.toNat

/-- One or more digits. -/
def digits1 (b : Bytes) : Option (Bytes × Bytes) :=
  match b.span isDigit with
  | ([], _) => none
  | r => some r

def integerPart : Bytes → Option (Bytes × Bytes)
  | 0x30 :: rest => some ([0x30], rest)
  | b => digits1 b

def fractionPart : Bytes → Option (Bytes × Bytes)
  | 0x2E :: rest => (digits1 rest).map fun r => (0x2E :: r.1, r.2)
  | b => some ([], b)

def exponentSign : Bytes → Bytes × Bytes
  | 0x2B :: rest => ([0x2B], rest)
  | 0x2D :: rest => ([0x2D], rest)
  | b => ([], b)

def exponentPart : Bytes → Option (Bytes × Bytes)
  | e :: rest =>
    if e == 0x65 || e == 0x45 then
      let (sign, rest) := exponentSign rest
      (digits1 rest).map fun r => (e :: (sign ++ r.1), r.2)
    else some ([], e :: rest)
  | [] => some ([], [])

def unsigned (b : Bytes) : Option (Bytes × Bytes) := do
  let (whole, b) ← integerPart b
  let (fraction, b) ← fractionPart b
  let (exponent, b) ← exponentPart b
  return (whole ++ fraction ++ exponent, b)

def numberText : Bytes → Option (Bytes × Bytes)
  | 0x2D :: rest => (unsigned rest).map fun r => (0x2D :: r.1, r.2)
  | b => unsigned b

def numberValue (b : Bytes) : Option (Json × Bytes) :=
  (numberText b).map fun r => (.number (r.1.map charOf), r.2)

/-! ## Values -/

/-- The rest after a fixed word. -/
def word (w : Bytes) (b : Bytes) : Option Bytes :=
  if w.isPrefixOf b then some (b.drop w.length) else none

mutual

/-- A value at the front. Of two calls in a row at least one takes a byte, so fuel for twice
the number of bytes never runs out. -/
def value : Nat → Bytes → Option (Json × Bytes)
  | 0, _ => none
  | fuel + 1, b =>
    match skipBlanks b with
    | 0x22 :: rest => (rawString [] rest).map fun r => (.string r.1, r.2)
    | 0x5B :: rest =>
      match skipBlanks rest with
      | 0x5D :: rest => some (.array [], rest)
      | rest => (items fuel [] rest).map fun r => (.array r.1, r.2)
    | 0x7B :: rest =>
      match skipBlanks rest with
      | 0x7D :: rest => some (.object [], rest)
      | rest => (members fuel [] rest).map fun r => (.object r.1, r.2)
    | 0x6E :: rest => (word [0x75, 0x6C, 0x6C] rest).map (.null, ·)
    | 0x74 :: rest => (word [0x72, 0x75, 0x65] rest).map (.bool true, ·)
    | 0x66 :: rest => (word [0x61, 0x6C, 0x73, 0x65] rest).map (.bool false, ·)
    | b => numberValue b

/-- The items up to the closing bracket, after those in `seen`, last first. -/
def items : Nat → List Json → Bytes → Option (List Json × Bytes)
  | 0, _, _ => none
  | fuel + 1, seen, b =>
    match value fuel b with
    | none => none
    | some (x, b) =>
      match skipBlanks b with
      | 0x2C :: rest => items fuel (x :: seen) rest
      | 0x5D :: rest => some ((x :: seen).reverse, rest)
      | _ => none

/-- The entries up to the closing brace, after those in `seen`, last first. -/
def members : Nat → List (Bytes × Json) → Bytes → Option (List (Bytes × Json) × Bytes)
  | 0, _, _ => none
  | fuel + 1, seen, b =>
    match skipBlanks b with
    | 0x22 :: rest =>
      match rawString [] rest with
      | none => none
      | some (k, b) =>
        match skipBlanks b with
        | 0x3A :: rest =>
          match value fuel rest with
          | none => none
          | some (v, b) =>
            match skipBlanks b with
            | 0x2C :: rest => members fuel ((k, v) :: seen) rest
            | 0x7D :: rest => some (((k, v) :: seen).reverse, rest)
            | _ => none
        | _ => none
    | _ => none

end

/-- The value that the bytes are a JSON text of. -/
def parse? (b : Bytes) : Option Json :=
  match value (2 * b.length + 2) b with
  | some (j, rest) => if (skipBlanks rest).isEmpty then some j else none
  | none => none

end Relay.Json
