import Relay.Bytes
/-!
# JSON trees

A JSON value with its numbers and strings kept as they are written: a number is its text, a
string the bytes between its quotes. Reading a number as an integer or a string as a text is
a separate step, since a value that nobody reads need only be well formed. Objects keep their
entries in written order, repeated names included.
-/
namespace Relay

inductive Json
  | null
  | bool (b : Bool)
  | number (text : List Char)
  | string (raw : Bytes)
  | array (items : List Json)
  | object (entries : List (Bytes × Json))
  deriving Inhabited

namespace Json

/-! ## Strings -/

def hex4? (a b c d : UInt8) : Option Nat := do
  let a ← Bytes.hexValue? a.toNat
  let b ← Bytes.hexValue? b.toNat
  let c ← Bytes.hexValue? c.toNat
  let d ← Bytes.hexValue? d.toNat
  return 4096 * a + 256 * b + 16 * c + d

def isHighSurrogate (n : Nat) : Bool := 0xD800 ≤ n && n ≤ 0xDBFF
def isLowSurrogate (n : Nat) : Bool := 0xDC00 ≤ n && n ≤ 0xDFFF

/-- The UTF-8 form of a code point. -/
def utf8 (n : Nat) : Bytes := Bytes.ofString (String.singleton (Char.ofNat n))

/-- The character that a one-letter escape stands for. -/
def shortEscape? : UInt8 → Option UInt8
  | 0x22 => some 0x22
  | 0x5C => some 0x5C
  | 0x2F => some 0x2F
  | 0x62 => some 0x08
  | 0x66 => some 0x0C
  | 0x6E => some 0x0A
  | 0x72 => some 0x0D
  | 0x74 => some 0x09
  | _ => none

/-- Replaces the escapes by what they stand for; a surrogate counts only as one of a pair. -/
def unescape : Bytes → Option Bytes
  | [] => some []
  | 0x5C :: 0x75 :: a :: b :: c :: d :: rest =>
    match hex4? a b c d with
    | none => none
    | some n =>
      if isLowSurrogate n then none
      else if isHighSurrogate n then
        match rest with
        | 0x5C :: 0x75 :: e :: f :: g :: h :: rest =>
          match hex4? e f g h with
          | some m =>
            if isLowSurrogate m then
              (unescape rest).map
                (utf8 (0x10000 + 1024 * (n - 0xD800) + (m - 0xDC00)) ++ ·)
            else none
          | none => none
        | _ => none
      else (unescape rest).map (utf8 n ++ ·)
  | 0x5C :: c :: rest =>
    match shortEscape? c with
    | some x => (unescape rest).map (x :: ·)
    | none => none
  | x :: rest => (unescape rest).map (x :: ·)

/-- The text a raw string stands for. -/
def decode? (raw : Bytes) : Option String := (unescape raw).bind Bytes.text?

/-- How a byte of a text is written: quotes, backslashes and control characters are escaped,
all else stands for itself. -/
def escapeByte (b : UInt8) : Bytes :=
  if b = 0x22 then [0x5C, 0x22]
  else if b = 0x5C then [0x5C, 0x5C]
  else if b = 0x08 then [0x5C, 0x62]
  else if b = 0x09 then [0x5C, 0x74]
  else if b = 0x0A then [0x5C, 0x6E]
  else if b = 0x0C then [0x5C, 0x66]
  else if b = 0x0D then [0x5C, 0x72]
  else if b < 0x20 then
    Bytes.ofString "\\u00" ++
      Bytes.ofString (String.ofList [Bytes.hexDigit (b.toNat / 16), Bytes.hexDigit (b.toNat % 16)])
  else [b]

def encode (s : String) : Bytes := (Bytes.ofString s).flatMap escapeByte

/-! ## Building -/

def ofString (s : String) : Json := .string (encode s)

def ofInt (n : Int) : Json := .number (toString n).toList

def ofNat (n : Nat) : Json := .number (toString n).toList

def ofOption {α : Type} (f : α → Json) : Option α → Json
  | none => .null
  | some a => f a

/-- An object with the given names. -/
def record (entries : List (String × Json)) : Json :=
  .object (entries.map fun e => (encode e.1, e.2))

/-! ## Reading -/

def isNull : Json → Bool
  | .null => true
  | _ => false

def bool? : Json → Option Bool
  | .bool b => some b
  | _ => none

def text? : Json → Option String
  | .string raw => decode? raw
  | _ => none

def items? : Json → Option (List Json)
  | .array xs => some xs
  | _ => none

def natOfDigits (cs : List Char) : Option Nat :=
  if cs.all Char.isDigit then
    some (cs.foldl (fun n c => 10 * n + (c.toNat - 48)) 0)
  else none

/-- The integer that is written, if there is neither a fraction nor an exponent. A negative
zero is not an integer. -/
def int? : Json → Option Int
  | .number ['-', '0'] => none
  | .number ('-' :: cs) => (natOfDigits cs).map fun n => -Int.ofNat n
  | .number cs => (natOfDigits cs).map Int.ofNat
  | _ => none

def nat? (j : Json) : Option Nat :=
  match j.int? with
  | some (.ofNat n) => some n
  | _ => none

/-- The entries with their names read; fails if a name is no text. -/
def entries? : Json → Option (List (String × Json))
  | .object es => es.mapM fun e => (decode? e.1).map (·, e.2)
  | _ => none

/-- The first entry of the name. -/
def get? (j : Json) (name : String) : Option Json :=
  match j with
  | .object es => (es.find? fun e => decode? e.1 == some name).map Prod.snd
  | _ => none

mutual

/-- Nesting depth. -/
def depth : Json → Nat
  | .array xs => depthItems xs + 1
  | .object es => depthEntries es + 1
  | _ => 1

def depthItems : List Json → Nat
  | [] => 0
  | x :: xs => max (depth x) (depthItems xs)

def depthEntries : List (Bytes × Json) → Nat
  | [] => 0
  | (_, v) :: es => max (depth v) (depthEntries es)

end

/-! ## Writing -/

def quote (raw rest : Bytes) : Bytes := 0x22 :: (raw ++ 0x22 :: rest)

mutual

/-- The compact form followed by `rest`. -/
def write : Json → Bytes → Bytes
  | .null, rest => Bytes.ofString "null" ++ rest
  | .bool true, rest => Bytes.ofString "true" ++ rest
  | .bool false, rest => Bytes.ofString "false" ++ rest
  | .number t, rest => Bytes.ofString (String.ofList t) ++ rest
  | .string raw, rest => quote raw rest
  | .array xs, rest => 0x5B :: writeItems xs true (0x5D :: rest)
  | .object es, rest => 0x7B :: writeEntries es true (0x7D :: rest)

def writeItems : List Json → Bool → Bytes → Bytes
  | [], _, rest => rest
  | x :: xs, true, rest => write x (writeItems xs false rest)
  | x :: xs, false, rest => 0x2C :: write x (writeItems xs false rest)

def writeEntries : List (Bytes × Json) → Bool → Bytes → Bytes
  | [], _, rest => rest
  | (k, v) :: es, true, rest => quote k (0x3A :: write v (writeEntries es false rest))
  | (k, v) :: es, false, rest => 0x2C :: quote k (0x3A :: write v (writeEntries es false rest))

end

/-- The compact form. -/
def render (j : Json) : Bytes := write j []

/-- The compact form as a text, empty if a raw string in it is no UTF-8. -/
def compact (j : Json) : String := (Bytes.text? j.render).getD ""

end Json

end Relay
