import Relay.Json.Parser
/-!
# Records

A record type has a name, the kinds it is tagged with and a list of fields in declared order;
a record of the type has one value for each field. The JSON form of a record is an object
with the fields in that order.

Reading is strict about the fields of the type (each at most once, an integer within the
range of its field, no conversions) and lets other names pass. A field that may be absent
reads as nothing when it is missing. The list of all values in declared order reads as a record
too.
-/
namespace Relay

/-- Capability tag of a message. -/
inductive Kind
  | command
  | event
  | query
  | request
  deriving DecidableEq, Repr

namespace Kind

def name : Kind → String
  | .command => "Command"
  | .event => "Event"
  | .query => "Query"
  | .request => "Request"

def all : List Kind := [.command, .event, .query, .request]

end Kind

inductive FieldType
  | word
  | long
  | text
  | optionalText
  | texts
  deriving DecidableEq, Repr

namespace FieldType

/-- What a field of the type holds. -/
abbrev Value : FieldType → Type
  | .word => UInt32
  | .long => Int64
  | .text => String
  | .optionalText => Option String
  | .texts => List String

/-- The value of a field that is not there. -/
def absent? : (t : FieldType) → Option t.Value
  | .optionalText => some none
  | _ => none

def read : (t : FieldType) → Json → Option t.Value
  | .word, j => (j.nat?).bind fun n => if n < UInt32.size then some (UInt32.ofNat n) else none
  | .long, j => (j.int?).bind fun n =>
    if Int64.minValue.toInt ≤ n ∧ n ≤ Int64.maxValue.toInt then some (Int64.ofInt n) else none
  | .text, j => j.text?
  | .optionalText, j => if j.isNull then some none else j.text?.map some
  | .texts, j => (j.items?).bind fun xs => xs.mapM Json.text?

def write : (t : FieldType) → t.Value → Json
  | .word, n => .ofNat n.toNat
  | .long, n => .ofInt n.toInt
  | .text, s => .ofString s
  | .optionalText, s => .ofOption .ofString s
  | .texts, xs => .array (xs.map .ofString)

/-- The integer a field holds, for the two numeric types. -/
def int? : (t : FieldType) → t.Value → Option Int
  | .word, n => some n.toNat
  | .long, n => some n.toInt
  | _, _ => none

end FieldType

abbrev Field := String × FieldType

/-- One value for each field of a list. -/
def Values : List Field → Type
  | [] => Unit
  | f :: fs => f.2.Value × Values fs

namespace Values

/-- The entries of the JSON object, in declared order. -/
def write : (fs : List Field) → Values fs → List (String × Json)
  | [], _ => []
  | f :: fs, (v, vs) => (f.1, f.2.write v) :: write fs vs

/-- The only entry of the name; `none` inside when there is no such entry. -/
def lookup (name : String) (es : List (String × Json)) : Option (Option Json) :=
  match es.filter fun e => e.1 == name with
  | [] => some none
  | [e] => some (some e.2)
  | _ => none

def read : (fs : List Field) → List (String × Json) → Option (Values fs)
  | [], _ => some ()
  | f :: fs, es => do
    let v ← match ← lookup f.1 es with
      | some j => f.2.read j
      | none => f.2.absent?
    let vs ← read fs es
    return (v, vs)

/-- The values listed in declared order, one for each field and none more. -/
def ofItems : (fs : List Field) → List Json → Option (Values fs)
  | [], [] => some ()
  | f :: fs, j :: js => do
    let v ← f.2.read j
    let vs ← ofItems fs js
    return (v, vs)
  | _, _ => none

def ofJson? (fs : List Field) : Json → Option (Values fs)
  | .array js => ofItems fs js
  | j => j.entries?.bind (read fs)

/-- The integer in the first field of one of the names. -/
def int? (names : List String) : (fs : List Field) → Values fs → Option Int
  | [], _ => none
  | f :: fs, (v, vs) => if f.1 ∈ names then f.2.int? v else int? names fs vs

end Values

structure RecordType where
  name : String
  kinds : List Kind
  fields : List Field
  deriving DecidableEq, Repr

structure Record where
  type : RecordType
  values : Values type.fields

namespace Record

def toJson (r : Record) : Json := .record (Values.write r.type.fields r.values)

def ofJson? (t : RecordType) (j : Json) : Option Record :=
  (Values.ofJson? t.fields j).map fun vs => ⟨t, vs⟩

/-- The JSON payload of a record. -/
def encode (r : Record) : Bytes := r.toJson.render

/-- The values of the record of the type that a payload holds. -/
def decode? (t : RecordType) (payload : Bytes) : Option (Values t.fields) :=
  (Json.parse? payload).bind (Values.ofJson? t.fields)

/-- The values of a record that is of the type. -/
def as? (r : Record) (t : RecordType) : Option (Values t.fields) :=
  if h : r.type = t then some (h ▸ r.values) else none

end Record

end Relay
