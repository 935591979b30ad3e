import Relay.Message
/-!
# Numbered messages

Scripted parts tell messages apart by a number: the direct id of a record, the deep id of
whatever an envelope carries in the end. A template makes a new message from a number.
-/
namespace Relay

/-- The fields that hold the number of a record. -/
def numberFields : List String := ["id", "order"]

namespace Message

/-- The number of a record. -/
def directId : Message → Option Int
  | .record r => Values.int? numberFields r.type.fields r.values
  | _ => none

/-- The number of a record, also within envelopes. -/
def deepId : Message → Option Int
  | .record r => directId (.record r)
  | .inbound _ (some m) _ => deepId m
  | .inbound _ none _ => none
  | .outbound m _ _ _ => deepId m

end Message

namespace FieldType

/-- The value of a field made for a number. A text is the number, after the field's name where
the field is optional or a note. -/
def fill (name : String) (n : Nat) : (t : FieldType) → t.Value
  | .word => UInt32.ofNat n
  | .long => Int64.ofNat n
  | .text => if name == "text" then toString n else name ++ " " ++ toString n
  | .optionalText => some (name ++ " " ++ toString n)
  | .texts => []

end FieldType

def Values.fill (n : Nat) : (fs : List Field) → Values fs
  | [] => ()
  | f :: fs => (f.2.fill f.1 n, Values.fill n fs)

/-- The nearest number that a record of every type can hold. -/
def clampWord (n : Int) : Nat := min n.toNat (UInt32.size - 1)

namespace RecordType

/-- The record of the type made for a number. -/
def fill (t : RecordType) (n : Int) : Record := ⟨t, Values.fill (clampWord n) t.fields⟩

end RecordType

namespace Script

/-- How to make a message from the number of another. -/
structure Template where
  type : RecordType
  /-- Added to the number. -/
  delta : Int := 0
  /-- Only greater numbers make a message. -/
  above : Option Int := none
  /-- The endpoint the message is addressed to, if any. -/
  target : Option Endpoint := none

namespace Template

def make (t : Template) (n : Int) : Option Message :=
  let made := Message.record (t.type.fill (n + t.delta))
  if t.above.any fun limit => n ≤ limit then none
  else
    match t.target with
    | none => some made
    | some e => some (.outbound made .empty e true)

end Template

/-- The messages made from numbers, one number after the other. -/
def emit (ts : List Template) (ns : List Int) : List Message :=
  ns.flatMap fun n => ts.filterMap fun t => t.make n

/-- The numbers of messages that have one. -/
def deepIds (ms : List Message) : List Int := ms.filterMap Message.deepId

end Script

end Relay
