import Relay.Message
/-!
# Wire names

The registry maps record types to the names written on the wire. A type keeps the name it was
last registered under; a name stands for the type it was last registered for. Writing a message
goes through both maps and fails unless they agree, reading goes through the second.

How the messages of a type take and leave their payloads is the application's matter (`Codec`), and
a codec can refuse a message as well as a payload. Unless given, it is the JSON form of the records,
which refuses none of them.
-/
namespace Relay

inductive SerializationError
  | unknownType (name : String)
  | missingTypeHeader
  | json
  deriving DecidableEq, Repr

def SerializationError.message : SerializationError → String
  | .unknownType n => "Message type " ++ n ++ " is not registered"
  | .missingTypeHeader => "Missing " ++ Headers.messageType ++ " header"
  | .json => "JSON error"

/-- The value last put under a key of an association list. -/
def lookupKey {α β : Type} [DecidableEq α] (a : α) : List (α × β) → Option β
  | [] => none
  | e :: rest => if e.1 = a then some e.2 else lookupKey a rest

/-- How the messages of a type become payloads, and payloads messages of the type. -/
structure Codec (t : RecordType) where
  encode : Values t.fields → Option Bytes
  decode : Bytes → Option (Values t.fields)

namespace Codec

def json (t : RecordType) : Codec t where
  encode vs := some (Record.encode ⟨t, vs⟩)
  decode := Record.decode? t

variable {t : RecordType}

/-- The payload of a message. A message of another type is refused. -/
def write (c : Codec t) : Message → Except SerializationError Bytes
  | .record v =>
    match v.as? t with
    | none => .error (.unknownType v.type.name)
    | some vs =>
      match c.encode vs with
      | none => .error .json
      | some payload => .ok payload
  | m => .error (.unknownType m.typeName)

def read (c : Codec t) (payload : Bytes) : Except SerializationError Message :=
  match c.decode payload with
  | none => .error .json
  | some vs => .ok (.record ⟨t, vs⟩)

end Codec

structure Registry where
  /-- Types by wire name, the latest registration first. -/
  types : List (String × RecordType) := []
  /-- Wire names by type, the latest registration first. -/
  names : List (RecordType × String) := []
  codec : (t : RecordType) → Codec t := Codec.json

namespace Registry

def empty : Registry := {}

def register (r : Registry) (t : RecordType) (name : String) : Registry :=
  { r with types := (name, t) :: r.types, names := (t, name) :: r.names }

def ofList (es : List (RecordType × String)) (codec : (t : RecordType) → Codec t := Codec.json) :
    Registry :=
  es.foldl (fun r e => r.register e.1 e.2) { codec }

def nameOf (r : Registry) : Message → Option String
  | .record m => lookupKey m.type r.names
  | _ => none

def typeOf (r : Registry) (name : String) : Option RecordType := lookupKey name r.types

/-- Writes a message under headers: its payload comes out, its wire name goes into them. -/
def write (r : Registry) (m : Message) : EStateM SerializationError Headers Bytes := do
  match r.nameOf m with
  | none => throw (.unknownType m.typeName)
  | some name =>
    match r.typeOf name with
    | none => throw (.unknownType name)
    | some t =>
      match (r.codec t).write m with
      | .error e => throw e
      | .ok payload =>
        modify fun h => h.insert Headers.messageType name
        return payload

/-- The payload of a message, with its wire name recorded in the headers. -/
def serialize (r : Registry) (m : Message) (h : Headers) :
    Except SerializationError (Bytes × Headers) :=
  match r.write m h with
  | .ok payload h => .ok (payload, h)
  | .error e _ => .error e

/-- The message in a payload, of the type its headers name. -/
def deserialize (r : Registry) (payload : Bytes) (h : Headers) :
    Except SerializationError Message :=
  match h.get? Headers.messageType with
  | none => .error .missingTypeHeader
  | some name =>
    match r.typeOf name with
    | none => .error (.unknownType name)
    | some t => (r.codec t).read payload

end Registry

/-! ## Encryption -/

structure CipherError where
  reason : String
  deriving DecidableEq, Repr

def CipherError.message (e : CipherError) : String := "Cipher error: " ++ e.reason

/-- Payload encryption applied after serialization. Encrypting may write headers. -/
structure Cipher where
  encrypt : Bytes → Headers → Except CipherError (Bytes × Headers)
  decrypt : Bytes → Headers → Except CipherError Bytes

/-- How messages take and leave their wire form. -/
structure Wire where
  registry : Registry
  cipher : Option Cipher := none

end Relay
