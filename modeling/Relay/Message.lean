import Relay.Envelope
import Relay.Record
/-!
# Messages

A message is a record or an envelope around another message. An inbound envelope carries a
received message, deserialized or not; an outbound envelope is addressed to an endpoint and
has the kinds of what it carries.

`MessageType` selects messages: exactly one type, a kind, any envelope, or everything.
-/
namespace Relay

inductive Message
  | record (r : Record)
  | inbound (raw : RawEnvelope) (message : Option Message) (autoUnwrap : Bool)
  | outbound (message : Message) (headers : Headers) (endpoint : Endpoint) (autoUnwrap : Bool)

/-- The concrete type of a message. -/
inductive TypeId
  | record (t : RecordType)
  | inbound
  | outbound
  deriving DecidableEq, Repr

def TypeId.name : TypeId → String
  | .record t => t.name
  | .inbound => "courier::messages::envelope::InboundEnvelope"
  | .outbound => "courier::messages::envelope::OutboundEnvelope"

namespace Message

def typeId : Message → TypeId
  | .record r => .record r.type
  | .inbound .. => .inbound
  | .outbound .. => .outbound

def typeName (m : Message) : String := m.typeId.name

def kinds : Message → List Kind
  | .record r => r.type.kinds
  | .inbound .. => []
  | .outbound m .. => m.kinds

def hasKind (m : Message) (k : Kind) : Bool := m.kinds.contains k

def isEnvelope : Message → Bool
  | .record _ => false
  | _ => true

/-- What a subscriber that does not ask for envelopes sees of a message: the message itself,
or what an envelope to be unwrapped carries. -/
def unwrap : Message → Option Message
  | .record r => some (.record r)
  | .inbound _ m true => m
  | .outbound m _ _ true => some m
  | .inbound _ _ false => none
  | .outbound _ _ _ false => none

end Message

inductive MessageType
  | exact (id : TypeId)
  | kind (k : Kind)
  | envelope
  | any
  deriving DecidableEq, Repr

namespace MessageType

def matchesMessage : MessageType → Message → Bool
  | .exact id, m => m.typeId == id
  | .kind k, m => m.hasKind k
  | .envelope, m => m.isEnvelope
  | .any, _ => true

/-- Whether a subscriber to this type wants envelopes as they are. -/
def isEnvelope : MessageType → Bool
  | .envelope => true
  | .exact .inbound => true
  | .exact .outbound => true
  | _ => false

def display : MessageType → String
  | .exact id => id.name
  | .kind k => k.name
  | .envelope => "Envelope"
  | .any => "Any"

end MessageType

end Relay
