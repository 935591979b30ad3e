import Relay.Bytes
import Relay.Endpoint
import Relay.Headers
/-!
# Raw messages

What a transport delivers, and the raw envelope made of it once its message id is known. The
id of an envelope is fixed when it is made; later changes of the headers leave it alone.
-/
namespace Relay

/-- A message as delivered by the transport. -/
structure RawMessage where
  payload : Bytes
  headers : Headers
  /-- Transport position, used to acknowledge the message. -/
  offset : Option String
  deriving DecidableEq, Repr

inductive EnvelopeError
  | missingMessageId (endpoint : String)
  deriving DecidableEq, Repr

def EnvelopeError.message : EnvelopeError → String
  | .missingMessageId e =>
    "Inbound message on '" ++ e ++ "' has no " ++ Headers.messageId ++ " header"

/-- Bytes received on an endpoint, before deserialization. -/
structure RawEnvelope where
  payload : Bytes
  headers : Headers
  endpoint : Endpoint
  offset : Option String
  messageId : String
  deriving DecidableEq, Repr

namespace RawEnvelope

/-- The envelope of a message received on an endpoint; fails without a message id. -/
def ofMessage (endpoint : Endpoint) (m : RawMessage) : Except EnvelopeError RawEnvelope :=
  match m.headers.get? Headers.messageId with
  | some id => .ok ⟨m.payload, m.headers, endpoint, m.offset, id⟩
  | none => .error (.missingMessageId endpoint.name)

end RawEnvelope

end Relay
