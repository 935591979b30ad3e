import Relay.Config.Apply
/-!
# Error codes

A code names the cause of a failure for machines: the part that failed and what went wrong in
it, with a point between them. A failure that wraps another one takes over its code, after the
name of the wrapping part where that part is one of its own.
-/
namespace Relay

def StoreError.code : StoreError → String
  | .resourceNotFound _ => "Store.ResourceNotFound"
  | .database => "Store.Database"
  | .backend _ => "Store.Backend"

def ChunkError.code : ChunkError → String
  | .missingHeader _ => "Chunk.MissingHeader"
  | .invalidHeader .. => "Chunk.InvalidHeader"
  | .indexOutOfRange .. => "Chunk.IndexOutOfRange"
  | .store e => "Chunk." ++ e.code

def EnvelopeError.code : EnvelopeError → String
  | .missingMessageId _ => "Envelope.MissingMessageId"

def SerializationError.code : SerializationError → String
  | .unknownType _ => "Serialization.UnknownType"
  | .missingTypeHeader => "Serialization.MissingTypeHeader"
  | .json => "Serialization.Json"

def CipherError.code (_ : CipherError) : String := "Cipher"

/-- Failures worth retrying are marked. -/
def TransportError.code : TransportError → String
  | .connection _ => "Transport.Connection.transient"
  | .produce _ => "Transport.Produce"
  | .consume _ => "Transport.Consume"
  | .acknowledge _ => "Transport.Acknowledge"

def ProduceError.code : ProduceError → String
  | .serialization e => "Produce." ++ e.code
  | .cipher e => "Produce." ++ e.code
  | .transport e => "Produce." ++ e.code

def PublishError.code : PublishError → String
  | .configuration (.noResolver ..) => "Publish.NoResolver"
  | .configuration (.unresolvedTarget ..) => "Publish.UnresolvedTarget"
  | .handler .. => "Publish.Handler"
  | .handlerPanicked _ => "Publish.HandlerPanicked"
  | .wrongKind .. => "Publish.WrongKind"
  | .produce _ e => "Publish." ++ e.code
  | .behavior _ => "Publish.Behavior"
  | .runtime _ => "Publish.Runtime"

/-- The inbound pipeline adds nothing to the codes of what it wraps. -/
def InboundError.code : InboundError → String
  | .envelope e => e.code
  | .chunk e => e.code
  | .store e => e.code
  | .serialization e => e.code
  | .cipher e => e.code
  | .dispatch e => e.code
  | .behavior _ => "Behavior"

def PolicyError.code : PolicyError → String
  | .emptyChain => "Policy.EmptyChain"
  | .notLast _ => "Policy.NotLast"
  | .zeroAttempts => "Policy.ZeroAttempts"

def BrokerError.code : BrokerError → String
  | .alreadyConnected _ => "Broker.AlreadyConnected"
  | .publisherNotBound => "Broker.PublisherNotBound"
  | .publisherAlreadyBound => "Broker.PublisherAlreadyBound"
  | .policy e => "Broker." ++ e.code
  | .transport e => "Broker." ++ e.code

def ConfigError.code : ConfigError → String
  | .policy e => "Config." ++ e.code
  | .broker e => "Config." ++ e.code

end Relay
