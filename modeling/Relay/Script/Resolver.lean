import Relay.Resolver
/-!
# Further resolvers

Resolvers beyond the standard ones: some spread messages over calls in a way of their own, some
answer for parameters that nothing else understands.
-/
namespace Relay.Script

namespace Resolver

def isMessage : Parameter → Bool
  | .message _ => true
  | _ => false

def isSequence : Parameter → Bool
  | .messages _ => true
  | _ => false

def isCustom : Parameter → Bool
  | .custom _ => true
  | _ => false

def isService : Parameter → Bool
  | .service _ => true
  | _ => false

/-- The message type of a parameter, any type for one that names none. -/
def typeOf : Parameter → MessageType
  | .message t => t
  | .messages t => t
  | _ => .any

/-- Two calls for every message. -/
def doubling : MessageResolver where
  canResolve := isMessage
  messageType := typeOf
  arguments ms := ms.flatMap fun m => [.single m, .single m]

/-- No call at all. -/
def never : MessageResolver where
  canResolve := isMessage
  messageType := typeOf
  arguments _ := []

/-- One call for every message of a sequence. -/
def splitting : MessageResolver where
  canResolve := isSequence
  messageType := typeOf
  arguments ms := ms.map .single

/-- Custom parameters, one call for every message. -/
def custom : MessageResolver where
  canResolve := isCustom
  messageType _ := .any
  arguments ms := ms.map .single

/-- The time of the day, which is always the same. -/
def clock : FurtherResolver where
  canResolve p := p = .custom "clock"
  value _ _ := some (.text "noon")

/-- The number seven for every service. -/
def seven : FurtherResolver where
  canResolve := isService
  value _ _ := some (.number 7)

/-- No value for every parameter. -/
def nothing : FurtherResolver where
  canResolve _ := true
  value _ _ := none

end Resolver

end Relay.Script
