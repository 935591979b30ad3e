import Relay.Subscriber
/-!
# Argument resolution

The resolver of a message parameter says which messages the parameter takes and how they are
spread over calls; the resolver of a further parameter finds its value. The resolver added last
that can resolve a parameter is the one that does.
-/
namespace Relay

structure MessageResolver where
  canResolve : Parameter → Bool
  messageType : Parameter → MessageType
  /-- One entry a call. -/
  arguments : List Message → List Argument

structure FurtherResolver where
  canResolve : Parameter → Bool
  value : Parameter → Components → Option Value

namespace MessageResolver

/-- Any message-shaped parameter, one call a message. -/
def single : MessageResolver where
  canResolve p := match p with | .message _ => true | .messages _ => true | _ => false
  messageType p := match p with | .message t => t | .messages t => t | _ => .any
  arguments ms := ms.map .single

/-- Sequence parameters, one call with every matching message. -/
def sequence : MessageResolver where
  canResolve p := match p with | .messages _ => true | _ => false
  messageType p := match p with | .messages t => t | _ => .any
  arguments ms := [.batch ms]

end MessageResolver

/-- Service parameters, from the components. -/
def FurtherResolver.service : FurtherResolver where
  canResolve p := match p with | .service _ => true | _ => false
  value p cs := match p with | .service t => cs.resolve t | _ => none

/-- Resolvers in the order they were added. -/
structure Resolvers where
  message : List MessageResolver := []
  further : List FurtherResolver := []

namespace Resolvers

def empty : Resolvers := {}

def standard : Resolvers := ⟨[.single, .sequence], [.service]⟩

def messageResolver (r : Resolvers) (method : String) (p : Parameter) :
    Except ConfigurationError MessageResolver :=
  match r.message.reverse.find? fun x => x.canResolve p with
  | some x => .ok x
  | none => .error (.noResolver method p.display)

/-- The values of the further parameters in declared order. -/
def furtherArguments (r : Resolvers) (method : String) (cs : Components) :
    List Parameter → Except ConfigurationError (List (Option Value))
  | [] => .ok []
  | p :: ps =>
    match r.further.reverse.find? fun x => x.canResolve p with
    | none => .error (.noResolver method p.display)
    | some x => (furtherArguments r method cs ps).map (x.value p cs :: ·)

end Resolvers

end Relay
