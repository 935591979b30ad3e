import Relay.Producer
/-!
# Failures of a publish
-/
namespace Relay

/-- Invalid subscriber configuration, detected at dispatch. -/
inductive ConfigurationError
  | noResolver (method parameter : String)
  | unresolvedTarget (method component : String)
  deriving DecidableEq, Repr

def ConfigurationError.message : ConfigurationError → String
  | .noResolver m p => "No resolver for parameter '" ++ p ++ "' of subscriber '" ++ m ++ "'"
  | .unresolvedTarget m c => "Component " ++ c ++ " for subscriber '" ++ m ++ "' is not registered"

inductive PublishError
  | configuration (e : ConfigurationError)
  | handler (method reason : String)
  | handlerPanicked (method : String)
  | wrongKind (typeName : String) (expected : Kind)
  | produce (endpoint : String) (e : ProduceError)
  | behavior (reason : String)
  | runtime (reason : String)
  deriving DecidableEq, Repr

def PublishError.message : PublishError → String
  | .configuration e => e.message
  | .handler m r => "Subscriber '" ++ m ++ "' failed: " ++ r
  | .handlerPanicked m => "Subscriber '" ++ m ++ "' panicked"
  | .wrongKind t k => t ++ " is not a " ++ k.name
  | .produce e p => "Producing to '" ++ e ++ "' failed: " ++ p.message
  | .behavior r => "Behavior failed: " ++ r
  | .runtime r => "Blocking publish failed: " ++ r

end Relay
