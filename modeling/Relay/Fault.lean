import Relay.Store
/-!
# Failures on demand

A plan of failures for the calls a broker makes to its stores and its transport. The first rule
with calls left that matches a call decides it; a rule may also let its calls pass, so the rules
for a call can script every pattern of failures.
-/
namespace Relay

/-- The calls that can be made to fail. -/
inductive Site
  | logExists
  | logAppend
  | chunksCount
  | chunksGet
  | chunksStore
  | chunksCleanup
  | produce
  | subscribe
  | acknowledge
  deriving DecidableEq, Repr

def Site.name : Site → String
  | .logExists => "log.exists"
  | .logAppend => "log.append"
  | .chunksCount => "chunks.count"
  | .chunksGet => "chunks.get"
  | .chunksStore => "chunks.store"
  | .chunksCleanup => "chunks.cleanup"
  | .produce => "produce"
  | .subscribe => "subscribe"
  | .acknowledge => "acknowledge"

/-- Transport-level failures. -/
inductive TransportError
  | connection (reason : String)
  | produce (reason : String)
  | consume (reason : String)
  | acknowledge (reason : String)
  deriving DecidableEq, Repr

namespace TransportError

def message : TransportError → String
  | .connection r => "Connection failed: " ++ r
  | .produce r => "Produce failed: " ++ r
  | .consume r => "Consume failed: " ++ r
  | .acknowledge r => "Acknowledge failed: " ++ r

/-- Connection failures are worth retrying. -/
def isTransient : TransportError → Bool
  | .connection _ => true
  | _ => false

end TransportError

/-- What a rule makes of a call. -/
inductive Failure
  /-- The call goes through. -/
  | pass
  | notFound
  | connection
  | produce
  | consume
  /-- Any other failure: of a store its backend's, of the transport an acknowledgement's. -/
  | other
  deriving DecidableEq, Repr

structure Rule where
  site : Site
  failure : Failure
  /-- Calls left, unlimited without a number. -/
  left : Option Nat := none
  /-- The only key the rule applies to, if it names one. -/
  only : Option String := none
  deriving DecidableEq, Repr

namespace Rule

def applies (r : Rule) (site : Site) (key : String) : Bool :=
  r.site == site && r.left != some 0 && (r.only == none || r.only == some key)

/-- The rule after it has decided a call. -/
def used (r : Rule) : Rule := { r with left := r.left.map (· - 1) }

end Rule

namespace Failure

def asStore (site : Site) : Failure → Option StoreError
  | .pass => none
  | .notFound => some (.resourceNotFound ("table behind " ++ site.name))
  | _ => some (.backend (site.name ++ " failed"))

def asTransport (site : Site) (key : String) : Failure → Option TransportError
  | .pass => none
  | .connection => some (.connection (site.name ++ " failed for " ++ key))
  | .produce => some (.produce (site.name ++ " failed for " ++ key))
  | .consume => some (.consume (site.name ++ " failed for " ++ key))
  | _ => some (.acknowledge (site.name ++ " failed for " ++ key))

end Failure

/-- What becomes of a call, and the rules afterwards. -/
def strike (site : Site) (key : String) : List Rule → Failure × List Rule
  | [] => (.pass, [])
  | r :: rs =>
    if r.applies site key then (r.failure, r.used :: rs)
    else
      let (f, rs) := strike site key rs
      (f, r :: rs)

end Relay
