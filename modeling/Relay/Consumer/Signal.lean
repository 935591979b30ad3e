/-!
# Cancellation

The signal that asks a worker to stop. Waiting for it ends once for each time it is raised, and
at once, every time, when nobody is left who could raise it.
-/
namespace Relay

structure Signal where
  raised : Bool := false
  /-- The raising has been noticed by a wait. -/
  seen : Bool := false
  /-- Nobody is left to raise it. -/
  abandoned : Bool := false
  deriving DecidableEq, Repr

namespace Signal

def raise (s : Signal) : Signal := { s with raised := true }

def abandon (s : Signal) : Signal := { s with abandoned := true }

/-- The signal after a wait for it that ends now, nothing while the wait goes on. -/
def changed? (s : Signal) : Option Signal :=
  if s.raised && !s.seen then some { s with seen := true }
  else if s.abandoned then some s
  else none

end Signal

end Relay
