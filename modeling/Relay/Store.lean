/-!
# Failures of a store

What a store behind the inbound pipeline can answer instead of a result. A missing resource is
a misconfiguration that no retry mends.
-/
namespace Relay

inductive StoreError
  | resourceNotFound (resource : String)
  /-- The database cannot run a statement. -/
  | database
  | backend (reason : String)
  deriving DecidableEq, Repr

namespace StoreError

def message : StoreError → String
  | .resourceNotFound r => "Storage resource not found: " ++ r
  | .database => "Database error"
  | .backend r => "Storage backend error: " ++ r

/-- Errors that no amount of retrying will fix. -/
def isFatal : StoreError → Bool
  | .resourceNotFound _ => true
  | .database => false
  | .backend _ => false

end StoreError

/-- Which engine keeps the durable data. -/
inductive Storage
  | memory
  /-- A database table; `created` tells whether its schema was set up. -/
  | table (created : Bool)
  deriving DecidableEq, Repr

end Relay
