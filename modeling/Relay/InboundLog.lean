import Relay.Table
/-!
# The inbound log

Which message ids have been consumed from which endpoint. In memory the entries stand in order
of arrival; in a database they are the rows of a table. Appending an entry that is present does
nothing.
-/
namespace Relay

structure LogEntry where
  messageId : String
  endpoint : String
  deriving DecidableEq, Repr

/-! ## Entries in memory -/

namespace LogEntries

def appendOne (es : List LogEntry) (e : LogEntry) : List LogEntry :=
  if es.contains e then es else es ++ [e]

def append (es : List LogEntry) (new : List LogEntry) : List LogEntry := new.foldl appendOne es

end LogEntries

/-! ## Backends -/

inductive InboundLog
  | memory (entries : List LogEntry)
  /-- No table where the schema was never set up. -/
  | table (rows : Option (Table LogEntry))

namespace InboundLog

def tableName : String := "courier_inbound_log"

def create : Storage → InboundLog
  | .memory => .memory []
  | .table true => .table (some .empty)
  | .table false => .table none

def contains (l : InboundLog) (id endpoint : String) : Except StoreError Bool :=
  match l with
  | .memory es => .ok (es.contains ⟨id, endpoint⟩)
  | .table t => do
    let t ← Table.find tableName t [id, endpoint]
    return 0 < t.count fun e => e.messageId == id && e.endpoint == endpoint

def append (l : InboundLog) (new : List LogEntry) : Except StoreError InboundLog :=
  match l with
  | .memory es => .ok (.memory (LogEntries.append es new))
  | .table t =>
    (Table.insertAll tableName (· == ·) (fun e => [e.messageId, e.endpoint]) t new).map .table

/-- Number of committed entries. -/
def length (l : InboundLog) : Except StoreError Nat :=
  match l with
  | .memory es => .ok es.length
  | .table t => do
    let t ← Table.find tableName t []
    return t.count fun _ => true

/-- The entries, known for the log in memory. -/
def entries? : InboundLog → Option (List LogEntry)
  | .memory es => some es
  | .table _ => none

end InboundLog

end Relay
