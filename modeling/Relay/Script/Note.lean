import Relay.Pipeline
import Relay.Router
/-!
# What scripted parts report

Every scripted part writes down that it ran, and what it was given. A handler's calls are
numbered through the whole journal, by the handler's name.
-/
namespace Relay.Script

inductive Note
  /-- A handler was called, for the `n`-th time, at a time. -/
  | called (handler : String) (n : Nat) (call : Call) (time : Nat)
  /-- The delay of a call was over. -/
  | ended (handler : String) (n : Nat) (time : Nat)
  | entered (behavior : String) (mode : Mode) (messages : List Message)
  | left (behavior : String) (results : List Value)
  | stageEntered (stage : String) (passage : Passage) (outboxEmpty : Bool)
  | stageLeft (stage : String) (accepted : Bool)
  | committed (resource : String)
  | rolledBack (resource : String)
  /-- A router with the routes was made. -/
  | routed (routes : List Route)

/-- How often the journal holds a note of a kind. -/
def countNotes (p : Note → Bool) (w : World Note) : Nat :=
  w.journal.countP fun e => match e with | .note k => p k | _ => false

/-- How often handlers of the name were called. -/
def callsOf (handler : String) : World Note → Nat :=
  countNotes fun k => match k with | .called h .. => h == handler | _ => false

/-- How often stages of the name were entered. -/
def entriesOf (stage : String) : World Note → Nat :=
  countNotes fun k => match k with | .stageEntered s .. => s == stage | _ => false

end Relay.Script
