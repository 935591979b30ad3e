import Relay.Script.Note
import Relay.Script.Sample
/-!
# Scripted stages and resources

A stage of the inbound pipeline that reports what passes through it, and may change, stop or
fail it; and a resource that reports its commit and its rollback.
-/
namespace Relay.Script

structure Resource where
  name : String
  failCommit : Bool := false
  failRollback : Bool := false

/-- Reports and then fails if told to. -/
def reportThen (k : Note) (fails : Bool) (reason : String) : Op Note StoreError Unit := do
  World.note k
  if fails then throw (.backend reason)

/-- The participant that follows the script. -/
def Resource.toResource (r : Resource) : Relay.Resource Note where
  commit := reportThen (.committed r.name) r.failCommit (r.name ++ " refused to commit")
  rollback := reportThen (.rolledBack r.name) r.failRollback (r.name ++ " refused to rollback")

/-- What a stage does to a message. -/
inductive Treatment
  | pass
  /-- Consumes the message. -/
  | stop
  | fail
  /-- Fails the first messages. -/
  | failFirst (times : Nat)
  /-- Fails messages of the numbers, once they are deserialized. -/
  | failIds (ids : List Int)
  /-- Fails once the rest of the chain has succeeded. -/
  | failAfter
  | setHeader (name value : String)
  | removeHeader (name : String)
  | setPayload (payload : Bytes)
  | setMessage (m : Message)
  | enlist (r : Resource)

structure Stage where
  name : String
  index : Int := 0
  treatment : Treatment

namespace Treatment

/-- Whether the stage fails a message before going on, given how many it has seen. -/
def refuses (seen : Nat) (p : Passage) : Treatment → Bool
  | .fail => true
  | .failFirst times => seen ≤ times
  | .failIds ids => (p.message.bind Message.deepId).any ids.contains
  | _ => false

/-- The message handed on. -/
def onward (p : Passage) : Treatment → Passage
  | .setHeader name value =>
    { p with envelope := { p.envelope with headers := p.envelope.headers.insert name value } }
  | .removeHeader name =>
    { p with envelope := { p.envelope with headers := p.envelope.headers.remove name } }
  | .setPayload payload => { p with envelope := { p.envelope with payload } }
  | .setMessage m => { p with message := some m }
  | _ => p

/-- The transaction as the stage leaves it. -/
def enroll (t : Transaction Note) : Treatment → Transaction Note
  | .enlist r => t.enlist r.toResource
  | _ => t

end Treatment

namespace Stage

def refusal (s : Stage) : InboundError := .behavior (s.name ++ " refused")

/-- Reports a message that has come to the stage. -/
def report (k : Note) : Inbound Note Unit := Inbound.onWorld .store (World.note k)

/-- Goes on with the rest of the chain. -/
def proceed (s : Stage) (next : Passing Note) (p : Passage) : Inbound Note Passage := do
  modify fun b => { b with transaction := s.treatment.enroll b.transaction }
  let q ← next (s.treatment.onward p)
  report (.stageLeft s.name q.accepted)
  match s.treatment with
  | .failAfter => throw s.refusal
  | _ => return q

/-- The stage that follows the script. -/
def toStage (s : Stage) : Relay.Stage Note where
  index := s.index
  handle next p := do
    report (.stageEntered s.name p (← get).transaction.outbox.isEmpty)
    if s.treatment.refuses (entriesOf s.name (← get).world) p then throw s.refusal
    match s.treatment with
    | .stop => return p
    | _ => s.proceed next p

end Stage

end Relay.Script
