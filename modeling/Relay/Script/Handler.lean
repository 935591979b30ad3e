import Relay.Script.Note
import Relay.Script.Sample
/-!
# Scripted handlers

A subscribed method whose handler follows a script: it waits, publishes, panics, fails or
returns as the script and the numbers of its messages say.
-/
namespace Relay.Script

/-- What a published message is filtered by. -/
inductive Filter
  | even
  | notEnvelope
  | never
  | type (t : MessageType)
  | idAbove (n : Int)

/-- Whether the message has an even number of its own. -/
def isEven (m : Message) : Bool := m.directId.any fun n => n % 2 == 0

def Filter.accepts : Filter → Message → Bool
  | .even, m => isEven m
  | .notEnvelope, m => !m.isEnvelope
  | .never, _ => false
  | .type t, m => t.matchesMessage m
  | .idAbove n, m => m.directId.any fun i => n < i

/-- What a call returns. -/
inductive Return
  | nothing
  | text (s : String)
  /-- The sum of the messages' numbers and a term. -/
  | sum (k : Int)
  /-- A record made for that sum, as a value. -/
  | record (t : RecordType) (k : Int)
  | unknown
  | message (m : Message)
  | emit (ts : List Template)

/-- The type of the value that only its type is known of. -/
def unknownType : String := "unknown"

/-- The sum of numbers and a term, in the range of a word. -/
def total (ids : List Int) (k : Int) : UInt32 := UInt32.ofInt (ids.foldl (· + ·) k)

def Return.reply (ids : List Int) : Return → Option Reply
  | .nothing => none
  | .text s => some (.value (.text s))
  | .sum k => some (.value (.number (total ids k)))
  | .record t k => some (.value (.message (.record (t.fill (total ids k).toNat))))
  | .unknown => some (.value (.object unknownType ""))
  | .message m => some (.messages [m])
  | .emit ts => some (.messages (Script.emit ts ids))

/-- How long a call takes, in milliseconds. -/
structure Delay where
  base : Nat := 0
  /-- Added for each unit of the first message's number. -/
  perId : Int := 0

def Delay.total (d : Delay) (ms : List Message) : Nat :=
  (d.base + d.perId * ((ms.head?.bind Message.deepId).getD 0)).toNat

structure Handler where
  name : String
  parameter : Parameter := .message .any
  further : List Parameter := []
  target : Option String := none
  exclusive : Bool := true
  parallel : Bool := false
  maxDegree : Option Nat := none
  filters : List Filter := []
  blocking : Bool := false
  delay : Option Delay := none
  /-- What a call publishes itself. -/
  publishes : Option (List Template) := none
  /-- Calls that fail at first. -/
  failFirst : Nat := 0
  /-- Numbers that a call fails on. -/
  failIds : List Int := []
  /-- Numbers that a call panics on. -/
  panicIds : List Int := []
  result : Return := .nothing

namespace Handler

/-- How a call ends, from its number and its messages. -/
def respond (h : Handler) (n : Nat) (ms : List Message) : Returned :=
  let ids := deepIds ms
  if ids.any h.panicIds.contains then .panicked (h.name ++ " panicked on purpose")
  else if n ≤ h.failFirst || ids.any h.failIds.contains then
    .answered (.error (h.name ++ " failed on call " ++ toString n))
  else .answered (.ok (h.result.reply ids))

/-- Notes a call and gives it its number. -/
def begin (h : Handler) (now : Nat) (c : Call) (s : Scope Note) : Nat × Scope Note :=
  let n := callsOf h.name s.world + 1
  (n, s.note (.called h.name n c now))

/-- The end of an asynchronous call. -/
def finish (h : Handler) (n : Nat) (c : Call) : Work (Scope Note) Answer :=
  match h.respond n c.argument.messages with
  | .answered a => .done a
  | .panicked t => .panicked t

/-- The call's own publish, whose failure is the call's. -/
def publishThen (h : Handler) (n : Nat) (c : Call) (self : Republish (Scope Note)) :
    Work (Scope Note) Answer :=
  match h.publishes with
  | none => h.finish n c
  | some ts => (self.publish (emit ts (deepIds c.argument.messages))).bind fun r =>
    match r with
    | .ok _ => h.finish n c
    | .error e => .done (.error e.message)

def run (h : Handler) (c : Call) (self : Republish (Scope Note)) : Work (Scope Note) Answer :=
  .clock fun now => .act (h.begin now c) fun n =>
    match h.delay with
    | none => h.publishThen n c self
    | some d => .sleep (d.total c.argument.messages) <| .clock fun now =>
      .modify (Scope.note (.ended h.name n now)) (h.publishThen n c self)

def runBlocking (h : Handler) (now : Nat) (c : Call) (s : Scope Note) : Returned × Scope Note :=
  let (n, s) := h.begin now c s
  (h.respond n c.argument.messages, s)

/-- The method that follows the script. -/
def method (h : Handler) : Method (Scope Note) where
  name := h.name
  handler := if h.blocking then .blocking fun now c _ => h.runBlocking now c else .async h.run
  parameter := h.parameter
  further := h.further
  target := h.target
  exclusive := h.exclusive
  parallel := h.parallel
  maxDegree := h.maxDegree
  filters := h.filters.map Filter.accepts

end Handler

end Relay.Script
