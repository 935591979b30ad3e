import Relay.Envelope
/-!
# Topics

A topic keeps every message produced to it, in order; the offset of a message is its position
in that log. Live delivery goes through a channel that holds the latest messages only: a reader
that falls behind is told how many it missed and where the channel starts.
-/
namespace Relay

/-! ## The live channel -/

structure Channel where
  /-- Number of messages ever sent. -/
  sent : Nat := 0
  /-- The latest of them, oldest first. -/
  kept : List RawMessage := []

/-- What a reader at a position gets from a channel. -/
inductive Received
  | nothing
  | message (m : RawMessage)
  | missed (count : Nat)

namespace Channel

/-- Sends a message, dropping the oldest beyond the capacity. -/
def send (capacity : Nat) (c : Channel) (m : RawMessage) : Channel :=
  let kept := c.kept ++ [m]
  ⟨c.sent + 1, kept.drop (kept.length - capacity)⟩

/-- The position of the oldest message kept. -/
def oldest (c : Channel) : Nat := c.sent - c.kept.length

def receive (c : Channel) (position : Nat) : Received :=
  if position < c.oldest then .missed (c.oldest - position)
  else
    match c.kept[position - c.oldest]? with
    | some m => .message m
    | none => .nothing

end Channel

/-! ## Topics -/

structure Topic where
  log : List RawMessage := []
  channel : Channel := {}
  /-- Offsets marked as processed. -/
  acknowledged : List String := []

namespace Topic

def isAcknowledged (t : Topic) (m : RawMessage) : Bool :=
  match m.offset with
  | some o => t.acknowledged.contains o
  | none => false

/-- Appends a message, its position becoming its offset. -/
def produce (capacity : Nat) (t : Topic) (payload : Bytes) (headers : Headers) : Topic :=
  let m : RawMessage := ⟨payload, headers, some (toString t.log.length)⟩
  { t with log := t.log ++ [m], channel := t.channel.send capacity m }

/-- The messages not acknowledged, in log order. -/
def backlog (t : Topic) : List RawMessage := t.log.filter fun m => !t.isAcknowledged m

/-- The acknowledged offsets, in log order. -/
def acknowledgedOffsets (t : Topic) : List String :=
  (t.log.filter t.isAcknowledged).filterMap RawMessage.offset

def acknowledge (t : Topic) (offsets : List String) : Topic :=
  { t with acknowledged := t.acknowledged ++ offsets.filter fun o => !t.acknowledged.contains o }

end Topic

end Relay
