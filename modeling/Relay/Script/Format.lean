import Relay.Component
import Relay.Json.Normal
import Relay.Policy
/-!
# Scripts as JSON: messages and their parts

The forms in which scripts write bytes, headers, endpoints, messages and policies, and in which
results are shown. Bytes that are no text are written in hexadecimal; a header value that is no
string stands for the compact text of its normal form. What is missing or ill-formed reads as
nothing: zero, the empty text, the empty list.

The record types and services a script may name stand in its vocabulary.
-/
namespace Relay.Script

/-! ## Plain values -/

namespace Format

def field (j : Json) (name : String) : Json := (j.get? name).getD .null

def textAt (j : Json) (name : String) : String := (field j name).text?.getD ""

def natAt (j : Json) (name : String) : Nat := (field j name).nat?.getD 0

def intAt (j : Json) (name : String) : Int := (field j name).int?.getD 0

def boolAt (j : Json) (name : String) (fallback : Bool) : Bool := (field j name).bool?.getD fallback

def itemsAt (j : Json) (name : String) : List Json := (field j name).items?.getD []

def textsAt (j : Json) (name : String) : List String := (itemsAt j name).filterMap Json.text?

def entriesAt (j : Json) (name : String) : List (String × Json) :=
  (field j name).entries?.getD []

/-- The two members of a pair. -/
def pair (j : Json) : Json × Json :=
  match j.items? with
  | some [a, b] => (a, b)
  | _ => (.null, .null)

/-- The two texts of a pair. -/
def textPair (j : Json) : String × String :=
  let p := pair j
  (p.1.text?.getD "", p.2.text?.getD "")

/-- An object with its names in ascending order. -/
def object (es : List (String × Json)) : Json :=
  .record (es.mergeSort fun a b => (compare a.1 b.1).isLE)

def list {α : Type} (f : α → Json) (as : List α) : Json := .array (as.map f)

/-! ## Bytes, headers, endpoints -/

def readBytes (j : Json) : Bytes :=
  match j.text? with
  | some s => Bytes.ofString s
  | none => (Bytes.ofHex? (textAt j "hex")).getD []

def bytes (b : Bytes) : Json :=
  match b.text? with
  | some s => .ofString s
  | none => object [("hex", .ofString b.toHex)]

def headerValue (j : Json) : String := j.text?.getD j.normal.compact

def readHeaders (j : Json) : Headers :=
  .ofList ((j.items?.getD []).map fun e => ((pair e).1.text?.getD "", headerValue (pair e).2))

def headers (h : Headers) : Json :=
  list (fun e => .array [.ofString e.1, .ofString e.2]) h.entries

/-- An endpoint, written as its name or in full. -/
def readEndpoint (j : Json) : Endpoint :=
  match j.text? with
  | some name => { name }
  | none =>
    { name := textAt j "name"
      chunkSize := (field j "chunk_size").nat?
      settings := .ofList ((entriesAt j "settings").map fun e => (e.1, e.2.text?.getD "")) }

def endpoint (e : Endpoint) : Json :=
  object [("name", .ofString e.name), ("chunk_size", .ofOption .ofNat e.chunkSize),
    ("settings", object (e.settings.map fun s => (s.1, .ofString s.2)))]

def readRawMessage (j : Json) : RawMessage :=
  ⟨readBytes (field j "payload"), readHeaders (field j "headers"), (field j "offset").text?⟩

def rawMessage (m : RawMessage) : Json :=
  object [("offset", .ofOption .ofString m.offset), ("payload", bytes m.payload),
    ("headers", headers m.headers)]

def readRawEnvelope (j : Json) : Except EnvelopeError RawEnvelope :=
  RawEnvelope.ofMessage (readEndpoint (field j "endpoint")) (readRawMessage j)

/-- What is shown of a raw envelope beside its endpoint. -/
def rawEntries (r : RawEnvelope) : List (String × Json) :=
  [("message_id", .ofString r.messageId), ("headers", headers r.headers),
    ("payload", bytes r.payload), ("offset", .ofOption .ofString r.offset)]

/-! ## Policies -/

/-- Reads a policy of at most the given nesting; the members of a chain come first. -/
def readPolicyTo : Nat → Json → Except PolicyError Policy
  | 0, _ => .ok .skip
  | depth + 1, j =>
    match j.get? "retry", j.get? "move", j.get? "chain", j.get? "raw_chain" with
    | some n, _, _, _ => .ok (.retry ⟨UInt32.ofNat (n.nat?.getD 0), natAt j "delay", natAt j "inc"⟩)
    | _, some e, _, _ => .ok (.move (readEndpoint e) (UInt32.ofNat (natAt j "max")))
    | _, _, some ps, _ => do Policy.mkChain (← (ps.items?.getD []).mapM (readPolicyTo depth))
    | _, _, _, some ps => do return .chain (← (ps.items?.getD []).mapM (readPolicyTo depth))
    | _, _, _, _ => .ok .skip

def readPolicy (j : Json) : Except PolicyError Policy := readPolicyTo j.depth j

/-- A number too big for some readers, as a text. -/
def decimal (n : Nat) : Json := .ofString (toString n)

mutual

def policy : Policy → Json
  | .skip => .ofString "skip"
  | .retry p =>
    object [("retry", .ofNat p.maxFailedAttempts.toNat), ("delay_ms", decimal p.initialDelay),
      ("inc_ms", decimal p.delayIncrement)]
  | .move e n => object [("move", endpoint e), ("max", .ofNat n.toNat)]
  | .chain ps => object [("chain", .array (policies ps))]

def policies : List Policy → List Json
  | [] => []
  | p :: ps => policy p :: policies ps

end

end Format

/-! ## Messages -/

structure Vocabulary where
  /-- Record types by the names that scripts use. -/
  records : List (String × RecordType)
  /-- Names of component types by the names that scripts use. -/
  services : List (String × String)

namespace Vocabulary

open Format

def recordType (v : Vocabulary) (name : String) : RecordType :=
  ((v.records.find? fun r => r.1 == name).map Prod.snd).getD ⟨name, [], []⟩

def nameOf (v : Vocabulary) (t : RecordType) : String :=
  ((v.records.find? fun r => r.2 == t).map Prod.fst).getD t.name

def service (v : Vocabulary) (name : String) : String :=
  ((v.services.find? fun s => s.1 == name).map Prod.snd).getD name

def kindOf : String → Kind
  | "Command" => .command
  | "Event" => .event
  | "Query" => .query
  | _ => .request

def messageType (v : Vocabulary) (s : String) : MessageType :=
  match s with
  | "any" => .any
  | "envelope" => .envelope
  | "inbound" => .exact .inbound
  | "outbound" => .exact .outbound
  | s =>
    match s.splitOn ":" with
    | ["kind", k] => .kind (kindOf k)
    | _ => .exact (.record (v.recordType s))

/-- Reads a message in at most the given number of envelopes. -/
def readMessageIn (v : Vocabulary) : Nat → Json → Option Message
  | 0, _ => none
  | depth + 1, j =>
    let unwrap := boolAt j "auto_unwrap" true
    match textAt j "type" with
    | "" => none
    | "inbound" =>
      match readRawEnvelope j with
      | .ok raw => some (.inbound raw (v.readMessageIn depth (field j "message")) unwrap)
      | .error _ => none
    | "outbound" =>
      (v.readMessageIn depth (field j "message")).map fun m =>
        .outbound m (readHeaders (field j "headers")) (readEndpoint (field j "endpoint")) unwrap
    | name => (Record.ofJson? (v.recordType name) j).map .record

def readMessage (v : Vocabulary) (j : Json) : Option Message := v.readMessageIn j.depth j

def messagesAt (v : Vocabulary) (j : Json) (name : String) : List Message :=
  (itemsAt j name).filterMap v.readMessage

def record (v : Vocabulary) (r : Record) : Json :=
  object (("type", .ofString (v.nameOf r.type)) :: Values.write r.type.fields r.values)

def message (v : Vocabulary) : Message → Json
  | .record r => v.record r
  | .inbound raw m unwrap =>
    let inner := match m with
      | some m => message v m
      | none => .null
    object (rawEntries raw ++ [("type", .ofString "inbound"), ("message", inner),
      ("endpoint", .ofString raw.endpoint.name), ("auto_unwrap", .bool unwrap)])
  | .outbound m h e unwrap =>
    object [("type", .ofString "outbound"), ("message", message v m), ("headers", headers h),
      ("endpoint", .ofString e.name), ("auto_unwrap", .bool unwrap)]

/-! ## Values -/

/-- The content of a value alone. -/
def content (v : Vocabulary) : Value → Json
  | .number n => .ofNat n.toNat
  | .text s => .ofString s
  | .object _ s => .ofString s
  | .message m => v.message m

/-- A component of a named service. -/
def readComponent (v : Vocabulary) (service : String) (j : Json) : Value :=
  let type := v.service service
  if type == Value.numberType then .number (UInt32.ofNat (j.nat?.getD 0))
  else if type == Value.textType then .text (j.text?.getD "")
  else .object type (j.text?.getD "")

/-- The label of a component type, if it is in the vocabulary. -/
def label (v : Vocabulary) (type : String) : Option String :=
  (v.services.find? fun s => s.2 == type).map fun s => s.1.toLower

/-- A message in full, another value under the label of its type; of a type without a label
nothing is told. -/
def value (v : Vocabulary) : Value → Json
  | .message m => v.message m
  | x =>
    match v.label x.typeName with
    | some l => object [(l, v.content x)]
    | none => .ofString "other"

end Vocabulary

end Relay.Script
