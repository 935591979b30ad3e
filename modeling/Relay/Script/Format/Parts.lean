import Relay.Script.Cipher
import Relay.Script.Format
import Relay.Script.Setup
/-!
# Scripts as JSON: the parts of an application

Handlers, behaviors, stages, resolvers, ciphers and whole setups as scripts write them. A field
that is missing leaves its part as it is by default.
-/
namespace Relay.Script

namespace Vocabulary

open Format

/-! ## Handlers -/

def readTemplate (v : Vocabulary) (j : Json) : Template :=
  { type := v.recordType (textAt j "type")
    delta := intAt j "delta"
    above := (field j "if_gt").int?
    target := (j.get? "to").map readEndpoint }

def templates (v : Vocabulary) (j : Json) : List Template :=
  (j.items?.getD []).map v.readTemplate

def readReturn (v : Vocabulary) (j : Json) : Return :=
  match j.text?, j.entries? with
  | some s, _ => .text s
  | none, some [("id_plus", k)] => .sum (k.int?.getD 0)
  | none, some [("order_created", k)] => .record (v.recordType "OrderCreated") (k.int?.getD 0)
  | none, some [("unknown", _)] => .unknown
  | none, some [("one", m)] => ((v.readMessage m).map Return.message).getD .nothing
  | none, some [("emit", ts)] => .emit (v.templates ts)
  | _, _ => .nothing

def readFilter (v : Vocabulary) (j : Json) : Filter :=
  match j.text?, j.entries? with
  | some "even", _ => .even
  | some "not_envelope", _ => .notEnvelope
  | none, some [("type", t)] => .type (v.messageType (t.text?.getD ""))
  | none, some [("id_gt", n)] => .idAbove (n.int?.getD 0)
  | _, _ => .never

def readParameter (v : Vocabulary) (j : Json) : Parameter :=
  match j.entries? with
  | some [("message", t)] => .message (v.messageType (t.text?.getD ""))
  | some [("messages", t)] => .messages (v.messageType (t.text?.getD ""))
  | some [("custom", x)] => .custom (x.text?.getD "")
  | some [("service", t)] => .service (v.service (t.text?.getD ""))
  | _ => .message .any

def readDelay (j : Json) : Option Delay :=
  if j.isNull then none else some { base := natAt j "base", perId := intAt j "per_id" }

def ints (js : List Json) : List Int := js.filterMap Json.int?

def readHandler (v : Vocabulary) (j : Json) : Handler :=
  { name := textAt j "name"
    parameter := v.readParameter (field j "param")
    further := (itemsAt j "args").map v.readParameter
    target := (field j "target").text?.map v.service
    exclusive := boolAt j "exclusive" true
    parallel := (j.get? "parallel").isSome
    maxDegree := (field j "parallel").nat?
    filters := (itemsAt j "filters").map v.readFilter
    blocking := boolAt j "blocking" false
    delay := readDelay (field j "delay")
    publishes := (j.get? "publish").map v.templates
    failFirst := natAt j "fail_first"
    failIds := ints (itemsAt j "fail_ids")
    panicIds := ints (itemsAt j "panic_ids")
    result := v.readReturn (field j "return") }

/-! ## Behaviors -/

def readRoute (v : Vocabulary) (j : Json) : Route :=
  { type := v.messageType (textAt j "type")
    endpoint := readEndpoint (field j "to")
    publishLocally := match textAt j "how" with
      | "and_publish" => true
      | "with" => boolAt j "local" false
      | _ => false }

def readConduct (v : Vocabulary) (j : Json) : Conduct :=
  match textAt j "kind" with
  | "short" => .short (UInt32.ofNat (natAt j "value"))
  | "fail" => .fail
  | "fail_after" => .failAfter
  | "even" => .even
  | "append" => .append (v.messagesAt j "messages")
  | "reverse" => .reverse
  | "add_result" => .addResult
  | "drop_results" => .dropResults
  | _ => .pass

def readPart (v : Vocabulary) (j : Json) : Part :=
  if textAt j "kind" == "router" then .router ((itemsAt j "routes").map v.readRoute)
  else .scripted ⟨textAt j "name", intAt j "index", v.readConduct j⟩

/-! ## Stages -/

def readResource (j : Json) : Resource :=
  { name := textAt j "name"
    failCommit := boolAt j "fail_commit" false
    failRollback := boolAt j "fail_rollback" false }

def readTreatment (v : Vocabulary) (j : Json) : Treatment :=
  match textAt j "kind" with
  | "stop" => .stop
  | "fail" => .fail
  | "fail_first" => .failFirst (natAt j "times")
  | "fail_ids" => .failIds (ints (itemsAt j "ids"))
  | "fail_after" => .failAfter
  | "set_header" => .setHeader (textAt j "header") (headerValue (field j "value"))
  | "remove_header" => .removeHeader (textAt j "header")
  | "set_payload" => .setPayload (readBytes (field j "payload"))
  | "set_message" => ((v.readMessage (field j "message")).map Treatment.setMessage).getD .pass
  | "enlist" => .enlist (readResource j)
  | _ => .pass

def readStage (v : Vocabulary) (j : Json) : Stage :=
  ⟨textAt j "name", intAt j "index", v.readTreatment j⟩

/-! ## Resolvers -/

def messageResolver : String → MessageResolver
  | "enumerable" => .sequence
  | "doubling" => Resolver.doubling
  | "never" => Resolver.never
  | "splitting" => Resolver.splitting
  | "custom" => Resolver.custom
  | "custom_too" => Resolver.custom
  | _ => .single

def furtherResolver : String → FurtherResolver
  | "clock" => Resolver.clock
  | "seven" => Resolver.seven
  | "nothing" => Resolver.nothing
  | _ => .service

def readResolvers (j : Json) : Resolvers :=
  let base : Resolvers := if textAt j "base" == "empty" then .empty else .standard
  { message := base.message ++ (textsAt j "message").map messageResolver
    further := base.further ++ (textsAt j "additional").map furtherResolver }

/-! ## Setups -/

def readStorage (j : Json) : Storage :=
  match j.text? with
  | some "sqlite" => .table true
  | some "sqlite_uninit" => .table false
  | _ => .memory

/-- A registry: the pairs of a record type and its wire name in the order of registration, or
every record type under its own name. -/
def readRegistry (v : Vocabulary) (j : Json) : Registry :=
  match j.items? with
  | none => .ofList (v.records.map fun r => (r.2, r.1))
  | some es => .ofList (es.map fun e => (v.recordType (textPair e).1, (textPair e).2))

def readTransport (j : Json) : Transport :=
  { capacity := ((field j "capacity").nat?.map (max 1)).getD 1024
    delivery :=
      { endAfter := (field j "end_after").nat?
        errorAfter := (field j "error_after").nat?
        stripOffsets := boolAt j "strip_offsets" false } }

def readCipher (j : Json) : Option Cipher :=
  if j.isNull then none
  else some (cipher (UInt8.ofNat (natAt j "key")) (field j "max").nat?)

def readSetup (v : Vocabulary) (j : Json) : Setup :=
  { storage := readStorage (field j "stores")
    transport := readTransport (field j "transport")
    connectRetries := (field j "connect_retries").nat?.getD defaultConnectRetries
    wire := ⟨v.readRegistry (field j "register"), readCipher (field j "cipher")⟩
    binding := if textAt j "bind" == "none" then .separate else .bound
    components := (entriesAt j "components").map fun e => v.readComponent e.1 e.2
    resolvers := readResolvers (field j "resolvers")
    parts := (itemsAt j "behaviors").map v.readPart
    handlers := (itemsAt j "subscribers").map v.readHandler
    stages := (itemsAt j "inbound").map v.readStage }

end Vocabulary

end Relay.Script
