import Relay.Proofs.Assembly
import Relay.Proofs.Consumer.Course
import Relay.Proofs.Reliability
import Relay.Script.Cipher
/-!
# The round trip of a message

`Delivery.deliver` takes batches of raw messages through the pipeline, each batch in a transaction
of its own that is committed. `round_trip`: what a producer put on the transport for a message,
delivered in any order, any number of times, among messages of other ids and cut into any batches,
brings out one envelope of its id, with the message in it.

`Shipment.Progress` is the invariant: the message is awaited and nothing of its id has come out, or
it is logged and one envelope has. `deliver_sure`: where the stores do not fail, only a message that
is rejected for what is in it ends a delivery early.
-/
namespace Relay

open World (Alike)

variable {κ : Type}

/-! ## Deliveries -/

namespace Delivery

/-- A message that was not processed, and why. -/
structure Rejected where
  message : RawMessage
  error : InboundError

/-- What ends a delivery early. -/
inductive Failure
  | rejected (r : Rejected)
  | commit (e : StoreError)

/-- One message through the pipeline, in the transaction of its batch. -/
def receive (p : Pipeline κ) (endpoint : Endpoint) (m : RawMessage) :
    EStateM Rejected (Inbox κ) (Option Message) :=
  EStateM.adaptExcept (Rejected.mk m) (do
    let raw ← Inbound.ofExcept .envelope (RawEnvelope.ofMessage endpoint m)
    p.process raw : Inbound κ (Option Message))

/-- The messages of a batch; what comes out of them in order. -/
def receiveAll (p : Pipeline κ) (endpoint : Endpoint) :
    List RawMessage → EStateM Rejected (Inbox κ) (List Message)
  | [] => return []
  | m :: ms => do
    let first ← receive p endpoint m
    let rest ← receiveAll p endpoint ms
    return first.toList ++ rest

/-- A batch in a transaction of its own, which is committed. -/
def batch (p : Pipeline κ) (wire : Wire) (endpoint : Endpoint) (ms : List RawMessage) :
    Op κ Failure (List Message) := fun w =>
  match receiveAll p endpoint ms ⟨{}, w⟩ with
  | .error r s => .error (.rejected r) s.world
  | .ok out s =>
    match s.transaction.commit wire s.world with
    | .error e w => .error (.commit e) w
    | .ok _ w => .ok out w

/-- The batches one after the other. -/
def deliver (p : Pipeline κ) (wire : Wire) (endpoint : Endpoint) :
    List (List RawMessage) → Op κ Failure (List Message)
  | [] => return []
  | b :: bs => do
    let first ← batch p wire endpoint b
    let rest ← deliver p wire endpoint bs
    return first ++ rest

/-- Without the message that was rejected, receiving a batch is what an attempt does with it. -/
theorem receiveAll_prepare (p : Pipeline κ) (endpoint : Endpoint) (ms : List RawMessage) :
    EStateM.adaptExcept Rejected.error (receiveAll p endpoint ms) =
      Attempt.prepare p endpoint ms := by
  induction ms with
  | nil => rfl
  | cons m ms ih =>
    have hone : EStateM.adaptExcept Rejected.error (receive p endpoint m) =
        (Inbound.ofExcept .envelope (RawEnvelope.ofMessage endpoint m) >>= p.process) := by
      funext s
      simp only [receive, EStateM.adaptExcept]
      cases (Inbound.ofExcept .envelope (RawEnvelope.ofMessage endpoint m) >>= p.process) s <;> rfl
    rw [receiveAll, adaptExcept_bind, hone]
    simp only [adaptExcept_bind, ih]
    rw [Attempt.prepare, bind_assoc]
    rfl

/-- The failure is not for the message with the id to answer for: another message was rejected,
or a store refused a look-up or a commit. -/
def Failure.Foreign (id : String) : Failure → Prop
  | .rejected r => r.message.headers.get? Headers.messageId ≠ some id ∨ r.error.Refused
  | .commit _ => True

theorem receive_ok {p : Pipeline κ} {endpoint : Endpoint} {m : RawMessage} {o : Option Message}
    {s t : Inbox κ} (h : receive p endpoint m s = .ok o t) :
    ∃ raw, RawEnvelope.ofMessage endpoint m = .ok raw ∧ p.process raw s = .ok o t := by
  obtain ⟨raw, u, h0, h1⟩ := bind_ok (adaptExcept_ok.mp h)
  obtain ⟨hraw, rfl⟩ := Inbound.ofExcept_ok.mp h0
  exact ⟨raw, hraw, h1⟩

theorem receive_error {p : Pipeline κ} {endpoint : Endpoint} {m : RawMessage} {r : Rejected}
    {s t : Inbox κ} (h : receive p endpoint m s = .error r t) :
    r.message = m ∧ (m.headers.get? Headers.messageId = none ∨
      ∃ raw, RawEnvelope.ofMessage endpoint m = .ok raw ∧ p.process raw s = .error r.error t) := by
  obtain ⟨e, hr, rfl⟩ := adaptExcept_error.mp h
  refine ⟨rfl, ?_⟩
  rcases bind_error hr with h0 | ⟨raw, u, h0, h1⟩
  · obtain ⟨⟨e', he, -⟩, -⟩ := Inbound.ofExcept_error.mp h0
    exact Or.inl (Settlement.ofMessage_error he)
  · obtain ⟨hraw, rfl⟩ := Inbound.ofExcept_ok.mp h0
    exact Or.inr ⟨raw, hraw, h1⟩

end Delivery

/-- Whether a message is an envelope received under the id. -/
def Message.isOf (id : String) : Message → Bool
  | .inbound raw _ _ => raw.messageId == id
  | _ => false

/-! ## How far a message has come -/

namespace Shipment

open Delivery

/-- Some parcels were seen, and some messages came out. The message is awaited and nothing of its
id came out, or it is logged and the one envelope of its id is there. -/
inductive Progress (s : Shipment) (endpoint : Endpoint) (plain : Bytes) (m : Message)
    (seen : List (Bytes × Headers)) (out : List Message) (b : Inbox κ) : Prop
  | awaited
    (h : s.Awaiting endpoint.name seen (b.transaction.log.view b.world.log)
      (b.transaction.chunks.parked b.world.chunks s.id))
    (hout : out.filter (Message.isOf s.id) = [])
  | arrived (offset : Option String)
    (hlog : ⟨s.id, endpoint.name⟩ ∈ b.transaction.log.view b.world.log)
    (hout : out.filter (Message.isOf s.id) =
      [.inbound ⟨plain, s.headers, endpoint, offset, s.id⟩ (some m) true])

namespace Progress

variable {s : Shipment} {wire : Wire} {endpoint : Endpoint} {plain : Bytes} {m : Message}
  {seen : List (Bytes × Headers)} {out : List Message} {b b' : Inbox κ} {x : RawMessage}

/-- A message of another id is received. -/
theorem other {raw : RawEnvelope} {o : Option (Bytes × Headers)} {r : Option Message}
    (h : s.Progress endpoint plain m seen out b)
    (hin : Intake b.world.log b.world.chunks raw b.transaction o b'.transaction)
    (hw : Alike b.world b'.world) (hid : raw.messageId ≠ s.id)
    (hr : ∀ y ∈ r, y.isOf s.id = false) {p : Bytes × Headers} (hp : p ∉ s.parcels) :
    s.Progress endpoint plain m (seen ++ [p]) (out ++ r.toList) b' := by
  have hout : (out ++ r.toList).filter (Message.isOf s.id) = out.filter (Message.isOf s.id) := by
    cases r with
    | none => simp
    | some y => simp [List.filter_append, hr y rfl]
  obtain ⟨hparked, hlog⟩ := hin.other hid endpoint.name
  cases h with
  | awaited h hnone =>
    refine .awaited ?_ (hout.trans hnone)
    rw [hw.log, hw.chunks, hparked]
    exact ⟨fun he => h.unlogged (hlog.mp he), h.nodup, h.subset,
      (h.see fun hin => absurd hin hp).seen, h.missing⟩
  | arrived offset hin' hone =>
    refine .arrived offset ?_ (hout.trans hone)
    rw [hw.log]
    exact hlog.mpr hin'

/-- A parcel of the message is received: nothing comes out of it, or the message does. -/
theorem own {raw : RawEnvelope} {o : Option (Bytes × Headers)}
    (h : s.Progress endpoint plain m seen out b) (hraw : RawEnvelope.ofMessage endpoint x = .ok raw)
    (hin : Intake b.world.log b.world.chunks raw b.transaction o b'.transaction)
    (hw : Alike b.world b'.world) (hid : raw.messageId = s.id) (hp : x.parcel ∈ s.parcels) :
    (o = none ∧ s.Progress endpoint plain m (seen ++ [x.parcel]) out b') ∨
      (o = some (s.packed, s.headers) ∧ out.filter (Message.isOf s.id) = [] ∧
        ⟨s.id, endpoint.name⟩ ∈ b'.transaction.log.view b'.world.log) := by
  obtain ⟨id, hget, rfl⟩ := Settlement.ofMessage_ok hraw
  dsimp only at hid
  subst hid
  cases h with
  | awaited h hnone =>
    rw [hw.log]
    rcases h.intake hin rfl rfl hp with ⟨ho, hstill⟩ | ⟨ho, hlog⟩
    · refine Or.inl ⟨ho, .awaited ?_ hnone⟩
      rw [hw.log, hw.chunks]
      exact hstill
    · exact Or.inr ⟨ho, hnone, hlog⟩
  | arrived offset hlog hone =>
    -- what is logged is taken in without any effect
    have hknown : b.transaction.Accounts endpoint.name b.world.log b.world.chunks x := by
      intro id hid
      rw [hget] at hid
      cases hid
      exact Or.inl hlog
    obtain ⟨ho, htx⟩ := hin.ignored hraw hknown
    refine Or.inl ⟨ho, .arrived offset ?_ hone⟩
    rw [hw.log, htx]
    exact hlog

/-- A process call that succeeds makes progress. -/
theorem received {o : Option Message} (h : s.Progress endpoint plain m seen out b)
    (hun : wire.unpack s.packed s.headers = .ok (plain, m))
    (hx : x.headers.get? Headers.messageId = some s.id → x.parcel ∈ s.parcels)
    (hr : receive (.create wire []) endpoint x b = .ok o b') :
    s.Progress endpoint plain m (seen ++ [x.parcel]) (out ++ o.toList) b' ∧
      b'.transaction.resources = b.transaction.resources := by
  obtain ⟨raw, hraw, hproc⟩ := receive_ok hr
  obtain ⟨-, taken, hin, hw, ho⟩ := Pipeline.process_ok hproc
  refine ⟨?_, hin.resources⟩
  obtain ⟨id, hget, rfl⟩ := Settlement.ofMessage_ok hraw
  by_cases hid : id = s.id
  · subst hid
    rcases h.own hraw hin hw rfl (hx hget) with ⟨rfl, hstill⟩ | ⟨rfl, hnone, hlog⟩
    · subst ho
      simpa using hstill
    · obtain ⟨plain', m', hun', rfl⟩ := ho
      rw [hun] at hun'
      cases hun'
      exact .arrived x.offset hlog (by simp [List.filter_append, hnone, Message.isOf])
  · refine h.other hin hw hid ?_ ?_
    · intro y hy
      cases taken with
      | none => subst ho; cases hy
      | some p =>
        obtain ⟨plain', m', -, rfl⟩ := ho
        cases hy
        simpa [Message.isOf] using hid
    · intro hp
      have hnamed := parcel_named hp
      simp only [RawMessage.parcel] at hnamed
      rw [hget] at hnamed
      cases hnamed
      exact hid rfl

/-- A process call that fails does so for another message, or because a store refuses. -/
theorem not_received {r : Rejected} (h : s.Progress endpoint plain m seen out b)
    (hun : wire.unpack s.packed s.headers = .ok (plain, m))
    (hx : x.headers.get? Headers.messageId = some s.id → x.parcel ∈ s.parcels)
    (hr : receive (.create wire []) endpoint x b = .error r b') :
    (Failure.rejected r).Foreign s.id := by
  obtain ⟨rfl, hcause⟩ := receive_error hr
  by_cases hid : r.message.headers.get? Headers.messageId = some s.id
  · right
    rcases hcause with hnone | ⟨raw, hraw, hproc⟩
    · rw [hnone] at hid
      cases hid
    · obtain ⟨id, hget, rfl⟩ := Settlement.ofMessage_ok hraw
      rw [hid] at hget
      cases hget
      have hread : ∃ position, ChunkHeaders.read r.message.headers = .ok position := by
        rcases parcel_cases (hx hid) with ⟨-, -, hnone⟩ | ⟨-, c, -, -, hsome⟩
        · exact ⟨_, hnone⟩
        · exact ⟨_, hsome⟩
      obtain ⟨position, hread⟩ := hread
      rcases Pipeline.process_failed hread hproc with hrefused | ⟨payload, headers, hin, he⟩
      · exact hrefused
      · -- what comes out of a parcel can be unpacked
        have hw := (Pipeline.process_error hproc).1
        rcases h.own hraw hin hw rfl (hx hid) with ⟨hnone, -⟩ | ⟨hsome, -⟩
        · cases hnone
        · cases hsome
          rw [hun] at he
          cases he
  · exact Or.inl hid

/-- **One process call.** -/
theorem receive (h : s.Progress endpoint plain m seen out b)
    (hun : wire.unpack s.packed s.headers = .ok (plain, m))
    (hx : x.headers.get? Headers.messageId = some s.id → x.parcel ∈ s.parcels) :
    Ensures (receive (.create wire []) endpoint x) b
      (fun o b' => s.Progress endpoint plain m (seen ++ [x.parcel]) (out ++ o.toList) b' ∧
        b'.transaction.resources = b.transaction.resources)
      fun r => (Failure.rejected r).Foreign s.id :=
  ensures_intro (fun _ _ hr => h.received hun hx hr) fun _ _ hr => h.not_received hun hx hr

theorem receiveAll {ms : List RawMessage} (h : s.Progress endpoint plain m seen out b)
    (hun : wire.unpack s.packed s.headers = .ok (plain, m))
    (hms : ∀ x ∈ ms, x.headers.get? Headers.messageId = some s.id → x.parcel ∈ s.parcels) :
    Ensures (receiveAll (.create wire []) endpoint ms) b
      (fun o b' => s.Progress endpoint plain m (seen ++ ms.map RawMessage.parcel) (out ++ o) b' ∧
        b'.transaction.resources = b.transaction.resources)
      fun r => (Failure.rejected r).Foreign s.id := by
  induction ms generalizing seen out b with
  | nil => exact ensures_pure ⟨by simpa using h, rfl⟩
  | cons x ms ih =>
    refine (h.receive hun (hms x List.mem_cons_self)).bind fun first b' hfirst => ?_
    obtain ⟨hfirst, hr⟩ := hfirst
    refine (ih hfirst fun y hy => hms y (List.mem_cons_of_mem x hy)).bind fun rest b'' hrest => ?_
    obtain ⟨hrest, hr'⟩ := hrest
    refine ensures_pure ⟨?_, hr'.trans hr⟩
    simpa only [List.map_cons, List.append_assoc, List.singleton_append] using hrest

/-- The transaction is committed, and another one begins. -/
theorem commit {w : World κ} (h : s.Progress endpoint plain m seen out b)
    (hr : b.transaction.resources = []) (hc : b.transaction.commit wire b.world = .ok () w) :
    s.Progress endpoint plain m seen out ⟨{}, w⟩ := by
  cases h with
  | awaited h hnone => exact .awaited (h.commit hr hc) hnone
  | arrived offset hlog hone => exact .arrived offset (Transaction.commit_logged hr hc hlog) hone

theorem batch {ms : List RawMessage} {w : World κ}
    (h : s.Progress endpoint plain m seen out ⟨{}, w⟩)
    (hun : wire.unpack s.packed s.headers = .ok (plain, m))
    (hms : ∀ x ∈ ms, x.headers.get? Headers.messageId = some s.id → x.parcel ∈ s.parcels) :
    Ensures (batch (.create wire []) wire endpoint ms) w
      (fun o w' => s.Progress endpoint plain m (seen ++ ms.map RawMessage.parcel) (out ++ o)
        ⟨{}, w'⟩)
      (Failure.Foreign s.id) := by
  have hall := h.receiveAll hun hms
  refine ensures_intro ?_ ?_
  · intro o w' ho
    unfold Delivery.batch at ho
    split at ho
    · cases ho
    · next o b hb =>
      obtain ⟨hprogress, hr⟩ := hall.ok hb
      split at ho
      · cases ho
      · next w' hc =>
        cases ho
        exact hprogress.commit hr hc
  · intro f w' hf
    unfold Delivery.batch at hf
    split at hf
    · next r b hb =>
      cases hf
      exact hall.error hb
    · split at hf
      · cases hf
        trivial
      · cases hf

/-- **A whole delivery.** -/
theorem deliver {batches : List (List RawMessage)} {w : World κ}
    (h : s.Progress endpoint plain m seen out ⟨{}, w⟩)
    (hun : wire.unpack s.packed s.headers = .ok (plain, m))
    (hms : ∀ x ∈ batches.flatten,
      x.headers.get? Headers.messageId = some s.id → x.parcel ∈ s.parcels) :
    Ensures (deliver (.create wire []) wire endpoint batches) w
      (fun o w' => s.Progress endpoint plain m (seen ++ batches.flatten.map RawMessage.parcel)
        (out ++ o) ⟨{}, w'⟩)
      (Failure.Foreign s.id) := by
  induction batches generalizing seen out w with
  | nil => exact ensures_pure (by simpa using h)
  | cons ms batches ih =>
    rw [List.flatten_cons] at hms ⊢
    have hfirst := h.batch hun fun x hx => hms x (List.mem_append_left _ hx)
    refine hfirst.bind fun first w' hfirst => ?_
    refine (ih hfirst fun x hx => hms x (List.mem_append_right _ hx)).bind fun rest w'' hrest => ?_
    refine ensures_pure ?_
    simpa only [List.map_append, List.append_assoc] using hrest

end Progress
theorem length_parcels_pos (s : Shipment) : 0 < s.parcels.length := by
  obtain ⟨id, packed, headers, all, parcels, posted, named, unindexed, uncounted⟩ := s
  cases posted with
  | whole => simp
  | cut hall => simpa using List.length_pos_iff.mpr hall.nonempty

/-- A delivery to stores that have nothing of the message. -/
theorem Progress.start (s : Shipment) (endpoint : Endpoint) (plain : Bytes) (m : Message)
    {w : World κ} (hlog : ⟨s.id, endpoint.name⟩ ∉ w.log.items)
    (hchunks : ∀ c ∈ w.chunks.items, c.messageId ≠ s.id) :
    s.Progress endpoint plain m [] [] ⟨{}, w⟩ := by
  have hparked : ({} : ChunkSession).parked w.chunks s.id = [] := by
    rw [ChunkSession.parked_empty]
    exact List.filter_eq_nil_iff.mpr fun c hc => by simpa using hchunks c hc
  refine .awaited ?_ rfl
  dsimp only
  rw [hparked]
  refine ⟨?_, List.nodup_nil, by simp, by simp, s.length_parcels_pos⟩
  rw [LogSession.mem_view_empty]
  exact hlog

end Shipment

/-! ## Deliveries to reliable stores -/

/-- The stores are reliable and the transaction has nothing but its sessions to commit. -/
structure Inbox.Sure (b : Inbox κ) : Prop where
  world : b.world.Reliable
  outbox : b.transaction.outbox = []
  resources : b.transaction.resources = []

namespace Delivery

variable {wire : Wire} {endpoint : Endpoint}

theorem receive_sure {b : Inbox κ} (hb : b.Sure) (m : RawMessage) :
    Ensures (receive (.create wire []) endpoint m) b (fun _ b' => b'.Sure)
      fun r => r.message = m ∧ ¬ r.error.Refused := by
  have hno : ∀ e, RawEnvelope.ofMessage endpoint m = .error e →
      ¬ (InboundError.envelope e).Refused := by
    rintro e - ⟨e', h | h⟩ <;> cases h
  have hfrank := (Inbound.frank_ofExcept hno).bind
    (fun raw => Pipeline.process_frank wire raw) b hb.world
  refine ensures_intro ?_ ?_
  · intro o b' h
    obtain ⟨raw, hraw, hproc⟩ := receive_ok h
    obtain ⟨-, o', hin, -, -⟩ := Pipeline.process_ok hproc
    refine ⟨?_, hin.outbox.trans hb.outbox, hin.resources.trans hb.resources⟩
    exact (Pipeline.process_frank wire raw b hb.world).ok hproc
  · intro r b' h
    obtain ⟨e, hr, rfl⟩ := adaptExcept_error.mp h
    exact ⟨rfl, hfrank.error hr⟩

theorem receiveAll_sure {ms : List RawMessage} {b : Inbox κ} (hb : b.Sure) :
    Ensures (receiveAll (.create wire []) endpoint ms) b (fun _ b' => b'.Sure)
      fun r => r.message ∈ ms ∧ ¬ r.error.Refused := by
  induction ms generalizing b with
  | nil => exact ensures_pure hb
  | cons m ms ih =>
    have hfirst : Ensures (receive (.create wire []) endpoint m) b (fun _ b' => b'.Sure)
        fun r => r.message ∈ m :: ms ∧ ¬ r.error.Refused :=
      (receive_sure hb m).mono fun r hr => ⟨by rw [hr.1]; exact List.mem_cons_self, hr.2⟩
    refine hfirst.bind fun first b' hb' => ?_
    refine ((ih hb').mono fun r hr => ⟨List.mem_cons_of_mem m hr.1, hr.2⟩).bind ?_
    exact fun rest b'' hb'' => ensures_pure hb''

theorem batch_sure {ms : List RawMessage} {w : World κ} (hw : w.Reliable) :
    Ensures (batch (.create wire []) wire endpoint ms) w (fun _ w' => w'.Reliable)
      fun f => ∃ r, f = .rejected r ∧ r.message ∈ ms ∧ ¬ r.error.Refused := by
  have hall : Ensures (receiveAll (.create wire []) endpoint ms) ⟨{}, w⟩ (fun _ b' => b'.Sure)
      fun r => r.message ∈ ms ∧ ¬ r.error.Refused := receiveAll_sure ⟨hw, rfl, rfl⟩
  refine ensures_intro ?_ ?_
  · intro o w' h
    unfold batch at h
    split at h
    · cases h
    · next o b hb =>
      obtain ⟨hworld, hout, hres⟩ := hall.ok hb
      split at h
      · cases h
      · next w' hc =>
        cases h
        exact (Transaction.commit_assured wire hout hres _ hworld).ok hc
  · intro f w' h
    unfold batch at h
    split at h
    · next r b hb =>
      cases h
      exact ⟨r, rfl, hall.error hb⟩
    · next o b hb =>
      obtain ⟨hworld, hout, hres⟩ := hall.ok hb
      split at h
      · next e w' hc => exact ((Transaction.commit_assured wire hout hres _ hworld).error hc).elim
      · cases h

/-- **With reliable stores only a message ends a delivery early**, one that is rejected for what
is in it. -/
theorem deliver_sure {batches : List (List RawMessage)} {w : World κ} (hw : w.Reliable) :
    Ensures (deliver (.create wire []) wire endpoint batches) w (fun _ w' => w'.Reliable)
      fun f => ∃ r, f = .rejected r ∧ r.message ∈ batches.flatten ∧ ¬ r.error.Refused := by
  induction batches generalizing w with
  | nil => exact ensures_pure hw
  | cons ms batches ih =>
    rw [List.flatten_cons]
    refine ((batch_sure hw).mono ?_).bind fun first w' hw' =>
      ((ih hw').mono ?_).bind fun rest w'' hw'' => ensures_pure hw''
    · rintro f ⟨r, rfl, hm, hr⟩
      exact ⟨r, rfl, List.mem_append_left _ hm, hr⟩
    · rintro f ⟨r, rfl, hm, hr⟩
      exact ⟨r, rfl, List.mem_append_right _ hm, hr⟩

end Delivery

/-! ## The round trip -/

namespace Delivery

/-- Of the messages under the id exactly the raw messages that went out are delivered, each at
least once. -/
structure Delivers (id : String) (raws ms : List RawMessage) : Prop where
  only : ∀ m ∈ ms, m.headers.get? Headers.messageId = some id → ∃ r ∈ raws, m.parcel = r.parcel
  all : ∀ r ∈ raws, ∃ m ∈ ms, m.parcel = r.parcel

/-- **The round trip of a message.** What a producer put on the transport for a message without
chunk headers, of a type whose codec reads back, is delivered to a consumer that has nothing of its
id yet, each raw message at least once, in any order, among other messages and in any batches.
Unless another message is rejected or a store refuses a call, exactly one envelope of its id comes
out: with the message, and with the headers that serialization and encryption left. -/
theorem round_trip {wire : Wire} {o : Outgoing} {r : Record} {id : String} {w₀ w₁ : World κ}
    (hw : wire.Faithful) (hm : o.message = .record r)
    (hr : (wire.registry.codec r.type).ReadsBack)
    (hindex : o.headers.get? Headers.chunkIndex = none)
    (hcount : o.headers.get? Headers.chunksCount = none)
    (hs : World.send wire o w₀ = .ok id w₁) :
    ∃ plain packed headers raws, (wire.registry.codec r.type).encode r.values = some plain ∧
      wire.pack o.message (o.headers.insertIfMissing Headers.messageId id) = .ok (packed, headers) ∧
      headers.get? Headers.chunkIndex = none ∧ headers.get? Headers.chunksCount = none ∧
      w₁.transport.produced o.endpoint.name = w₀.transport.produced o.endpoint.name ++ raws ∧
      (raws.length < UInt32.size → ∀ (endpoint : Endpoint) (w : World κ)
        (batches : List (List RawMessage)), ⟨id, endpoint.name⟩ ∉ w.log.items →
        (∀ c ∈ w.chunks.items, c.messageId ≠ id) → Delivers id raws batches.flatten →
        (∀ f t, deliver (.create wire []) wire endpoint batches w = .error f t → ¬ f.Foreign id) →
        ∃ out t offset, deliver (.create wire []) wire endpoint batches w = .ok out t ∧
          out.filter (Message.isOf id) =
            [.inbound ⟨plain, headers, endpoint, offset, id⟩ (some o.message) true]) := by
  obtain ⟨packed, headers, raws, hpack, hid, hproduced, hmap⟩ := World.send_ok hs
  rw [hm] at hpack
  obtain ⟨plain, hplain, hun, hkept⟩ := Wire.pack_ok hw hr hpack
  have hnamed : headers.get? Headers.messageId = some id := (hkept _ (by simp)).trans hid
  have hunindexed : headers.get? Headers.chunkIndex = none := by
    rw [hkept _ (by simp), Headers.get?_insertIfMissing _ _ (by decide), hindex]
  have huncounted : headers.get? Headers.chunksCount = none := by
    rw [hkept _ (by simp), Headers.get?_insertIfMissing _ _ (by decide), hcount]
  refine ⟨plain, packed, headers, raws, hplain, by rw [hm]; exact hpack, hunindexed, huncounted,
    hproduced, ?_⟩
  intro hlength endpoint w batches hlog hchunks hdelivers herror
  rw [← List.length_map RawMessage.parcel, hmap] at hlength
  obtain ⟨all, hposted⟩ := parcels_posted id o.endpoint packed headers hlength
  let s : Shipment := ⟨id, packed, headers, all, _, hposted, hnamed, hunindexed, huncounted⟩
  have hparcels : s.parcels = raws.map RawMessage.parcel := hmap.symm
  have hms : ∀ x ∈ batches.flatten,
      x.headers.get? Headers.messageId = some s.id → x.parcel ∈ s.parcels := by
    intro x hx hxid
    obtain ⟨raw, hraw, he⟩ := hdelivers.only x hx hxid
    rw [hparcels, he]
    exact List.mem_map_of_mem hraw
  have hrun := (Shipment.Progress.start s endpoint plain o.message hlog hchunks).deliver
    (by rw [hm]; exact hun) hms
  cases hd : deliver (.create wire []) wire endpoint batches w with
  | error f t => exact absurd (hrun.error hd) (herror f t hd)
  | ok out t =>
    cases hrun.ok hd with
    | awaited h =>
      -- every parcel was seen
      obtain ⟨p, hp, hmissing⟩ := h.incomplete
      rw [hparcels] at hp
      obtain ⟨raw, hraw, rfl⟩ := List.mem_map.mp hp
      obtain ⟨x, hx, he⟩ := hdelivers.all raw hraw
      refine absurd (List.mem_append_right _ ?_) hmissing
      rw [← he]
      exact List.mem_map_of_mem hx
    | arrived offset hin hone => exact ⟨out, t, offset, rfl, hone⟩

end Delivery

/-! ### An order in three pieces -/

theorem Script.cipher_faithful (key : UInt8) (limit : Option Nat) :
    (Script.cipher key limit).Faithful := by
  have hencrypt : ∀ {plain packed : Bytes} {h h' : Headers},
      (cipher key limit).encrypt plain h = .ok (packed, h') →
      packed = mask key plain ∧ h' = h.insert keyHeader (toString key.toNat) := by
    intro plain packed h h' he
    unfold cipher at he
    dsimp only at he
    split at he <;> cases he
    exact ⟨rfl, rfl⟩
  refine ⟨?_, ?_⟩
  · intro plain packed h h' he
    obtain ⟨rfl, rfl⟩ := hencrypt he
    unfold cipher
    dsimp only
    rw [Headers.get?_insert_self]
    simp [mask_mask]
  · intro plain packed h h' he name hname
    obtain ⟨-, rfl⟩ := hencrypt he
    refine Headers.get?_insert_of_ne _ _ ?_
    have hall : ∀ name ∈ [Headers.messageId, Headers.messageType, Headers.chunkIndex,
      Headers.chunksCount], sameName keyHeader name = false := by decide
    exact hall name hname

namespace Delivery

def tea : Record := ⟨⟨"Order", [.command], [("item", .text)]⟩, "tea", ()⟩

def teaWire : Wire := ⟨.ofList [(tea.type, "order")], some (Script.cipher 7 none)⟩

def teaOut : Outgoing := ⟨⟨"orders", some 6, []⟩, .record tea, ⟨[]⟩⟩

def teaId : String := "00000000-0000-4000-8000-000000000000"

/-- Where the order was sent. -/
def teaSent : World Unit := ((World.send teaWire teaOut).exec Course.emptyWorld).2

/-- Three pieces in two transactions, the last one first and two of them again. -/
def shuffled : List RawMessage → List (List RawMessage)
  | [a, b, c] => [[c, a], [a, b, c]]
  | _ => []

theorem teaSent_ok : World.send teaWire teaOut Course.emptyWorld = .ok teaId teaSent := by
  have hid : ((World.send teaWire teaOut).exec Course.emptyWorld).1 = .ok teaId := by decide +kernel
  exact Op.exec_ok.mp (Prod.ext hid rfl)

/-- The order goes out in three pieces and comes out whole, once. -/
theorem round_trip_shuffled :
    (teaSent.transport.produced "orders").length = 3 ∧ ∃ headers out t offset,
      deliver (.create teaWire []) teaWire teaOut.endpoint
        (shuffled (teaSent.transport.produced "orders")) Course.emptyWorld = .ok out t ∧
      out.filter (Message.isOf teaId) =
        [.inbound ⟨tea.encode, headers, teaOut.endpoint, offset, teaId⟩ (some (.record tea)) true] := by
  have hfaithful : teaWire.Faithful := by
    intro c hc
    cases hc
    exact Script.cipher_faithful 7 none
  have hproper : tea.type.Proper := by decide
  have hback : (teaWire.registry.codec tea.type).ReadsBack := hproper.readsBack
  obtain ⟨plain, packed, headers, raws, hplain, -, -, -, hproduced, hround⟩ :=
    round_trip hfaithful rfl hback rfl rfl teaSent_ok
  obtain rfl : tea.encode = plain := Option.some.inj hplain
  have hraws : teaSent.transport.produced "orders" = raws := hproduced
  have hthree : (teaSent.transport.produced "orders").length = 3 := by decide +kernel
  have hids : ∀ m ∈ (shuffled (teaSent.transport.produced "orders")).flatten,
      m.headers.get? Headers.messageId = some teaId := by decide +kernel
  refine ⟨hthree, ?_⟩
  rw [hraws] at hthree hids ⊢
  have hreliable : Course.emptyWorld.Reliable := ⟨⟨[], rfl⟩, ⟨[], rfl⟩, rfl⟩
  have hdelivers : Delivers teaId raws (shuffled raws).flatten := by
    obtain ⟨a, b, c, rfl⟩ := List.length_eq_three.mp hthree
    constructor <;> simp [shuffled]
  have herror : ∀ f t, deliver (.create teaWire []) teaWire teaOut.endpoint (shuffled raws)
      Course.emptyWorld = .error f t → ¬ f.Foreign teaId := by
    intro f t hf
    obtain ⟨r, rfl, hm, hno⟩ := (deliver_sure hreliable).error hf
    rintro (hid | hrefused)
    · exact hid (hids r.message hm)
    · exact hno hrefused
  obtain ⟨out, t, offset, hout, hone⟩ := hround (by rw [hthree]; decide) teaOut.endpoint
    Course.emptyWorld (shuffled raws) List.not_mem_nil (fun _ h => nomatch h) hdelivers herror
  exact ⟨headers, out, t, offset, hout, hone⟩

end Delivery

end Relay
