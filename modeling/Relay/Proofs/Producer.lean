import Relay.Proofs.Chunk
import Relay.Proofs.Intake
import Relay.Proofs.Registry
/-!
# What a producer puts on the transport

`send_ok`: a message that was sent is on the topic as its payload or its chunks, under the headers
that serialization and encryption have left. `pack_ok`: payload and headers can be unpacked to the
message again, whose id and chunk headers packing leaves alone.
-/
namespace Relay

variable {κ : Type}

/-! ## Packing -/

/-- Decryption undoes encryption on the headers that encryption leaves, and encryption leaves the
message id, the message type and the chunk headers alone. -/
structure Cipher.Faithful (c : Cipher) : Prop where
  undone : ∀ {plain packed : Bytes} {h h' : Headers}, c.encrypt plain h = .ok (packed, h') →
    c.decrypt packed h' = .ok plain
  headers : ∀ {plain packed : Bytes} {h h' : Headers}, c.encrypt plain h = .ok (packed, h') →
    ∀ name ∈ [Headers.messageId, Headers.messageType, Headers.chunkIndex, Headers.chunksCount],
      h'.get? name = h.get? name

/-- There is no cipher, or it is faithful. -/
def Wire.Faithful (w : Wire) : Prop := ∀ c, w.cipher = some c → c.Faithful

theorem Registry.serialize_ok {reg : Registry} {r : Record} {h h' : Headers} {payload : Bytes}
    (hs : reg.serialize (.record r) h = .ok (payload, h')) :
    (reg.codec r.type).encode r.values = some payload ∧ ∃ name, reg.typeOf name = some r.type ∧
      h' = h.insert Headers.messageType name := by
  unfold serialize at hs
  cases hw : reg.write (.record r) h with
  | error e u => rw [hw] at hs; cases hs
  | ok bytes u =>
    rw [hw] at hs
    cases hs
    obtain ⟨v, name, hv, -, ht, hbytes, rfl⟩ := write_ok hw
    cases hv
    exact ⟨hbytes, name, ht, rfl⟩

theorem Registry.deserialize_ok {reg : Registry} {r : Record} {h : Headers} {name : String}
    {payload : Bytes} (hr : (reg.codec r.type).ReadsBack)
    (hbytes : (reg.codec r.type).encode r.values = some payload)
    (hname : h.get? Headers.messageType = some name) (ht : reg.typeOf name = some r.type) :
    reg.deserialize payload h = .ok (.record r) :=
  deserialize_encode (hr _ _ hbytes) hname ht

/-- **What was packed is unpacked to the message.** -/
theorem Wire.pack_ok {w : Wire} (hw : w.Faithful) {r : Record}
    (hr : (w.registry.codec r.type).ReadsBack) {h headers : Headers} {packed : Bytes}
    (hp : w.pack (.record r) h = .ok (packed, headers)) :
    ∃ plain, (w.registry.codec r.type).encode r.values = some plain ∧
      w.unpack packed headers = .ok (plain, .record r) ∧
      ∀ name ∈ [Headers.messageId, Headers.chunkIndex, Headers.chunksCount],
        headers.get? name = h.get? name := by
  have htype : ∀ name ∈ [Headers.messageId, Headers.chunkIndex, Headers.chunksCount],
      sameName Headers.messageType name = false := by decide
  unfold pack at hp
  split at hp
  · cases hp
  · next plain h₁ hs =>
    obtain ⟨hplain, name, ht, rfl⟩ := Registry.serialize_ok hs
    have hname := Headers.get?_insert_self h Headers.messageType name
    split at hp
    · next hc =>
      cases hp
      refine ⟨_, hplain, ?_, fun other ho => Headers.get?_insert_of_ne _ _ (htype other ho)⟩
      unfold unpack
      rw [hc]
      dsimp only
      rw [Registry.deserialize_ok hr hplain hname ht]
    · next c hc =>
      cases he : c.encrypt plain (h.insert Headers.messageType name) with
      | error e => rw [he] at hp; cases hp
      | ok p =>
        rw [he] at hp
        cases hp
        have hkept := (hw c hc).headers he
        refine ⟨plain, hplain, ?_, fun other ho => ?_⟩
        · have hname' : headers.get? Headers.messageType = some name :=
            (hkept _ (by simp)).trans hname
          unfold unpack
          rw [hc]
          dsimp only
          rw [(hw c hc).undone he]
          dsimp only
          rw [Registry.deserialize_ok hr hplain hname' ht]
        · have hother : headers.get? other = (h.insert Headers.messageType name).get? other := by
            refine hkept other ?_
            simp only [List.mem_cons, List.not_mem_nil, or_false] at ho ⊢
            tauto
          rw [hother]
          exact Headers.get?_insert_of_ne _ _ (htype other ho)

/-! ## Producing -/

/-- What a raw message consists of, beside its place on the transport. -/
def RawMessage.parcel (m : RawMessage) : Bytes × Headers := (m.payload, m.headers)

theorem Transport.produce_produced {t t' : Transport} {name : String} {payload : Bytes} {h : Headers}
    (hp : t.produce name payload h = .ok t') :
    ∃ raw, t'.produced name = t.produced name ++ [raw] ∧ raw.parcel = (payload, h) := by
  unfold produce at hp
  split at hp
  · cases hp
  · cases hp
    refine ⟨⟨payload, h, some (toString (t.topic name).log.length)⟩, ?_, rfl⟩
    change ((t.setTopic name _).topic name).log = _
    rw [topic_setTopic, if_pos rfl]
    rfl

namespace World

theorem produce_produced {endpoint : Endpoint} {payload : Bytes} {h : Headers} {w w' : World κ}
    (hp : produce endpoint payload h w = .ok () w') :
    ∃ raw, w'.transport.produced endpoint.name = w.transport.produced endpoint.name ++ [raw] ∧
      raw.parcel = (payload, h) := by
  obtain ⟨_, u, hg, h1⟩ := bind_ok hp
  have hu : Alike w u := (guardTransport_alike _ _).ok hg
  rw [bind_get] at h1
  obtain ⟨t, _, ht, h2⟩ := bind_ok h1
  obtain ⟨ht, rfl⟩ := Op.ofExcept_ok.mp ht
  cases h2
  rw [← hu.transport]
  exact Transport.produce_produced ht

theorem produceAll_produced {endpoint : Endpoint} {ps : List (Bytes × Headers)} {w w' : World κ}
    (hp : produceAll endpoint ps w = .ok () w') :
    ∃ raws, w'.transport.produced endpoint.name = w.transport.produced endpoint.name ++ raws ∧
      raws.map RawMessage.parcel = ps := by
  induction ps generalizing w with
  | nil =>
    cases hp
    exact ⟨[], by simp, rfl⟩
  | cons p ps ih =>
    obtain ⟨_, u, hu, hrest⟩ := bind_ok hp
    obtain ⟨raw, hfirst, hraw⟩ := produce_produced hu
    obtain ⟨raws, hraws, hmap⟩ := ih hrest
    refine ⟨raw :: raws, ?_, ?_⟩
    · rw [hraws, hfirst, List.append_assoc, List.singleton_append]
    · rw [List.map_cons, hraw, hmap]

/-- The message leaves under its id, its own or a new one. -/
theorem identify_ok {ε : Type} {h h' : Headers} {id : String} {w w' : World κ}
    (hi : (identify h : Op κ ε _) w = .ok (id, h') w') :
    h' = h.insertIfMissing Headers.messageId id ∧ h'.get? Headers.messageId = some id ∧
      w'.transport = w.transport := by
  unfold identify at hi
  cases hget : h.get? Headers.messageId with
  | some id' =>
    rw [hget] at hi
    cases hi
    have hc : h.contains Headers.messageId = true := Headers.contains_iff.mpr ⟨_, hget⟩
    refine ⟨?_, hget, rfl⟩
    unfold Headers.insertIfMissing
    rw [if_pos hc]
  | none =>
    rw [hget] at hi
    obtain ⟨fresh, u, hf, h1⟩ := bind_ok hi
    cases h1
    cases hf
    have hc : h.contains Headers.messageId = false := Headers.get?_eq_none.mp hget
    refine ⟨rfl, ?_, rfl⟩
    unfold Headers.insertIfMissing
    rw [hc, if_neg (by simp), ← Headers.insert_of_absent hc]
    exact Headers.get?_insert_self _ _ _

/-- **What was sent is on the topic.** -/
theorem send_ok {wire : Wire} {o : Outgoing} {id : String} {w w' : World κ}
    (h : send wire o w = .ok id w') :
    ∃ packed headers raws,
      wire.pack o.message (o.headers.insertIfMissing Headers.messageId id) = .ok (packed, headers) ∧
      (o.headers.insertIfMissing Headers.messageId id).get? Headers.messageId = some id ∧
      w'.transport.produced o.endpoint.name = w.transport.produced o.endpoint.name ++ raws ∧
      raws.map RawMessage.parcel = parcels o.endpoint packed headers := by
  obtain ⟨⟨id', h'⟩, u, hi, h1⟩ := bind_ok h
  obtain ⟨hh, hid, hu⟩ := identify_ok hi
  obtain ⟨⟨packed, headers⟩, v, hp, h2⟩ := bind_ok h1
  obtain ⟨hpack, rfl⟩ := Op.ofExcept_ok.mp hp
  obtain ⟨_, x, hall, h3⟩ := bind_ok h2
  cases h3
  obtain ⟨raws, hraws, hmap⟩ := produceAll_produced (Op.mapError_ok.mp hall)
  rw [hh] at hpack hid
  rw [hu] at hraws
  exact ⟨packed, headers, raws, hpack, hid, hraws, hmap⟩

end World

end Relay
