import Relay.Config.Apply
import Relay.Proofs.PolicyConfig
/-!
# Applying a configuration

Only policies are checked before the broker is touched, and a configuration can fail later, at a
consumer that the broker refuses. Still no consumer is ever left behind: applying changes neither
whether the broker is connected nor whether it has a publisher, so a broker either takes every
consumer (`Broker.Open`) or none that it does not have already, and then the first consumer that
it refuses comes before any that is made.

**A hypothesis.** `s.world.broker = some b.number` says that the producers of the world are those
of the broker in service, as `Engine.install` puts it.

Results:
- `ConsumerConfig.settings_ok`: the settings of an entry, in terms of what is written.
- `getConsumer_open`, `getConsumer_closed`: one consumer, on a broker that takes it or does not.
- `applyConsumers_open`, `applyConsumers_closed`: all of them.
- `Engine.useProducer_adds`, `applyProducers_equips`: producers never fail, and leave the consumers.
- `apply_ok_iff`: when a configuration can be applied.
- `apply_all_or_nothing`: what it does then, and that it does nothing otherwise.
-/
namespace Relay

variable {κ : Type}

/-! ## Settings -/

/-- The settings that an entry of a configuration asks for: its batch, and its policy as it is
written, with the nested chains replaced by their members, where everything in it is valid. -/
inductive ConsumerConfig.Asks (c : ConsumerConfig) : ConsumerSettings → Prop
  | unset (h : c.policy = none) : Asks c ⟨c.batch, none⟩
  | policy {p} (h : c.policy = some p) (hv : ∀ q ∈ p.plain.nodes, q.validate = .ok ()) :
    Asks c ⟨c.batch, some p.plain.flat⟩

theorem ConsumerConfig.settings_ok {c : ConsumerConfig} {st : ConsumerSettings} :
    c.settings = .ok st ↔ c.Asks st := by
  unfold ConsumerConfig.settings
  cases hp : c.policy with
  | none =>
    constructor
    · intro h
      cases h
      exact .unset hp
    · rintro (h | ⟨h, -⟩)
      · rfl
      · rw [hp] at h
        cases h
  | some p =>
    dsimp only
    constructor
    · intro h
      cases hq : p.toPolicy with
      | error e => rw [hq] at h; cases h
      | ok q =>
        rw [hq] at h
        cases h
        obtain ⟨hv, rfl⟩ := PolicyConfig.toPolicy_ok.mp hq
        exact .policy hp hv
    · rintro (h | ⟨h, hv⟩)
      · rw [hp] at h
        cases h
      · rw [hp] at h
        cases h
        rw [PolicyConfig.toPolicy_ok.mpr ⟨hv, rfl⟩]
        rfl

theorem ConsumerConfig.Asks.valid {c : ConsumerConfig} {st : ConsumerSettings} (h : c.Asks st) :
    st.validate = .ok () := by
  cases h with
  | unset h => rfl
  | @policy p h hv => exact (Policy.flat_validate _).trans (hv _ (Policy.mem_nodes_self _))

namespace Config

theorem consumerSettings_cons_ok {c : ConsumerConfig} {cs : List ConsumerConfig}
    {entries : List (Endpoint × ConsumerSettings)} :
    consumerSettings (c :: cs) = .ok entries ↔ ∃ st rest, c.settings = .ok st ∧
      consumerSettings cs = .ok rest ∧ entries = (c.endpoint, st) :: rest := by
  rw [consumerSettings]
  cases c.settings with
  | error e => exact ⟨nofun, fun ⟨_, _, h, _⟩ => nomatch h⟩
  | ok st =>
    cases consumerSettings cs with
    | error e => exact ⟨nofun, fun ⟨_, _, _, h, _⟩ => nomatch h⟩
    | ok rest =>
      constructor
      · intro h
        cases h
        exact ⟨st, rest, rfl, rfl, rfl⟩
      · rintro ⟨_, _, ⟨⟩, ⟨⟩, rfl⟩
        rfl

/-- Every policy is checked. -/
theorem consumerSettings_ok {cs : List ConsumerConfig} :
    (∃ entries, consumerSettings cs = .ok entries) ↔ ∀ c ∈ cs, ∃ st, c.Asks st := by
  induction cs with
  | nil => exact ⟨fun _ => nofun, fun _ => ⟨[], rfl⟩⟩
  | cons c cs ih =>
    rw [List.forall_mem_cons, ← ih]
    constructor
    · rintro ⟨_, h⟩
      obtain ⟨st, rest, hst, hrest, -⟩ := consumerSettings_cons_ok.mp h
      exact ⟨⟨st, ConsumerConfig.settings_ok.mp hst⟩, rest, hrest⟩
    · rintro ⟨⟨st, hst⟩, rest, hrest⟩
      exact ⟨_, consumerSettings_cons_ok.mpr
        ⟨st, rest, ConsumerConfig.settings_ok.mpr hst, hrest, rfl⟩⟩

section
variable {cs : List ConsumerConfig} {entries : List (Endpoint × ConsumerSettings)}

theorem consumerSettings_valid (h : consumerSettings cs = .ok entries) :
    ∀ x ∈ entries, x.2.validate = .ok () := by
  induction cs generalizing entries with
  | nil => cases h; exact nofun
  | cons c cs ih =>
    obtain ⟨st, rest, hst, hrest, rfl⟩ := consumerSettings_cons_ok.mp h
    exact List.forall_mem_cons.mpr ⟨(ConsumerConfig.settings_ok.mp hst).valid, ih hrest⟩

theorem consumerSettings_endpoints (h : consumerSettings cs = .ok entries) :
    entries.map Prod.fst = cs.map ConsumerConfig.endpoint := by
  induction cs generalizing entries with
  | nil => cases h; rfl
  | cons c cs ih =>
    obtain ⟨st, rest, -, hrest, rfl⟩ := consumerSettings_cons_ok.mp h
    rw [List.map_cons, List.map_cons, ih hrest]

/-- The settings found for an endpoint are those of its first entry. -/
theorem consumerSettings_first (h : consumerSettings cs = .ok entries) {e : Endpoint}
    {st : ConsumerSettings} (hst : entries.lookup e = some st) :
    ∃ c, cs.find? (fun c => c.endpoint = e) = some c ∧ c.Asks st := by
  induction cs generalizing entries with
  | nil => cases h; cases hst
  | cons c cs ih =>
    obtain ⟨st', rest, hst', hrest, rfl⟩ := consumerSettings_cons_ok.mp h
    rw [List.lookup_cons] at hst
    by_cases he : c.endpoint = e
    · subst he
      rw [beq_self_eq_true] at hst
      cases hst
      exact ⟨c, by simp, ConsumerConfig.settings_ok.mp hst'⟩
    · rw [beq_eq_false_iff_ne.mpr (Ne.symm he)] at hst
      obtain ⟨d, hd, hds⟩ := ih hrest hst
      exact ⟨d, by simpa [List.find?_cons, he] using hd, hds⟩

end

end Config

/-! ## Consumers -/

namespace Broker

/-- The broker takes consumers that it does not have. -/
def Open (b : Broker κ) : Prop := b.connected = false ∧ b.publisher.isSome

/-- The settings of the consumer of an endpoint. -/
def settings? (b : Broker κ) (e : Endpoint) : Option ConsumerSettings :=
  (b.consumer? e).map Consumer.settings

/-- What the broker becomes by asking for these consumers: it keeps those it has, and the others
get the settings they are first asked for with. -/
structure Enlists (entries : List (Endpoint × ConsumerSettings)) (b b' : Broker κ) : Prop where
  rest : b' = { b with consumers := b'.consumers }
  kept : b.consumers <+: b'.consumers
  settings : ∀ e, b'.settings? e = (b.settings? e).or (entries.lookup e)

variable {b b' b'' : Broker κ} {entries entries' : List (Endpoint × ConsumerSettings)}

/-- Nothing is to be done for consumers that are there. -/
theorem Enlists.here (h : ∀ x ∈ entries, (b.consumer? x.1).isSome) : b.Enlists entries b where
  rest := rfl
  kept := List.prefix_rfl
  settings e := by
    cases hb : b.settings? e with
    | some st => rfl
    | none =>
      have hnone : entries.lookup e = none := by
        rw [List.lookup_eq_none_iff]
        intro x hx
        rw [bne_iff_ne]
        rintro rfl
        have hsome := h x hx
        rw [Option.map_eq_none_iff.mp hb] at hsome
        cases hsome
      rw [hnone]
      rfl

theorem Enlists.append (h : b.Enlists entries b') (h' : b'.Enlists entries' b'') :
    b.Enlists (entries ++ entries') b'' where
  rest := by rw [h'.rest, h.rest]
  kept := h.kept.trans h'.kept
  settings e := by rw [h'.settings, h.settings, Option.or_assoc, List.lookup_append]

/-- The broker is as open as before. -/
theorem Enlists.opens (h : b.Enlists entries b') (ho : b.Open) : b'.Open := by
  rw [h.rest]
  exact ho

/-- A new consumer has the settings it is asked for with. -/
theorem Enlists.new {c : Consumer κ} (h : b.consumer? c.endpoint = none) :
    b.Enlists [(c.endpoint, c.settings)] { b with consumers := b.consumers ++ [c] } where
  rest := rfl
  kept := List.prefix_append _ _
  settings e := by
    have hfind : ∀ e, ({ b with consumers := b.consumers ++ [c] } : Broker κ).consumer? e =
        (b.consumer? e).or (if c.endpoint = e then some c else none) := by
      intro e
      unfold consumer?
      rw [List.find?_append]
      by_cases he : c.endpoint = e <;> simp [he]
    unfold settings?
    rw [hfind, List.lookup_cons]
    by_cases he : c.endpoint = e
    · subst he
      rw [h, beq_self_eq_true, if_pos rfl]
      rfl
    · rw [beq_eq_false_iff_ne.mpr (Ne.symm he), if_neg he, Option.or_none]
      simp

theorem getConsumerWith_new (id : Nat) {e : Endpoint} {st : ConsumerSettings} (ho : b.Open)
    (hv : st.validate = .ok ()) (hc : b.consumer? e = none) :
    ∃ c : Consumer κ, c.endpoint = e ∧ c.settings = st ∧
      b.getConsumerWith id e st = .ok (c, { b with consumers := b.consumers ++ [c] }) := by
  obtain ⟨hoff, hbound⟩ := ho
  unfold getConsumerWith
  rw [hc]
  dsimp only
  rw [if_neg (by rw [hoff]; exact Bool.false_ne_true), hv]
  dsimp only
  split
  · next hnone =>
    rw [hnone] at hbound
    cases hbound
  · exact ⟨_, rfl, rfl, rfl⟩

end Broker

open Broker (Enlists)

namespace Engine

variable {s : Engine κ} {b : Broker κ} {e : Endpoint} {st : ConsumerSettings}

/-- A consumer that is there is found, whatever the broker's state. -/
theorem getConsumer_here {c : Consumer κ} (hb : s.broker = some b) (hc : b.consumer? e = some c) :
    s.getConsumer e st = (.ok (some c), { s with nextId := s.nextId + 1 }) := by
  unfold getConsumer Broker.getConsumerWith
  rw [hb]
  dsimp only
  rw [hc]

/-- **A broker that is open has the consumer afterwards.** -/
theorem getConsumer_open (hb : s.broker = some b) (ho : b.Open) (hv : st.validate = .ok ()) :
    ∃ c b', b.Enlists [(e, st)] b' ∧
      s.getConsumer e st = (.ok c, { s with broker := some b', nextId := s.nextId + 1 }) := by
  cases hc : b.consumer? e with
  | some c =>
    refine ⟨some c, b, .here fun x hx => ?_, ?_⟩
    · rw [List.mem_singleton.mp hx, hc]
      rfl
    · rw [getConsumer_here hb hc, ← hb]
  | none =>
    obtain ⟨c, rfl, rfl, hget⟩ := Broker.getConsumerWith_new s.nextId ho hv hc
    unfold getConsumer
    rw [hb]
    dsimp only
    rw [hget]
    exact ⟨_, _, .new hc, rfl⟩

/-- **A broker that is not open refuses a consumer it does not have**, and is as it was. -/
theorem getConsumer_closed (st : ConsumerSettings) (hb : s.broker = some b) (ho : ¬ b.Open)
    (hc : b.consumer? e = none) : ∃ err, s.getConsumer e st = (.error err, s) := by
  unfold getConsumer Broker.getConsumerWith
  rw [hb]
  dsimp only
  rw [hc]
  dsimp only
  cases hon : b.connected with
  | true => exact ⟨_, rfl⟩
  | false =>
    cases hp : b.publisher with
    | some p => exact absurd ⟨hon, by rw [hp]; rfl⟩ ho
    | none => cases st.validate <;> exact ⟨_, rfl⟩

end Engine

namespace Config

variable {s : Engine κ} {b : Broker κ} {entries : List (Endpoint × ConsumerSettings)}

/-- **A broker that is open takes all consumers.** -/
theorem applyConsumers_open (hb : s.broker = some b) (ho : b.Open)
    (hv : ∀ x ∈ entries, x.2.validate = .ok ()) :
    ∃ b' n, b.Enlists entries b' ∧
      applyConsumers entries s = (.ok (), { s with broker := some b', nextId := n }) := by
  induction entries generalizing s b with
  | nil => exact ⟨b, s.nextId, .here nofun, by rw [applyConsumers, ← hb]⟩
  | cons x entries ih =>
    obtain ⟨hx, hrest⟩ := List.forall_mem_cons.mp hv
    obtain ⟨c, b₁, hone, hget⟩ := Engine.getConsumer_open (e := x.1) hb ho hx
    let s₁ : Engine κ := { s with broker := some b₁, nextId := s.nextId + 1 }
    obtain ⟨b', n, hall, happly⟩ := ih (s := s₁) (b := b₁) rfl (hone.opens ho) hrest
    exact ⟨b', n, hone.append hall, by rw [applyConsumers, hget]; exact happly⟩

/-- **A broker that is not open is left as it was**, and finds the consumers if it has them all. -/
theorem applyConsumers_closed (entries : List (Endpoint × ConsumerSettings))
    (hb : s.broker = some b) (ho : ¬ b.Open) :
    ∃ r n, applyConsumers entries s = (r, { s with nextId := n }) ∧
      (r = .ok () ↔ ∀ x ∈ entries, (b.consumer? x.1).isSome) := by
  induction entries generalizing s with
  | nil => exact ⟨.ok (), s.nextId, rfl, fun _ => nofun, fun _ => rfl⟩
  | cons x entries ih =>
    cases hc : b.consumer? x.1 with
    | none =>
      obtain ⟨err, hget⟩ := Engine.getConsumer_closed x.2 hb ho hc
      refine ⟨.error err, s.nextId, by rw [applyConsumers, hget], nofun, fun h => ?_⟩
      have hsome := h x List.mem_cons_self
      rw [hc] at hsome
      cases hsome
    | some c =>
      let s₁ : Engine κ := { s with nextId := s.nextId + 1 }
      obtain ⟨r, n, happly, hall⟩ := ih (s := s₁) hb
      refine ⟨r, n, by rw [applyConsumers, Engine.getConsumer_here hb hc]; exact happly, ?_⟩
      rw [hall, List.forall_mem_cons, hc]
      exact ⟨fun h => ⟨rfl, h⟩, And.right⟩

end Config

/-! ## Producers -/

namespace Engine

/-- Waking workers changes neither the broker nor the world. -/
theorem notify_same (s : Engine κ) (topic : String) :
    (s.notify topic).broker = s.broker ∧ (s.notify topic).world = s.world := by
  have hwake : ∀ (ids : List Nat) (s : Engine κ),
      (ids.foldl (fun s id => s.wake id) s).broker = s.broker ∧
        (ids.foldl (fun s id => s.wake id) s).world = s.world := by
    intro ids
    induction ids with
    | nil => exact fun _ => ⟨rfl, rfl⟩
    | cons id ids ih =>
      intro s
      have hone : (s.wake id).broker = s.broker ∧ (s.wake id).world = s.world := by
        unfold wake
        split <;> exact ⟨rfl, rfl⟩
      exact ⟨(ih _).1.trans hone.1, (ih _).2.trans hone.2⟩
  unfold notify
  rcases s.waiters.partition (s.listensTo topic) with ⟨woken, waiters⟩
  exact hwake woken _

theorem notifyAll_same (s : Engine κ) :
    s.notifyAll.broker = s.broker ∧
      s.notifyAll.world = { s.world with transport := { s.world.transport with notices := [] } } := by
  have hall : ∀ (topics : List String) (s : Engine κ),
      (topics.foldl notify s).broker = s.broker ∧ (topics.foldl notify s).world = s.world := by
    intro topics
    induction topics with
    | nil => exact fun _ => ⟨rfl, rfl⟩
    | cons topic topics ih =>
      intro s
      have hone := notify_same s topic
      exact ⟨(ih _).1.trans hone.1, (ih _).2.trans hone.2⟩
  exact hall _ _

/-- **The producer is there afterwards**, added at the end unless it was. -/
theorem useProducer_adds {s : Engine κ} {n : Nat} (h : s.world.broker = some n) (e : Endpoint) :
    (s.useProducer n e).broker = s.broker ∧ (s.useProducer n e).world.broker = some n ∧
      (s.useProducer n e).world.producers =
        if e ∈ s.world.producers then s.world.producers else s.world.producers ++ [e] := by
  have hput : ∀ world : World κ, world.broker = s.world.broker →
      ({ s with world } : Engine κ).notifyAll.broker = s.broker ∧
        ({ s with world } : Engine κ).notifyAll.world.broker = some n ∧
        ({ s with world } : Engine κ).notifyAll.world.producers = world.producers := by
    intro world hw
    obtain ⟨hbroker, hworld⟩ := notifyAll_same { s with world }
    rw [hbroker, hworld]
    exact ⟨rfl, hw.trans h, rfl⟩
  have huse : s.useProducer n e = ({ s with
      world :=
        if s.world.broker = some n ∧ e ∉ s.world.producers then
          { s.world with producers := s.world.producers ++ [e] }
        else s.world } : Engine κ).notifyAll := rfl
  rw [huse]
  by_cases he : e ∈ s.world.producers
  · rw [if_neg fun hand => hand.2 he, if_pos he]
    exact hput _ rfl
  · rw [if_pos ⟨h, he⟩, if_neg he]
    exact hput _ rfl

end Engine

namespace Config

/-- The producers are those there were and then the new ones of the configuration. -/
structure Equips (es : List Endpoint) (s s' : Engine κ) : Prop where
  broker : s'.broker = s.broker
  kept : s.world.producers <+: s'.world.producers
  mem : ∀ e, e ∈ s'.world.producers ↔ e ∈ s.world.producers ∨ e ∈ es

/-- **Producers never fail**, and leave the broker's consumers. -/
theorem applyProducers_equips (es : List Endpoint) {s : Engine κ} {b : Broker κ}
    (hb : s.broker = some b) (hw : s.world.broker = some b.number) :
    Equips es s (applyProducers es s) := by
  unfold applyProducers
  rw [hb]
  dsimp only
  clear hb
  induction es generalizing s with
  | nil => exact ⟨rfl, List.prefix_rfl, by simp⟩
  | cons e es ih =>
    obtain ⟨hbroker, hworld, hproducers⟩ := Engine.useProducer_adds hw e
    have hrest := ih hworld
    rw [List.foldl_cons]
    refine ⟨hrest.broker.trans hbroker, ?_, fun e' => ?_⟩
    · refine List.IsPrefix.trans ?_ hrest.kept
      rw [hproducers]
      split
      · exact List.prefix_rfl
      · exact List.prefix_append _ _
    · rw [hrest.mem, hproducers, List.mem_cons]
      by_cases he : e ∈ s.world.producers
      · rw [if_pos he]
        constructor
        · rintro (h | h)
          · exact .inl h
          · exact .inr (.inr h)
        · rintro (h | rfl | h)
          · exact .inl h
          · exact .inl he
          · exact .inr h
      · rw [if_neg he, List.mem_append, List.mem_singleton, or_assoc]

/-! ## The whole configuration -/

variable {c : Config} {s : Engine κ} {b : Broker κ}

/-- What a configuration that is applied makes of a broker. -/
structure Applied (c : Config) (s : Engine κ) (b : Broker κ) (s' : Engine κ) (b' : Broker κ) :
    Prop where
  broker : s'.broker = some b'
  /-- Everything configured is valid. -/
  valid : ∀ x ∈ c.consumers, ∃ st, x.Asks st
  /-- Only the consumers of the broker change, -/
  rest : b' = { b with consumers := b'.consumers }
  kept : b.consumers <+: b'.consumers
  keptProducers : s.world.producers <+: s'.world.producers
  /-- every configured endpoint has its consumer, -/
  consumers : ∀ x ∈ c.consumers, (b'.consumer? x.endpoint).isSome
  /-- and the producers are the configured ones and those there were. -/
  producers : ∀ e, e ∈ s'.world.producers ↔ e ∈ s.world.producers ∨ e ∈ c.producers
  /-- A consumer that was there keeps its settings, and all else it has, -/
  old : ∀ e d, b.consumer? e = some d → b'.consumer? e = some d
  /-- and a new one has those of the first entry for its endpoint. -/
  new : ∀ e d, b.consumer? e = none → b'.consumer? e = some d →
    ∃ x, c.consumers.find? (fun x => x.endpoint = e) = some x ∧ x.Asks d.settings

/-- What comes of asking for all consumers. -/
theorem applied {entries : List (Endpoint × ConsumerSettings)} {s₁ : Engine κ} {b' : Broker κ}
    (he : consumerSettings c.consumers = .ok entries) (h : b.Enlists entries b')
    (hb : s₁.broker = some b') (hw : s₁.world = s.world) (hs : s.world.broker = some b.number) :
    Applied c s b (applyProducers c.producers s₁) b' := by
  have hnumber : b'.number = b.number := by rw [h.rest]
  have hequips := applyProducers_equips c.producers hb (by rw [hw, hs, hnumber])
  have hfind : ∀ e d, b.consumer? e = some d → b'.consumer? e = some d := by
    intro e d hd
    obtain ⟨more, hmore⟩ := h.kept
    unfold Broker.consumer? at hd ⊢
    rw [← hmore, List.find?_append, hd, Option.some_or]
  refine ⟨hequips.broker.trans hb, consumerSettings_ok.mp ⟨_, he⟩, h.rest, h.kept,
    hw ▸ hequips.kept, ?_, hw ▸ hequips.mem, hfind, ?_⟩
  · intro x hx
    have hmem : x.endpoint ∈ entries.map Prod.fst := by
      rw [consumerSettings_endpoints he]
      exact List.mem_map_of_mem hx
    have hlookup : (entries.lookup x.endpoint).isSome := by
      rw [Option.isSome_iff_ne_none, Ne, List.lookup_eq_none_iff]
      intro hnone
      obtain ⟨y, hy, hyx⟩ := List.mem_map.mp hmem
      exact bne_iff_ne.mp (hnone y hy) hyx.symm
    have hset := h.settings x.endpoint
    have hsome : (b'.settings? x.endpoint).isSome := by
      rw [hset, Option.isSome_or, hlookup, Bool.or_true]
    unfold Broker.settings? at hsome
    rwa [Option.isSome_map] at hsome
  · intro e d hnone hsome
    have hset := h.settings e
    unfold Broker.settings? at hset
    rw [hnone, hsome] at hset
    exact consumerSettings_first he hset.symm

/-- A configuration whose policies are valid comes to the broker. -/
theorem apply_checked {entries : List (Endpoint × ConsumerSettings)}
    (he : consumerSettings c.consumers = .ok entries) : c.apply s =
      match applyConsumers entries s with
      | (.error e, s) => (.error (.broker e), s)
      | (.ok _, s) => (.ok (), applyProducers c.producers s) := by
  unfold apply
  split
  · next e h =>
    rw [he] at h
    cases h
  · next h =>
    rw [he] at h
    cases h
    rfl

/-- **What a configuration can be applied to**: its policies are valid, and the broker takes new
consumers or has all of them. -/
theorem apply_ok_iff (hb : s.broker = some b) : (c.apply s).1 = .ok () ↔
    (∀ x ∈ c.consumers, ∃ st, x.Asks st) ∧
      (b.Open ∨ ∀ x ∈ c.consumers, (b.consumer? x.endpoint).isSome) := by
  rw [← consumerSettings_ok]
  cases he : consumerSettings c.consumers with
  | error e =>
    unfold apply
    rw [he]
    exact ⟨nofun, fun ⟨⟨_, h⟩, _⟩ => nomatch h⟩
  | ok entries =>
    rw [apply_checked he]
    by_cases ho : b.Open
    · obtain ⟨b', n, -, happly⟩ := applyConsumers_open hb ho (consumerSettings_valid he)
      rw [happly]
      exact ⟨fun _ => ⟨⟨_, rfl⟩, .inl ho⟩, fun _ => rfl⟩
    · obtain ⟨r, n, happly, hr⟩ := applyConsumers_closed entries hb ho
      have hall : (∀ x ∈ entries, (b.consumer? x.1).isSome) ↔
          ∀ x ∈ c.consumers, (b.consumer? x.endpoint).isSome := by
        have hends := consumerSettings_endpoints he
        have hleft := List.forall_mem_map (f := Prod.fst) (l := entries)
          (P := fun e => (b.consumer? e).isSome)
        have hright := List.forall_mem_map (f := ConsumerConfig.endpoint) (l := c.consumers)
          (P := fun e => (b.consumer? e).isSome)
        rw [← hleft, hends, hright]
      rw [happly, ← hall, ← hr]
      cases r with
      | error e => exact ⟨nofun, fun h => h.2.elim (absurd · ho) nofun⟩
      | ok _ => exact ⟨fun _ => ⟨⟨_, rfl⟩, .inr rfl⟩, fun _ => rfl⟩

/-- **Applying a configuration is all or nothing.** If it fails, for whatever reason, the engine is
as it was, with all consumers and producers of the broker; only the ids of later consumers may be
other ones. If it succeeds, the broker has all that is configured, what it had before is as it was,
and a new consumer has the settings of the first entry for its endpoint. -/
theorem apply_all_or_nothing (c : Config) (hb : s.broker = some b)
    (hs : s.world.broker = some b.number) :
    (∀ e, (c.apply s).1 = .error e → ∃ n, (c.apply s).2 = { s with nextId := n }) ∧
      ((c.apply s).1 = .ok () → ∃ b', Applied c s b (c.apply s).2 b') := by
  cases he : consumerSettings c.consumers with
  | error e =>
    have heq : c.apply s = (.error (.policy e), s) := by
      unfold apply
      rw [he]
    rw [heq]
    exact ⟨fun _ _ => ⟨s.nextId, rfl⟩, nofun⟩
  | ok entries =>
    rw [apply_checked he]
    by_cases ho : b.Open
    · obtain ⟨b', n, hlist, happly⟩ := applyConsumers_open hb ho (consumerSettings_valid he)
      rw [happly]
      let s₁ : Engine κ := { s with broker := some b', nextId := n }
      have happlied : Applied c s b (applyProducers c.producers s₁) b' :=
        applied he hlist rfl rfl hs
      exact ⟨nofun, fun _ => ⟨b', happlied⟩⟩
    · obtain ⟨r, n, happly, hr⟩ := applyConsumers_closed entries hb ho
      rw [happly]
      cases r with
      | error err => exact ⟨fun _ _ => ⟨n, rfl⟩, nofun⟩
      | ok _ => exact ⟨nofun, fun _ => ⟨b, applied he (.here (hr.mp rfl)) hb rfl hs⟩⟩

/-- Orders, asked for twice, and a producer for what they lead to. -/
def ordering : Config where
  consumers :=
    [⟨⟨"orders", none, []⟩, { size := 10 }, some (.chain [.chain [.retry 3 100 0], .skip])⟩,
      ⟨⟨"orders", none, []⟩, {}, none⟩]
  producers := [⟨"invoices", none, []⟩]

/-- The orders, in the settings of their second entry. -/
def reordering : Config where
  consumers := [⟨⟨"orders", none, []⟩, {}, none⟩]

/-- A policy of no attempts, behind the orders. -/
def hopeless : Config where
  consumers := reordering.consumers ++ [⟨⟨"returns", none, []⟩, {}, some (.retry 0 0 0)⟩]

/-- A broker with a publisher and nothing else. -/
def newcomer : Broker Unit where
  number := 0
  wire := ⟨.empty, none⟩
  pipeline := ⟨Pipeline.builtIn ⟨.empty, none⟩⟩
  publisher := some ⟨[], [], .standard, [], 0, 0⟩

def opening : Engine Unit := Engine.install newcomer { world := World.create .memory }

/-- The orders are taken by a broker that is idle, with the settings of their first entry: ten at a
time, retried three times and then skipped. They keep these when other ones are asked for. A broker
that is connected refuses them, and then has no producer either, and neither does an invalid policy
lead to anything. -/
theorem ordering_applies_once :
    (∃ b' d, Applied ordering opening newcomer (ordering.apply opening).2 b' ∧
      b'.consumer? ⟨"orders", none, []⟩ = some d ∧
      d.settings = ⟨⟨10, 1000⟩, some (.chain [.retry ⟨3, 100, 0⟩, .skip])⟩ ∧
      (ordering.apply opening).2.world.producers = [⟨"invoices", none, []⟩] ∧
      ∃ b'', Applied reordering (ordering.apply opening).2 b'
          (reordering.apply (ordering.apply opening).2).2 b'' ∧
        b''.consumer? ⟨"orders", none, []⟩ = some d) ∧
    ((ordering.apply (opening.setConnected true)).1 =
        .error (.broker (.alreadyConnected "orders")) ∧
      ∃ n, (ordering.apply (opening.setConnected true)).2 =
        { opening.setConnected true with nextId := n }) ∧
    (hopeless.apply opening).1 = .error (.policy .zeroAttempts) ∧
      ∃ n, (hopeless.apply opening).2 = { opening with nextId := n } := by
  have hrefused : (ordering.apply (opening.setConnected true)).1 =
      .error (.broker (.alreadyConnected "orders")) := by rfl
  have hinvalid : (hopeless.apply opening).1 = .error (.policy .zeroAttempts) := by rfl
  refine ⟨?_, ⟨hrefused, (ordering.apply_all_or_nothing rfl rfl).1 _ hrefused⟩, hinvalid,
    (hopeless.apply_all_or_nothing rfl rfl).1 _ hinvalid⟩
  obtain ⟨b', happlied⟩ := (ordering.apply_all_or_nothing (s := opening) rfl rfl).2 rfl
  obtain ⟨d, hd⟩ := Option.isSome_iff_exists.mp (happlied.consumers _ List.mem_cons_self)
  obtain ⟨x, hx, hasks⟩ := happlied.new _ d rfl hd
  cases hx
  have hnumber : (ordering.apply opening).2.world.broker = some b'.number := by
    rw [happlied.rest]
    rfl
  obtain ⟨b'', hagain⟩ := (reordering.apply_all_or_nothing happlied.broker hnumber).2 rfl
  have hsettings := ConsumerConfig.settings_ok.mpr hasks
  exact ⟨b', d, happlied, hd, (Except.ok.inj hsettings).symm, rfl, b'', hagain,
    hagain.old _ d hd⟩

end Config

end Relay
