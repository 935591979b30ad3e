import Relay.Proofs.Consumer.Derived
/-!
# What a router makes of a publish

A router divides the messages that it is given (`Router.Divides`) into those that go out and those
that go on to the next stage. Outside a consumer what goes out is produced at once: `Ships` says
that all of it was, and then the transport has received each message once, in order
(`Ships.arrives`); `Stops` says at which message that has ended, and then the publish fails and the
next stage is not run.

Results:
- `Router.divides_iff`: a list of messages is divided in one way.
- `Ships.arrives`: what the transport has received.
- `ships_or_stops`: everything was produced, or something was not.
- `Router.partitions`: what becomes of a publish.
-/
namespace Relay

variable {κ : Type}

/-! ## Dividing messages -/

namespace Router

/-- What a record is sent out as to the routes that it matches, in their order. -/
def forwards (routes : List Route) (m : Message) : List Outgoing :=
  (routes.filter fun x => x.type.matchesMessage m).map fun x => ⟨x.endpoint, m, .empty⟩

/-- The messages are divided into what is sent out and what stays, both in their order. -/
inductive Divides (routes : List Route) : List Message → List Outgoing → List Message → Prop
  | nil : Divides routes [] [] []
  /-- An inbound envelope only stays. -/
  | inbound {raw m auto ms sent stay} (h : Divides routes ms sent stay) :
    Divides routes (.inbound raw m auto :: ms) sent (.inbound raw m auto :: stay)
  /-- An outbound envelope goes to its own endpoint, under its own headers. -/
  | outbound {m headers endpoint auto ms sent stay} (h : Divides routes ms sent stay) :
    Divides routes (.outbound m headers endpoint auto :: ms) (⟨endpoint, m, headers⟩ :: sent) stay
  /-- A record that no route matches stays. -/
  | unrouted {r ms sent stay} (hnone : ∀ x ∈ routes, x.type.matchesMessage (.record r) = false)
    (h : Divides routes ms sent stay) :
    Divides routes (.record r :: ms) sent (.record r :: stay)
  /-- A record goes to all routes it matches, and only there if none of them publishes locally. -/
  | forwarded {r ms sent stay} (hsome : ∃ x ∈ routes, x.type.matchesMessage (.record r) = true)
    (hlocal : ∀ x ∈ routes, x.type.matchesMessage (.record r) = true → x.publishLocally = false)
    (h : Divides routes ms sent stay) :
    Divides routes (.record r :: ms) (forwards routes (.record r) ++ sent) stay
  /-- It stays as well if one of them does. -/
  | copied {r ms sent stay}
    (hlocal : ∃ x ∈ routes, x.type.matchesMessage (.record r) = true ∧ x.publishLocally = true)
    (h : Divides routes ms sent stay) :
    Divides routes (.record r :: ms) (forwards routes (.record r) ++ sent) (.record r :: stay)

variable {r : Router} {ms stay : List Message} {sent : List Outgoing} {record : Record}

theorem forwards_unrouted {routes : List Route} {m : Message}
    (h : ∀ x ∈ routes, x.type.matchesMessage m = false) : forwards routes m = [] := by
  have hnone : (routes.filter fun x => x.type.matchesMessage m) = [] :=
    List.filter_eq_nil_iff.mpr fun x hx => by simp [h x hx]
  rw [forwards, hnone, List.map_nil]

/-- A record stays if no route takes it or one of those that do publishes locally. -/
theorem staysLocal_record : r.staysLocal (.record record) = true ↔
    (∀ x ∈ r.routes, x.type.matchesMessage (.record record) = false) ∨
      ∃ x ∈ r.routes, x.type.matchesMessage (.record record) = true ∧ x.publishLocally = true := by
  simp only [staysLocal, routesFor, Bool.or_eq_true, List.isEmpty_iff, List.filter_eq_nil_iff,
    Bool.not_eq_true, List.any_eq_true, List.mem_filter, and_assoc]

/-- What a router sends out and what it keeps. -/
theorem divides (r : Router) (ms : List Message) :
    Divides r.routes ms (ms.flatMap r.outgoing) (ms.filter r.staysLocal) := by
  induction ms with
  | nil => exact .nil
  | cons m ms ih =>
    rw [List.flatMap_cons]
    cases m with
    | inbound raw m auto => exact .inbound ih
    | outbound m headers endpoint auto => exact .outbound ih
    | record record =>
      have hsent : r.outgoing (.record record) = forwards r.routes (.record record) := rfl
      rw [hsent]
      by_cases hstays : r.staysLocal (.record record) = true
      · rw [List.filter_cons_of_pos hstays]
        rcases staysLocal_record.mp hstays with hnone | hlocal
        · rw [forwards_unrouted hnone]
          exact .unrouted hnone ih
        · exact .copied hlocal ih
      · rw [List.filter_cons_of_neg hstays]
        rw [staysLocal_record] at hstays
        push Not at hstays
        obtain ⟨hsome, hlocal⟩ := hstays
        simp only [Bool.not_eq_false, Bool.not_eq_true] at hsome hlocal
        exact .forwarded hsome hlocal ih

/-- **Messages are divided in one way.** -/
theorem divides_iff : Divides r.routes ms sent stay ↔
    sent = ms.flatMap r.outgoing ∧ stay = ms.filter r.staysLocal := by
  constructor
  · intro h
    induction h with
    | nil => exact ⟨rfl, rfl⟩
    | inbound h ih | outbound h ih =>
      obtain ⟨rfl, rfl⟩ := ih
      exact ⟨rfl, rfl⟩
    | unrouted hnone h ih =>
      obtain ⟨rfl, rfl⟩ := ih
      rw [List.flatMap_cons, List.filter_cons_of_pos (staysLocal_record.mpr (.inl hnone))]
      exact ⟨(congrArg (· ++ _) (forwards_unrouted hnone)).symm, rfl⟩
    | forwarded hsome hlocal h ih =>
      obtain ⟨rfl, rfl⟩ := ih
      refine ⟨rfl, (List.filter_cons_of_neg fun hstays => ?_).symm⟩
      rcases staysLocal_record.mp hstays with hnone | ⟨x, hx, hm, hl⟩
      · obtain ⟨x, hx, hm⟩ := hsome
        rw [hnone x hx] at hm
        cases hm
      · rw [hlocal x hx hm] at hl
        cases hl
    | copied hlocal h ih =>
      obtain ⟨rfl, rfl⟩ := ih
      exact ⟨rfl, (List.filter_cons_of_pos (staysLocal_record.mpr (.inr hlocal))).symm⟩
  · rintro ⟨rfl, rfl⟩
    exact r.divides ms

end Router

/-! ## What the transport receives -/

/-- The transport has received the raw messages, each on its topic, in their order, and no other
ones. -/
structure Transport.Receives (t : Transport) (as : List (String × RawMessage)) (t' : Transport) :
    Prop where
  topics : t'.notices = t.notices ++ as.map Prod.fst
  produced : ∀ name,
    t'.produced name = t.produced name ++ (as.filter fun a => a.1 = name).map Prod.snd

/-- What a message arrives as: what goes on the wire for it, on the topic of its endpoint. -/
def Outgoing.Arrives (wire : Wire) (o : Outgoing) (as : List (String × RawMessage)) : Prop :=
  o.Encodes wire (as.map Prod.snd) ∧ ∀ a ∈ as, a.1 = o.endpoint.name

namespace Transport

theorem Receives.nothing {t t' : Transport} (h : t' = t) : t.Receives [] t' := by
  rw [h]
  exact ⟨(List.append_nil _).symm, fun _ => (List.append_nil _).symm⟩

theorem Receives.append {t u v : Transport} {as bs : List (String × RawMessage)}
    (h : t.Receives as u) (h' : u.Receives bs v) : t.Receives (as ++ bs) v where
  topics := by rw [h'.topics, h.topics, List.map_append, List.append_assoc]
  produced name := by
    rw [h'.produced, h.produced, List.filter_append, List.map_append, List.append_assoc]

theorem produce_receives {t t' : Transport} {name : String} {payload : Bytes} {h : Headers}
    (hp : t.produce name payload h = .ok t') : ∃ raw, t.Receives [(name, raw)] t' := by
  obtain ⟨raw, hraw, -⟩ := produce_produced hp
  refine ⟨raw, ?_, fun other => ?_⟩
  · unfold produce at hp
    split at hp <;> cases hp
    rfl
  · by_cases hn : name = other
    · rw [← hn, hraw, List.filter_cons_of_pos (by simp)]
      rfl
    · rw [produce_elsewhere hp hn, List.filter_cons_of_neg (by simpa using hn)]
      exact (List.append_nil _).symm

end Transport

namespace World

/-- Only messages of one topic have arrived. -/
def Gains (name : String) (w w' : World κ) : Prop :=
  ∃ as, (∀ a ∈ as, a.1 = name) ∧ w.transport.Receives as w'.transport

variable {name : String}

theorem Gains.of_transport {w w' : World κ} (h : w'.transport = w.transport) : Gains name w w' :=
  ⟨[], nofun, .nothing h⟩

instance : Std.Refl (Gains (κ := κ) name) := ⟨fun _ => .of_transport rfl⟩

instance : IsTrans (World κ) (Gains name) := by
  refine ⟨fun _ _ _ h h' => ?_⟩
  obtain ⟨as, has, h⟩ := h
  obtain ⟨bs, hbs, h'⟩ := h'
  exact ⟨as ++ bs, fun a ha => (List.mem_append.mp ha).elim (has a) (hbs a), h.append h'⟩

theorem posts_gains (endpoint : Endpoint) : Posts (Gains (κ := κ) endpoint.name) endpoint where
  fresh _ := .of_transport rfl
  produce payload h := by
    refine produce_within ((guardTransport_alike _ _).mono fun _ _ h => .of_transport h.transport)
      fun w t hp => ?_
    obtain ⟨raw, hraw⟩ := Transport.produce_receives hp
    exact ⟨_, fun a ha => by rw [List.mem_singleton.mp ha], hraw⟩

/-- **What was sent has arrived**, and nothing else has. -/
theorem send_arrives {wire : Wire} {o : Outgoing} {id : String} {w w' : World κ}
    (h : send wire o w = .ok id w') :
    ∃ as, o.Arrives wire as ∧ w.transport.Receives as w'.transport := by
  obtain ⟨packed, headers, raws, hpack, -, hraws, hmap⟩ := send_ok h
  obtain ⟨as, hnames, has⟩ := ((posts_gains o.endpoint).send wire).ok h
  have hall : as.filter (fun a => a.1 = o.endpoint.name) = as :=
    List.filter_eq_self.mpr fun a ha => by simpa using hnames a ha
  have hproduced := has.produced o.endpoint.name
  rw [hraws, hall] at hproduced
  obtain rfl := List.append_cancel_left hproduced
  exact ⟨as, ⟨⟨id, packed, headers, hpack, hmap⟩, hnames⟩, has⟩

/-- Produces a message with the producer that a broker has for its endpoint. -/
def post (wire : Wire) (broker : Nat) (o : Outgoing) : Op κ ProduceError String := do
  useProducer broker o.endpoint
  send wire o

theorem post_arrives {wire : Wire} {broker : Nat} {o : Outgoing} {id : String} {w w' : World κ}
    (h : post wire broker o w = .ok id w') :
    ∃ as, o.Arrives wire as ∧ w.transport.Receives as w'.transport := by
  let used := endState (useProducer (ε := ProduceError) broker o.endpoint) w
  have hused : used.transport = w.transport := by
    rw [show used = _ from useProducer_kept broker o.endpoint w]
  have hsent : send wire o used = .ok id w' := h
  obtain ⟨as, harrives, has⟩ := send_arrives hsent
  exact ⟨as, harrives, hused ▸ has⟩

end World

/-! ## Producing messages one after the other -/

/-- All of the messages are produced through the broker, one after the other. -/
inductive Ships (wire : Wire) (broker : Nat) : List Outgoing → World κ → World κ → Prop
  | nil (w : World κ) : Ships wire broker [] w w
  | cons {o os w u v id} (hb : w.broker = some broker)
    (h : World.post wire broker o w = .ok id u) (hs : Ships wire broker os u v) :
    Ships wire broker (o :: os) w v

/-- A message cannot be produced after those before it were: the transport or the wire refuse it, or
the broker was dropped. -/
inductive Stops (wire : Wire) (broker : Nat) :
    List Outgoing → World κ → PublishError → World κ → Prop
  | refused (before : List Outgoing) {o after w u e v} (hs : Ships wire broker before w u)
    (hb : u.broker = some broker) (h : World.post wire broker o u = .error e v) :
    Stops wire broker (before ++ o :: after) w (.produce o.endpoint.name e) v
  | dropped (before : List Outgoing) {o after w u} (hs : Ships wire broker before w u)
    (hb : u.broker ≠ some broker) :
    Stops wire broker (before ++ o :: after) w (.behavior "broker has been dropped") u

variable {wire : Wire} {broker : Nat} {os : List Outgoing} {w v : World κ}

/-- **All that was produced has arrived**, each message once and in order, and nothing else has. -/
theorem Ships.arrives (h : Ships wire broker os w v) :
    ∃ each, List.Forall₂ (Outgoing.Arrives wire) os each ∧
      w.transport.Receives each.flatten v.transport := by
  induction h with
  | nil w => exact ⟨[], .nil, .nothing rfl⟩
  | cons hb h hs ih =>
    obtain ⟨as, harrives, has⟩ := World.post_arrives h
    obtain ⟨each, heach, hrest⟩ := ih
    exact ⟨as :: each, .cons harrives heach, has.append hrest⟩

/-- **Everything is produced, or something is not.** -/
theorem ships_or_stops (wire : Wire) (broker : Nat) (os : List Outgoing) (w : World κ) :
    (∃ v, Ships wire broker os w v) ∨ ∃ e v, Stops wire broker os w e v := by
  induction os generalizing w with
  | nil => exact .inl ⟨w, .nil w⟩
  | cons o os ih =>
    by_cases hb : w.broker = some broker
    · cases h : World.post wire broker o w with
      | error e v => exact .inr ⟨_, v, .refused [] (.nil w) hb h⟩
      | ok id u =>
        rcases ih u with ⟨v, hs⟩ | ⟨e, v, hs⟩
        · exact .inl ⟨v, .cons hb h hs⟩
        · refine .inr ⟨e, v, ?_⟩
          cases hs with
          | refused before hs hb' h' => exact .refused (o :: before) (.cons hb h hs) hb' h'
          | dropped before hs hb' => exact .dropped (o :: before) (.cons hb h hs) hb'
    · exact .inr ⟨_, w, .dropped [] (.nil w) hb⟩

namespace Router

variable {r : Router} {o : Outgoing}

/-- Outside a consumer a router produces at once. -/
theorem send_outside (hb : w.broker = some broker) : r.send broker o ⟨w, none⟩ =
    match World.post r.wire broker o w with
    | .ok _ v => .ok () ⟨v, none⟩
    | .error e v => .error (.produce o.endpoint.name e) ⟨v, none⟩ := by
  unfold send
  rw [if_pos hb]
  rfl

theorem send_dropped (hb : w.broker ≠ some broker) : r.send broker o ⟨w, none⟩ =
    .error (.behavior "broker has been dropped") ⟨w, none⟩ := by
  unfold send
  rw [if_neg hb]

theorem sendAll_append (h : Ships r.wire broker os w v) (rest : List Outgoing) :
    r.sendAll broker (os ++ rest) ⟨w, none⟩ = r.sendAll broker rest ⟨v, none⟩ := by
  induction h with
  | nil w => rfl
  | @cons o os w u v id hb h hs ih =>
    have hsend : r.send broker o ⟨w, none⟩ = .ok () ⟨u, none⟩ := by rw [send_outside hb, h]
    rw [List.cons_append, sendAll, bind_of_ok hsend]
    exact ih

theorem sendAll_ships (h : Ships r.wire broker os w v) :
    r.sendAll broker os ⟨w, none⟩ = .ok () ⟨v, none⟩ := by
  rw [← List.append_nil os, sendAll_append h]
  rfl

theorem sendAll_stops {e : PublishError} (h : Stops r.wire broker os w e v) :
    r.sendAll broker os ⟨w, none⟩ = .error e ⟨v, none⟩ := by
  cases h with
  | refused before hs hb h =>
    rw [sendAll_append hs, sendAll]
    exact bind_of_error (by rw [send_outside hb, h])
  | dropped before hs hb =>
    rw [sendAll_append hs, sendAll]
    exact bind_of_error (send_dropped hb)

/-! ## Publishing through a router -/

/-- What becomes of a publish whose router sends some messages out and keeps others. Once all was
produced, each message has arrived, and the publish is the next stage with those that stay, or over
if there are none. Where something cannot be produced, the publish fails with that, and the next
stage is not run. -/
structure Relays (wire : Wire) (broker : Nat) (sent : List Outgoing) (stay : List Message)
    (next : List Message → Work (Scope κ) Published) (flow : Work (Scope κ) Published) : Prop where
  arrives : ∀ {w v : World κ}, Ships wire broker sent w v →
    ∃ each, List.Forall₂ (Outgoing.Arrives wire) sent each ∧
      w.transport.Receives each.flatten v.transport
  goesOn : ∀ (now : Nat) {w v : World κ}, Ships wire broker sent w v → stay ≠ [] →
    flow.poll now ⟨w, none⟩ = (next stay).poll now ⟨v, none⟩
  ends : ∀ (now : Nat) {w v : World κ}, Ships wire broker sent w v → stay = [] →
    flow.poll now ⟨w, none⟩ = (.done (.ok []), ⟨v, none⟩)
  fails : ∀ (now : Nat) {w v : World κ} {e : PublishError}, Stops wire broker sent w e v →
    flow.poll now ⟨w, none⟩ = (.done (.error e), ⟨v, none⟩)

/-- The router sends out and keeps what it divides its messages into. -/
theorem behavior_relays (r : Router) (index : Int) (broker : Nat) (mode : Mode)
    (next : List Message → Work (Scope κ) Published) (ms : List Message) :
    Relays r.wire broker (ms.flatMap r.outgoing) (ms.filter r.staysLocal) next
      ((r.behavior index).handle broker mode next ms) where
  arrives h := h.arrives
  goesOn now w v h hstay := by
    unfold behavior
    rw [Flow.poll, sendAll_ships h]
    dsimp only
    rw [if_neg (by simpa using hstay)]
  ends now w v h hstay := by
    unfold behavior
    rw [Flow.poll, sendAll_ships h]
    dsimp only
    rw [hstay]
    rfl
  fails now w v e h := by
    unfold behavior
    rw [Flow.poll, sendAll_stops h]
    rfl

/-- **A router divides a publish**, outside a consumer, whatever the messages. They are divided into
what is sent out and what stays, and all of the first is produced, or something is not. What becomes
of the publish then (`Relays`) holds of the router behind other behaviors, for the messages that
these pass on to it, and of every publish that it is the first behavior of, of the application or
from within a handler. -/
theorem partitions (r : Router) (index : Int) (broker : Nat) (mode : Mode) (ms : List Message) :
    ∃ sent stay, Divides r.routes ms sent stay ∧
      (∀ w : World κ,
        (∃ v, Ships r.wire broker sent w v) ∨ ∃ e v, Stops r.wire broker sent w e v) ∧
      (∀ next : List Message → Work (Scope κ) Published,
        Relays r.wire broker sent stay next ((r.behavior index).handle broker mode next ms)) ∧
      ∀ (p : Publisher (Scope κ)) (rest : List (Behavior (Scope κ))) (depth : Nat),
        p.behaviors = r.behavior index :: rest →
        Relays r.wire broker sent stay
          (Publisher.through broker mode
            (p.dispatch mode (p.nested depth) (p.execute mode broker depth)) rest)
          (p.execute mode broker (depth + 1) ms) := by
  refine ⟨_, _, r.divides ms, fun w => ships_or_stops _ _ _ w, fun next => ?_,
    fun p rest depth hp => ?_⟩
  · exact r.behavior_relays index broker mode next ms
  · have hbehavior := r.behavior_relays index broker mode (Publisher.through broker mode
      (p.dispatch mode (p.nested depth) (p.execute mode broker depth)) rest) ms
    cases ms with
    | nil =>
      -- nothing is published, as the router would have it
      refine ⟨hbehavior.arrives, fun _ _ _ _ hstay => absurd rfl hstay, fun now w v h _ => ?_,
        fun now w v e h => ?_⟩
      · exact hbehavior.ends now h rfl
      · exact hbehavior.fails now h
    | cons m ms =>
      rw [Publisher.execute, hp]
      exact hbehavior

/-! ### A publish of all kinds of messages -/

open Course (emptyWorld)
open Trail (blank knownWire)

/-- Pings go to two endpoints, pongs to one and to the subscribers as well. -/
def table : Router where
  wire := knownWire
  routes :=
    [⟨.exact (.record ⟨"Ping", [], []⟩), ⟨"pings", none, []⟩, false⟩,
      ⟨.exact (.record ⟨"Pong", [], []⟩), ⟨"pongs", none, []⟩, true⟩,
      ⟨.exact (.record ⟨"Ping", [], []⟩), ⟨"audit", none, []⟩, false⟩]

/-- A stage that answers with the types of the messages it is given. -/
def naming : Behavior (Scope Unit) where
  index := 301
  handle _ _ _ ms := .done (.ok (ms.map fun m => .text m.typeName))

def labelling : Publisher (Scope Unit) where
  behaviors := [table.behavior, naming]
  methods := []
  resolvers := .standard
  components := []
  broker := 0
  depth := 1

def assorted : List Message :=
  [.inbound ⟨[], .empty, ⟨"orders", none, []⟩, none, "a"⟩ none true, .record (blank "Ping"),
    .outbound (.record (blank "Pong")) ⟨[("x-tenant", "acme")]⟩ ⟨"dead", none, []⟩ true,
    .record (blank "Pong"), .record (blank "Lost")]

/-- A transport that refuses everything. -/
def refusing : World Unit := { emptyWorld with transport := { failOnProduce := true } }

theorem partitions_assorted :
    labelling.behaviors = [table.behavior, naming] ∧
      (∃ v, v.transport.notices = ["pings", "audit", "dead", "pongs"] ∧
        (labelling.publish assorted).poll 0 ⟨emptyWorld, none⟩ =
          (.done (.ok [.text TypeId.inbound.name, .text "Pong", .text "Lost"]), ⟨v, none⟩)) ∧
      ∃ e v, (labelling.publish assorted).poll 0 ⟨refusing, none⟩ =
        (.done (.error (.produce "pings" e)), ⟨v, none⟩) := by
  obtain ⟨sent, stay, hdivides, hends, -, hpublish⟩ :=
    partitions (κ := Unit) table sortIndex 0 .async assorted
  obtain ⟨rfl, rfl⟩ := divides_iff.mp hdivides
  have hrelays := hpublish labelling _ 0 rfl
  refine ⟨rfl, ?_, ?_⟩
  · obtain ⟨_, s, hall⟩ : ∃ a s, table.sendAll 0 (assorted.flatMap table.outgoing)
        ⟨emptyWorld, none⟩ = .ok a s := ok_of_succeeds (by decide +kernel)
    obtain ⟨v, hv⟩ := (hends emptyWorld).resolve_right fun ⟨e, v, hs⟩ => by
      rw [sendAll_stops hs] at hall
      cases hall
    have hnotices : (endState (table.sendAll 0 (assorted.flatMap table.outgoing))
        ⟨emptyWorld, none⟩).world.transport.notices = ["pings", "audit", "dead", "pongs"] := by
      decide +kernel
    rw [endState, sendAll_ships hv] at hnotices
    exact ⟨v, hnotices, hrelays.goesOn 0 hv (by decide +kernel)⟩
  · let ping : Outgoing := ⟨⟨"pings", none, []⟩, .record (blank "Ping"), .empty⟩
    obtain ⟨e, v, h⟩ : ∃ e v, World.post knownWire 0 ping refusing = .error e v :=
      error_of_succeeds (by decide +kernel)
    have hstops : Stops knownWire 0 (assorted.flatMap table.outgoing) refusing
        (.produce "pings" e) v := .refused [] (.nil _) rfl h
    exact ⟨e, v, hrelays.fails 0 hstops⟩

end Router

end Relay
