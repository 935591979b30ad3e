import Relay.Proofs.Outline
/-!
# The lifecycle of a broker

**The environment.** Between two calls of a broker anything may happen that leaves the cards of its
consumers (`Drifts`): time passes, messages are published, workers run and end, calls that subscribe
are set to fail in any pattern, and the consumers come in another order. `drifts_meanwhile` says that
what the engine does of its own is of that kind.

**A hypothesis.** A call that stops a consumer waits for its worker. That worker may never end (a
handler may wait forever), and then the call has no outcome; `returns` says that the workers that a
call stops come to their ends.

**Results.**
* `connectConsumer_ok`, `connectConsumer_error`, `disconnectConsumer_outline`: a call on one
  consumer changes its card, or nothing.
* `connectAll_ok`, `connectAll_error`, `stopAll_outline`: after a connect either all consumers are
  started or, also where some were and had to be stopped again, none is.
* `sound_call`: every call keeps the invariant `Outline.Sound`, whatever the order of the consumers.
* `Life.flag_tells`: after any calls the flag tells whether the consumers are started, and each
  endpoint has the consumer it was first given.
-/
namespace Relay

variable {κ : Type}

namespace Engine

open Outline (Peer)

variable {s s' : Engine κ} {id : Nat}

/-! ## One consumer -/

/-- **A consumer that is connected has been started**, by this call or before. -/
theorem connectConsumer_ok (hd : s.outline.Distinct) (h : (s.connectConsumer id).1 = .ok ()) :
    (s.connectConsumer id).2.outline = s.outline.update id Card.start := by
  unfold connectConsumer at h ⊢
  cases hc : s.consumer? id with
  | none => exact (Outline.update_same fun d hmem hid => absurd hid (consumer?_none hc d hmem)).symm
  | some c =>
    rw [hc] at h
    dsimp only at h ⊢
    by_cases hw : c.worker.isSome = true
    · rw [if_pos hw]
      refine (Outline.update_same fun d hmem hid => ?_).symm
      have hstarted : d.started = true := by
        rw [card_eq hd hc d hmem hid]
        exact hw
      cases d
      cases hstarted
      rfl
    · rw [if_neg hw] at h ⊢
      have hsub := subscribe_keeps (s.backoff c) c.endpoint c.service.connectRetries 0 s hd
      rcases hs : s.subscribe (s.backoff c) c.endpoint c.service.connectRetries 0 with
        ⟨e | stream, s'⟩ <;> rw [hs] at h hsub
      · cases h
      · -- the subscription may have taken a while, but the consumer is where it was
        have hsub : s'.outline = s.outline := hsub
        have hput : (s'.replace (c.start stream)).outline = s.outline.update id Card.start := by
          rw [outline_replace, hsub, show (c.start stream).id = id from (consumer?_card hc).1]
          refine Outline.update_congr fun d hmem hid => ?_
          rw [card_eq hd hc d hmem hid]
          rfl
        have hwake : ((s'.replace (c.start stream)).wake id).outline =
            (s'.replace (c.start stream)).outline := by
          unfold wake
          split <;> rfl
        exact hwake.trans hput

/-- **A consumer whose connection fails is as it was.** -/
theorem connectConsumer_error {e : TransportError} (hd : s.outline.Distinct)
    (h : (s.connectConsumer id).1 = .error e) : (s.connectConsumer id).2.outline = s.outline := by
  unfold connectConsumer at h ⊢
  cases hc : s.consumer? id with
  | none => rfl
  | some c =>
    rw [hc] at h
    dsimp only at h ⊢
    by_cases hw : c.worker.isSome = true
    · rw [if_pos hw]
    · rw [if_neg hw] at h ⊢
      have hsub := subscribe_keeps (s.backoff c) c.endpoint c.service.connectRetries 0 s hd
      rcases hs : s.subscribe (s.backoff c) c.endpoint c.service.connectRetries 0 with
        ⟨e' | stream, s'⟩ <;> rw [hs] at h hsub
      · exact hsub
      · cases h

/-- The engine after a consumer's worker was cancelled and waited for. -/
def awaitEnd (id : Nat) (s : Engine κ) : Engine κ :=
  match s.consumer? id with
  | none => s
  | some c =>
    match c.worker with
    | none => s
    | some w =>
      let s := s.replace (c.mapSignal .raise)
      runToEnd id patience (if w.isEnded then s else s.wake id)

/-- The worker of a consumer that is stopped comes to its end. -/
def stops (id : Nat) (s : Engine κ) : Bool :=
  (((s.awaitEnd id).consumer? id).bind Consumer.worker).all Worker.isEnded

/-- **A consumer that is disconnected is at rest**, if it was started. -/
theorem disconnectConsumer_outline (hd : s.outline.Distinct) (hs : s.stops id = true) :
    ∃ past, past ≠ .running ∧
      (s.disconnectConsumer id).outline = s.outline.update id (Card.stop past) := by
  unfold stops awaitEnd at hs
  unfold disconnectConsumer
  cases hc : s.consumer? id with
  | none =>
    refine ⟨.idle, by simp, (Outline.update_same fun d hmem hid => ?_).symm⟩
    exact absurd hid (consumer?_none hc d hmem)
  | some c =>
    rw [hc] at hs
    dsimp only at hs ⊢
    cases hw : c.worker with
    | none =>
      refine ⟨.idle, by simp, (Outline.update_same fun d hmem hid => ?_).symm⟩
      rw [card_eq hd hc d hmem hid]
      unfold Consumer.card Card.stop
      rw [hw]
      rfl
    | some w =>
      rw [hw] at hs
      dsimp only at hs ⊢
      -- the worker is cancelled and waited for, which leaves the card
      have hraise : s.Keeps (s.replace (c.mapSignal .raise)) := .replace hc (c.mapSignal_card _)
      have hrun : s.Keeps (runToEnd id patience (if w.isEnded = true then
          s.replace (c.mapSignal .raise) else (s.replace (c.mapSignal .raise)).wake id)) := by
        refine hraise.trans (Keeps.trans ?_ (runToEnd_keeps id patience _))
        split
        · exact .refl _
        · exact wake_keeps id _
      generalize runToEnd id patience _ = s' at hs hrun ⊢
      have hsame : s'.outline = s.outline := hrun hd
      obtain ⟨hcid, hcard⟩ := consumer?_card hc
      cases hc' : s'.consumer? id with
      | none => exact absurd hcid (consumer?_none hc' c.card (by rw [hsame]; exact hcard))
      | some c' =>
        -- then the consumer lets go of it
        have hd' : s'.outline.Distinct := by rw [hsame]; exact hd
        have hcard' : c.card = c'.card := card_eq hd' hc' c.card (by rw [hsame]; exact hcard) hcid
        have hstarted : c.worker.isSome = c'.worker.isSome := congrArg Card.started hcard'
        rw [hw] at hstarted
        obtain ⟨w', hw'⟩ := Option.isSome_iff_exists.mp hstarted.symm
        rw [hc', Option.bind_some, hw', Option.all_some] at hs
        obtain ⟨past, hpast, hrelease⟩ := Consumer.release_card hw' hs
        refine ⟨past, hpast, ?_⟩
        have hid : c'.release.id = id :=
          (congrArg Card.id hrelease).trans ((Card.stop_id past _).trans (consumer?_card hc').1)
        dsimp only
        rw [outline_replace, hid, hrelease, ← hcard']
        show Outline.update id _ s'.outline = _
        rw [hsame]
        refine Outline.update_congr fun d hmem he => ?_
        rw [card_eq hd hc d hmem he]

/-! ## All consumers -/

/-- Consumers are stopped in turn, and all their workers come to their ends. -/
def stopAll : List Nat → Engine κ → Bool
  | [], _ => true
  | id :: ids, s => s.stops id && stopAll ids (s.disconnectConsumer id)

/-- Where a consumer fails to connect, the workers of those before it come to their ends. -/
def connectReturns (started : List Nat) : List Nat → Engine κ → Bool
  | [], _ => true
  | id :: ids, s =>
    match s.connectConsumer id with
    | (.ok _, s) => connectReturns (started ++ [id]) ids s
    | (.error _, s) => stopAll started s

/-- **After all that may be started were stopped, every consumer is at rest.** -/
theorem stopAll_outline {ids : List Nat} (hd : s.outline.Distinct) (hw : s.outline.Within ids)
    (hr : stopAll ids s = true) :
    let s' := ids.foldl (fun s id => s.disconnectConsumer id) s
    Peer s.outline s'.outline ∧ ∀ d ∈ s'.outline.cards, d.AtRest := by
  induction ids generalizing s with
  | nil =>
    refine ⟨.refl _, fun d hmem => ?_⟩
    have hstopped : d.started = false := by
      rw [Bool.eq_false_iff]
      exact fun h => List.not_mem_nil (hw.started d hmem h)
    exact ⟨hstopped, hw.rest d hmem hstopped⟩
  | cons id ids ih =>
    unfold stopAll at hr
    obtain ⟨hstop, hrest⟩ := Bool.and_eq_true_iff.mp hr
    obtain ⟨past, hpast, heq⟩ := disconnectConsumer_outline hd hstop
    have hpeer : Peer s.outline (s.disconnectConsumer id).outline := by
      rw [heq]
      exact Peer.update _ id (Card.stop_profile past)
    have hnext : (s.disconnectConsumer id).outline.Within ids := by
      rw [heq]
      exact hw.stop hpast
    obtain ⟨hpeers, hall⟩ := ih (hpeer.distinct hd) hnext hrest
    exact ⟨hpeer.trans hpeers, hall⟩

/-- **A connect that succeeds has started every consumer.** -/
theorem connectAll_ok {started ids : List Nat} (hd : s.outline.Distinct)
    (hids : ∀ d ∈ s.outline.cards, d.started = false → d.id ∈ ids)
    (h : (s.connectAll started ids).1 = .ok ()) :
    Peer s.outline (s.connectAll started ids).2.outline ∧
      ∀ d ∈ (s.connectAll started ids).2.outline.cards, d.started = true := by
  induction ids generalizing s started with
  | nil =>
    refine ⟨.refl _, fun d hmem => ?_⟩
    rw [← Bool.not_eq_false]
    exact fun hn => List.not_mem_nil (hids d hmem hn)
  | cons id ids ih =>
    unfold connectAll at h ⊢
    rcases hc : s.connectConsumer id with ⟨e | u, s'⟩ <;> rw [hc] at h
    · cases h
    · have heq := connectConsumer_ok hd (congrArg Prod.fst hc)
      rw [hc] at heq
      dsimp only at heq
      have hpeer : Peer s.outline s'.outline := by
        rw [heq]
        exact Peer.update _ id fun _ => rfl
      have hnext : ∀ d ∈ s'.outline.cards, d.started = false → d.id ∈ ids := by
        rw [heq]
        exact Outline.start_pending hids
      obtain ⟨hpeers, hall⟩ := ih (hpeer.distinct hd) hnext h
      exact ⟨hpeer.trans hpeers, hall⟩

/-- **A connect that fails leaves every consumer at rest**, those that were started before one failed
too. -/
theorem connectAll_error {started ids : List Nat} {e : TransportError} (hd : s.outline.Distinct)
    (hw : s.outline.Within started) (h : (s.connectAll started ids).1 = .error e)
    (hr : s.connectReturns started ids = true) :
    Peer s.outline (s.connectAll started ids).2.outline ∧
      ∀ d ∈ (s.connectAll started ids).2.outline.cards, d.AtRest := by
  induction ids generalizing s started with
  | nil => cases h
  | cons id ids ih =>
    unfold connectAll at h ⊢
    unfold connectReturns at hr
    rcases hc : s.connectConsumer id with ⟨e' | u, s'⟩ <;> rw [hc] at h hr
    · have heq := connectConsumer_error hd (congrArg Prod.fst hc)
      rw [hc] at heq
      rw [← heq] at hd hw ⊢
      exact stopAll_outline hd hw hr
    · have heq := connectConsumer_ok hd (congrArg Prod.fst hc)
      rw [hc] at heq
      dsimp only at heq
      have hpeer : Peer s.outline s'.outline := by
        rw [heq]
        exact Peer.update _ id fun _ => rfl
      have hnext : s'.outline.Within (started ++ [id]) := by
        rw [heq]
        exact hw.start id
      obtain ⟨hpeers, hall⟩ := ih (hpeer.distinct hd) hnext h hr
      exact ⟨hpeer.trans hpeers, hall⟩

/-! ## Calls -/

/-- A call of the broker in service. -/
inductive Call (κ : Type) : Type 1
  | getConsumer (e : Endpoint) (cs : ConsumerSettings)
  | bindPublisher (p : Publisher (Scope κ))
  | connect
  | disconnect

/-- The engine that a call leaves. -/
def call (s : Engine κ) : Call κ → Engine κ
  | .getConsumer e cs => (s.getConsumer e cs).2
  | .bindPublisher p => (s.bindPublisher p).2
  | .connect => s.connect.2
  | .disconnect => s.disconnect

/-- What a call has asked for with success: a consumer of an endpoint, with these settings. -/
def granted (s : Engine κ) : Call κ → List (Endpoint × ConsumerSettings)
  | .getConsumer e cs =>
    match (s.getConsumer e cs).1 with
    | .ok _ => [(e, cs)]
    | .error _ => []
  | _ => []

/-- The workers that the call stops come to their ends. -/
def returns (s : Engine κ) : Call κ → Bool
  | .connect => s.broker.all fun b =>
    b.connected || s.connectReturns [] (b.consumers.map Consumer.id)
  | .disconnect => s.broker.all fun b => !b.connected || s.stopAll (b.consumers.map Consumer.id)
  | _ => true

/-- What may happen between two calls. -/
structure Drifts (s s' : Engine κ) : Prop where
  connected : s'.outline.connected = s.outline.connected
  /-- Nobody starts or stops a consumer; they may come in another order. -/
  cards : s'.outline.cards.Perm s.outline.cards
  orphans : s'.outline.orphans = s.outline.orphans
  nextId : s'.nextId = s.nextId

/-- **What the engine does of its own is of that kind**: time that passes, publishes beside the workers
and from synchronous code, and calls to the stores and the transport. -/
theorem drifts_meanwhile (hd : s.outline.Distinct) :
    (∀ ms, s.Drifts (s.pass ms)) ∧ (∀ {α : Type} (flow : Work (Scope κ) α), s.Drifts (s.publish flow).2) ∧
      (∀ p ms, s.Drifts (s.publishBlocking p ms).2) ∧
      ∀ {ε α : Type} (o : Op κ ε α), s.Drifts (s.onWorld o).2 := by
  have hdrift : ∀ {s' : Engine κ}, s.Keeps s' → s.Drifts s' := by
    intro s' hk
    have heq := hk hd
    exact ⟨by rw [heq], by rw [heq], by rw [heq], congrArg Outline.nextId heq⟩
  exact ⟨fun ms => hdrift (pass_keeps ms s), fun flow => hdrift (publish_keeps flow s),
    fun p ms => hdrift (publishBlocking_keeps p ms s), fun o => hdrift (onWorld_keeps s o)⟩

/-- The states that calls lead to from a first one, with what was granted so far. -/
inductive Life (s₀ : Engine κ) : Engine κ → List (Endpoint × ConsumerSettings) → Prop
  | begin : Life s₀ s₀ []
  | call {s granted} (c : Call κ) (h : Life s₀ s granted) (hr : s.returns c = true) :
    Life s₀ (s.call c) (granted ++ s.granted c)
  | meanwhile {s s' granted} (h : Life s₀ s granted) (hd : s.Drifts s') : Life s₀ s' granted

/-- A broker that was just put into service. -/
structure Unused (s : Engine κ) : Prop where
  broker : ∃ b, s.broker = some b ∧ b.connected = false ∧ b.consumers = []
  /-- The consumers that earlier brokers left have ids of their own. -/
  distinct : (s.orphans.map Consumer.id).Nodup
  ids : ∀ c ∈ s.orphans, c.id < s.nextId

end Engine

/-! ## The invariant -/

/-- The cards agree with the flag, and with what was granted. -/
structure Outline.Sound (o : Outline) (granted : List (Endpoint × ConsumerSettings)) : Prop where
  distinct : o.Distinct
  ids : ∀ d ∈ o.all, d.id < o.nextId
  present : o.connected.isSome
  started : o.connected = some true → ∀ d ∈ o.cards, d.started = true
  atRest : o.connected = some false → ∀ d ∈ o.cards, d.AtRest
  endpoints : (o.cards.map Card.endpoint).Nodup
  first : ∀ d ∈ o.cards, granted.find? (fun g => g.1 = d.endpoint) = some (d.endpoint, d.settings)
  made : ∀ g ∈ granted, ∃ d ∈ o.cards, d.endpoint = g.1
  valid : ∀ d ∈ o.cards, d.settings.validate = .ok ()

namespace Outline.Sound

variable {o o' : Outline} {granted : List (Endpoint × ConsumerSettings)}

/-- **Where the consumers stay the same, only the flags have to agree.** -/
theorem peer (h : o.Sound granted) (hp : Peer o o') {flag : Bool}
    (hs : flag = true → ∀ d ∈ o'.cards, d.started = true)
    (hr : flag = false → ∀ d ∈ o'.cards, d.AtRest) :
    ({ o' with connected := some flag } : Outline).Sound granted where
  distinct := hp.distinct h.distinct
  ids := by
    show ∀ d ∈ o'.all, d.id < o'.nextId
    intro d hd
    have hmem : d.id ∈ o'.all.map Card.id := List.mem_map_of_mem hd
    rw [hp.ids] at hmem
    obtain ⟨e, he, hid⟩ := List.mem_map.mp hmem
    rw [hp.nextId, ← hid]
    exact h.ids e he
  present := rfl
  started hc := hs (Option.some.inj hc)
  atRest hc := hr (Option.some.inj hc)
  endpoints := by
    have hendpoints := congrArg (List.map fun p => p.2.1) hp.cards
    rw [List.map_map, List.map_map] at hendpoints
    show (o'.cards.map Card.endpoint).Nodup
    rw [show o'.cards.map Card.endpoint = o.cards.map Card.endpoint from hendpoints]
    exact h.endpoints
  first d hd := by
    obtain ⟨e, he, hprofile⟩ := hp.mem hd
    obtain ⟨-, hrest⟩ := Prod.mk.inj hprofile
    obtain ⟨hendpoint, hsettings⟩ := Prod.mk.inj hrest
    rw [← hendpoint, ← hsettings]
    exact h.first e he
  made g hg := by
    obtain ⟨d, hd, hendpoint⟩ := h.made g hg
    obtain ⟨e, he, hprofile⟩ := hp.symm.mem hd
    exact ⟨e, he, (congrArg (fun p => p.2.1) hprofile).trans hendpoint⟩
  valid d hd := by
    obtain ⟨e, he, hprofile⟩ := hp.mem hd
    rw [← show e.settings = d.settings from congrArg (fun p => p.2.2) hprofile]
    exact h.valid e he

/-- The order of the consumers does not matter. -/
theorem perm (h : o.Sound granted) (hp : o'.cards.Perm o.cards) (hc : o'.connected = o.connected)
    (ho : o'.orphans = o.orphans) (hn : o'.nextId = o.nextId) : o'.Sound granted := by
  have hall : o'.all.Perm o.all := by
    unfold Outline.all
    rw [ho]
    exact hp.append_right _
  exact
    { distinct := (hall.map Card.id).nodup_iff.mpr h.distinct
      ids := fun d hd => by rw [hn]; exact h.ids d (hall.mem_iff.mp hd)
      present := by rw [hc]; exact h.present
      started := fun ht d hd => h.started (hc ▸ ht) d (hp.mem_iff.mp hd)
      atRest := fun hf d hd => h.atRest (hc ▸ hf) d (hp.mem_iff.mp hd)
      endpoints := (hp.map Card.endpoint).nodup_iff.mpr h.endpoints
      first := fun d hd => h.first d (hp.mem_iff.mp hd)
      made := fun g hg => by
        obtain ⟨d, hd, he⟩ := h.made g hg
        exact ⟨d, hp.mem_iff.mpr hd, he⟩
      valid := fun d hd => h.valid d (hp.mem_iff.mp hd) }

/-- **A further grant for an endpoint changes nothing about the first.** -/
theorem again (h : o.Sound granted) {e : Endpoint} (cs : ConsumerSettings)
    (he : ∃ d ∈ o.cards, d.endpoint = e) :
    ({ o with nextId := o.nextId + 1 } : Outline).Sound (granted ++ [(e, cs)]) where
  distinct := h.distinct
  ids d hd := Nat.lt_succ_of_lt (h.ids d hd)
  present := h.present
  started := h.started
  atRest := h.atRest
  endpoints := h.endpoints
  first d hd := by
    rw [List.find?_append, h.first d hd]
    rfl
  made g hg := by
    rcases List.mem_append.mp hg with hold | hnew
    · exact h.made g hold
    · rw [List.mem_singleton.mp hnew]
      exact he
  valid := h.valid

/-- **A new consumer has an endpoint of its own, and the settings that were asked for.** -/
theorem added (h : o.Sound granted) {new : Card} {e : Endpoint} {cs : ConsumerSettings}
    (hnew : new = ⟨o.nextId, e, cs, false, .idle⟩) (hc : o.connected = some false)
    (he : ∀ d ∈ o.cards, d.endpoint ≠ e) (hv : cs.validate = .ok ()) :
    ({ o with cards := o.cards ++ [new], nextId := o.nextId + 1 } : Outline).Sound
      (granted ++ [(e, cs)]) := by
  have hall : (o.cards ++ [new] ++ o.orphans).Perm (new :: o.all) := by
    rw [List.append_assoc]
    exact List.perm_middle
  have hungranted : granted.find? (fun g => g.1 = e) = none := by
    rw [List.find?_eq_none]
    intro g hg hsame
    obtain ⟨d, hd, hendpoint⟩ := h.made g hg
    exact he d hd (hendpoint.trans (by simpa using hsame))
  have hcases : ∀ {P : Card → Prop}, (∀ d ∈ o.cards, P d) → P new → ∀ d ∈ o.cards ++ [new], P d := by
    intro P hold hlast d hd
    rcases List.mem_append.mp hd with hd | hd
    · exact hold d hd
    · rw [List.mem_singleton.mp hd]
      exact hlast
  refine ⟨?_, ?_, h.present, ?_, ?_, ?_, ?_, ?_, ?_⟩
  · -- the id of the new consumer is above all others
    refine (hall.map Card.id).nodup_iff.mpr (List.nodup_cons.mpr ⟨?_, h.distinct⟩)
    intro hmem
    obtain ⟨d, hd, hid⟩ := List.mem_map.mp hmem
    have hlt := h.ids d hd
    rw [hid, hnew] at hlt
    exact Nat.lt_irrefl _ hlt
  · intro d hd
    rcases List.mem_cons.mp (hall.mem_iff.mp hd) with rfl | hd
    · rw [hnew]
      exact Nat.lt_succ_self _
    · exact Nat.lt_succ_of_lt (h.ids d hd)
  · intro ht
    rw [hc] at ht
    cases ht
  · intro hf
    exact hcases (h.atRest hf) (by rw [hnew]; exact ⟨rfl, by simp⟩)
  · show ((o.cards ++ [new]).map Card.endpoint).Nodup
    rw [List.map_append, List.nodup_append]
    refine ⟨h.endpoints, List.nodup_singleton _, ?_⟩
    intro a ha b hb
    obtain ⟨d, hd, rfl⟩ := List.mem_map.mp ha
    rw [List.mem_singleton.mp hb, hnew]
    exact he d hd
  · refine hcases (fun d hd => ?_) ?_
    · rw [List.find?_append, h.first d hd]
      rfl
    · rw [hnew, List.find?_append, hungranted]
      simp
  · intro g hg
    rcases List.mem_append.mp hg with hold | hlast
    · obtain ⟨d, hd, hendpoint⟩ := h.made g hold
      exact ⟨d, List.mem_append_left _ hd, hendpoint⟩
    · refine ⟨new, List.mem_append_right _ (List.mem_singleton_self _), ?_⟩
      rw [List.mem_singleton.mp hlast, hnew]
  · exact hcases h.valid (by rw [hnew]; exact hv)

end Outline.Sound

/-! ## The invariant through the calls -/

namespace Engine

open Outline (Peer)

variable {s s' : Engine κ} {granted : List (Endpoint × ConsumerSettings)}

/-- What comes of asking for a consumer. -/
theorem getConsumer_cases {b : Broker κ} (hb : s.broker = some b) (e : Endpoint)
    (cs : ConsumerSettings) :
    (∃ err, s.getConsumer e cs = (.error err, s)) ∨
    (∃ c ∈ b.consumers, c.endpoint = e ∧
      s.getConsumer e cs = (.ok (some c), { s with nextId := s.nextId + 1 })) ∨
    ∃ c : Consumer κ, c.card = ⟨s.nextId, e, cs, false, .idle⟩ ∧ b.connected = false ∧
      (∀ d ∈ b.consumers, d.endpoint ≠ e) ∧ cs.validate = .ok () ∧
      s.getConsumer e cs = (.ok (some c),
        { s with broker := some { b with consumers := b.consumers ++ [c] }, nextId := s.nextId + 1 }) := by
  unfold getConsumer
  rw [hb]
  dsimp only
  unfold Broker.getConsumerWith
  cases hc : b.consumer? e with
  | some c =>
    refine .inr (.inl ⟨c, List.mem_of_find?_eq_some hc, by simpa using List.find?_some hc, ?_⟩)
    dsimp only
  | none =>
    have hnew : ∀ d ∈ b.consumers, d.endpoint ≠ e := by
      intro d hd
      simpa using List.find?_eq_none.mp hc d hd
    dsimp only
    cases hflag : b.connected with
    | true => exact .inl ⟨_, rfl⟩
    | false =>
      cases hv : cs.validate with
      | error err => exact .inl ⟨_, rfl⟩
      | ok u =>
        cases hp : b.publisher with
        | none => exact .inl ⟨_, rfl⟩
        | some p => exact .inr (.inr ⟨_, rfl, rfl, hnew, rfl, rfl⟩)

theorem outline_cards {b : Broker κ} (hb : s.broker = some b) :
    s.outline.cards = b.consumers.map Consumer.card ∧ s.outline.connected = some b.connected := by
  unfold outline
  rw [hb]
  exact ⟨rfl, rfl⟩

theorem outline_setConnected (h : s.outline.connected.isSome = true) (flag : Bool) :
    (s.setConnected flag).outline = { s.outline with connected := some flag } := by
  unfold setConnected outline at *
  cases hb : s.broker with
  | none => simp [hb] at h
  | some b => rfl

/-- The invariant with the broker at hand. -/
theorem sound_broker (h : s.outline.Sound granted) : ∃ b, s.broker = some b := by
  have hp := h.present
  unfold outline at hp
  rw [Option.isSome_map] at hp
  exact Option.isSome_iff_exists.mp hp

/-- **Asking for a consumer** makes one, finds the one there is, or changes nothing. -/
theorem sound_getConsumer (h : s.outline.Sound granted) (e : Endpoint) (cs : ConsumerSettings) :
    (s.call (.getConsumer e cs)).outline.Sound (granted ++ s.granted (.getConsumer e cs)) := by
  obtain ⟨b, hb⟩ := sound_broker h
  obtain ⟨hcards, hflag⟩ := outline_cards hb
  simp only [call, Engine.granted]
  rcases getConsumer_cases hb e cs with ⟨err, hr⟩ | ⟨c, hc, he, hr⟩ | ⟨c, hcard, hoff, hnew, hv, hr⟩
  · rw [hr]
    simpa using h
  · rw [hr]
    refine h.again cs ⟨c.card, ?_, he⟩
    rw [hcards]
    exact List.mem_map_of_mem hc
  · rw [hr]
    have hne : ∀ d ∈ s.outline.cards, d.endpoint ≠ e := by
      rw [hcards]
      intro d hd
      obtain ⟨c', hc', rfl⟩ := List.mem_map.mp hd
      exact hnew c' hc'
    have hadded := h.added hcard (by rw [hflag, hoff]) hne hv
    rw [hcards] at hadded
    have houtline : ({ s with
        broker := some { b with consumers := b.consumers ++ [c] }
        nextId := s.nextId + 1 } : Engine κ).outline =
        { s.outline with
          cards := b.consumers.map Consumer.card ++ [c.card]
          nextId := s.nextId + 1 } := by
      unfold outline
      simp [hb]
    dsimp only
    rw [houtline]
    exact hadded

theorem bindPublisher_outline (s : Engine κ) (p : Publisher (Scope κ)) :
    (s.bindPublisher p).2.outline = s.outline := by
  unfold bindPublisher Broker.bindPublisher
  cases hb : s.broker with
  | none => rfl
  | some b =>
    dsimp only
    cases hp : b.publisher with
    | some _ => rfl
    | none =>
      unfold outline
      rw [hb]
      rfl

/-- **After a connect all consumers are started, or none is.** -/
theorem sound_connect (h : s.outline.Sound granted) (hr : s.returns .connect = true) :
    s.connect.2.outline.Sound granted := by
  obtain ⟨b, hb⟩ := sound_broker h
  obtain ⟨hcards, hflag⟩ := outline_cards hb
  unfold returns at hr
  unfold connect
  rw [hb] at hr ⊢
  dsimp only at hr ⊢
  cases hon : b.connected with
  | true => simpa [hon] using h
  | false =>
    rw [hon] at hflag
    have hrest := h.atRest hflag
    have hreturns : s.connectReturns [] (b.consumers.map Consumer.id) = true := by
      simpa [hon] using hr
    have hids : ∀ d ∈ s.outline.cards, d.started = false → d.id ∈ b.consumers.map Consumer.id := by
      rw [hcards]
      intro d hd _
      obtain ⟨c, hc, rfl⟩ := List.mem_map.mp hd
      exact List.mem_map_of_mem hc
    have hwithin : s.outline.Within [] := by
      refine ⟨fun d hd hs => ?_, fun d hd _ => (hrest d hd).2⟩
      rw [(hrest d hd).1] at hs
      cases hs
    simp only [Bool.false_eq_true, if_false]
    rcases hall : s.connectAll [] (b.consumers.map Consumer.id) with ⟨e | u, s'⟩
    · obtain ⟨hpeer, hresting⟩ := connectAll_error h.distinct hwithin (by rw [hall]) hreturns
      rw [hall] at hpeer hresting
      have hflag' : s'.outline.connected = some false := hpeer.connected.trans hflag
      have hsound : ({ s'.outline with connected := some false } : Outline).Sound granted :=
        h.peer hpeer (by simp) fun _ => hresting
      rw [← hflag'] at hsound
      exact hsound
    · obtain ⟨hpeer, hstarted⟩ := connectAll_ok h.distinct hids (by rw [hall])
      rw [hall] at hpeer hstarted
      have hflag' : s'.outline.connected.isSome = true := by
        rw [show s'.outline.connected = some false from hpeer.connected.trans hflag]
        rfl
      dsimp only
      rw [outline_setConnected hflag']
      exact h.peer hpeer (fun _ => hstarted) (by simp)

/-- All consumers of a connected broker are stopped in turn. -/
theorem stopAll_connected {b : Broker κ} (h : s.outline.Sound granted) (hb : s.broker = some b)
    (hon : s.outline.connected = some true) (hr : s.stopAll (b.consumers.map Consumer.id) = true) :
    let s' := (b.consumers.map Consumer.id).foldl (fun s id => s.disconnectConsumer id) s
    Peer s.outline s'.outline ∧ ∀ d ∈ s'.outline.cards, d.AtRest := by
  refine stopAll_outline h.distinct ?_ hr
  constructor <;> intro d hd hs
  · rw [(outline_cards hb).1] at hd
    obtain ⟨c, hc, rfl⟩ := List.mem_map.mp hd
    exact List.mem_map_of_mem hc
  · rw [h.started hon d hd] at hs
    cases hs

/-- **After a disconnect no consumer is started.** -/
theorem sound_disconnect (h : s.outline.Sound granted) (hr : s.returns .disconnect = true) :
    s.disconnect.outline.Sound granted := by
  obtain ⟨b, hb⟩ := sound_broker h
  obtain ⟨hcards, hflag⟩ := outline_cards hb
  unfold returns at hr
  unfold disconnect
  rw [hb] at hr ⊢
  dsimp only at hr ⊢
  cases hon : b.connected with
  | false => simpa [hon] using h
  | true =>
    rw [hon] at hflag
    have hstops : s.stopAll (b.consumers.map Consumer.id) = true := by
      simpa [hon] using hr
    obtain ⟨hpeer, hresting⟩ := stopAll_connected h hb hflag hstops
    have hflag' := hpeer.connected.trans hflag
    rw [if_pos rfl, outline_setConnected (by rw [hflag']; rfl)]
    exact h.peer hpeer (by simp) fun _ => hresting

/-- **Every call keeps the invariant.** -/
theorem sound_call (h : s.outline.Sound granted) (c : Call κ) (hr : s.returns c = true) :
    (s.call c).outline.Sound (granted ++ s.granted c) := by
  cases c with
  | getConsumer e cs => exact sound_getConsumer h e cs
  | bindPublisher p =>
    unfold call Engine.granted
    rw [List.append_nil, bindPublisher_outline]
    exact h
  | connect =>
    unfold call Engine.granted
    rw [List.append_nil]
    exact sound_connect h hr
  | disconnect =>
    unfold call Engine.granted
    rw [List.append_nil]
    exact sound_disconnect h hr

theorem sound_unused (h : s.Unused) : s.outline.Sound [] := by
  obtain ⟨⟨b, hb, hoff, hempty⟩, hdistinct, hids⟩ := h
  obtain ⟨hcards, hflag⟩ := outline_cards hb
  rw [hempty, List.map_nil] at hcards
  rw [hoff] at hflag
  have hall : s.outline.all = s.orphans.map Consumer.card := by
    unfold Outline.all
    rw [hcards]
    rfl
  have hnone : ∀ {P : Card → Prop}, ∀ d ∈ s.outline.cards, P d := by
    rw [hcards]
    exact fun d hd => absurd hd List.not_mem_nil
  refine ⟨?_, ?_, by rw [hflag]; rfl, fun _ => hnone, fun _ => hnone, ?_, hnone, ?_, hnone⟩
  · unfold Outline.Distinct
    rw [hall, List.map_map]
    exact hdistinct
  · rw [hall]
    intro d hd
    obtain ⟨c, hc, rfl⟩ := List.mem_map.mp hd
    exact hids c hc
  · rw [hcards]
    exact List.nodup_nil
  · exact fun g hg => absurd hg List.not_mem_nil

/-- **The invariant holds through every life of a broker.** -/
theorem Life.sound {s₀ : Engine κ} (h : Life s₀ s granted) (hu : s₀.Unused) :
    s.outline.Sound granted := by
  induction h with
  | begin => exact sound_unused hu
  | call c _ hr ih => exact sound_call ih c hr
  | meanwhile _ hd ih => exact ih.perm hd.cards hd.connected hd.orphans hd.nextId

/-- A call while the broker is connected leaves it the consumers it has. -/
theorem call_roster (h : s.outline.Sound granted) (hon : s.outline.connected = some true) (c : Call κ)
    (hr : s.returns c = true) :
    (s.call c).outline.cards.map Card.profile = s.outline.cards.map Card.profile := by
  obtain ⟨b, hb⟩ := sound_broker h
  have hflag : b.connected = true := Option.some.inj ((outline_cards hb).2.symm.trans hon)
  cases c with
  | getConsumer e cs =>
    simp only [call]
    rcases getConsumer_cases hb e cs with ⟨err, hr⟩ | ⟨c, hc, he, hr⟩ | ⟨c, -, hoff, -⟩
    · rw [hr]
    · rw [hr]
      rfl
    · rw [hflag] at hoff
      cases hoff
  | bindPublisher p =>
    simp only [call]
    rw [bindPublisher_outline]
  | connect =>
    simp only [call, connect, hb, hflag, if_true]
  | disconnect =>
    have hstops : s.stopAll (b.consumers.map Consumer.id) = true := by
      simpa [returns, hb, hflag] using hr
    obtain ⟨hpeer, -⟩ := stopAll_connected h hb hon hstops
    simp only [call, disconnect, hb, hflag, if_true]
    rw [outline_setConnected (by rw [hpeer.connected, hon]; rfl)]
    exact hpeer.cards

/-- **The flag tells whether the consumers are started.** After any calls of a broker, whatever
happens between them and however its subscriptions fail: while it is connected each of its consumers
has been started and not stopped since; while it is not, also after a connect that failed for one of
several, none is, and none says that it is running. Each endpoint that was granted has one consumer,
with the settings of the first grant, whose policy is valid. No call adds a consumer while the broker
is connected, and a consumer that is refused leaves everything as it was. -/
theorem Life.flag_tells {s₀ : Engine κ} (h : Life s₀ s granted) (hu : s₀.Unused) :
    ∃ b, s.broker = some b ∧
      (b.connected = true → ∀ c ∈ b.consumers, c.worker.isSome = true) ∧
      (b.connected = false → ∀ c ∈ b.consumers, c.worker = none ∧ c.status ≠ .running) ∧
      (b.consumers.map Consumer.endpoint).Nodup ∧
      (∀ c ∈ b.consumers,
        granted.find? (fun g => g.1 = c.endpoint) = some (c.endpoint, c.settings) ∧
          c.settings.validate = .ok ()) ∧
      (∀ g ∈ granted, ∃ c ∈ b.consumers, c.endpoint = g.1) ∧
      (∀ call, b.connected = true → s.returns call = true →
        (s.call call).outline.cards.map Card.profile = s.outline.cards.map Card.profile) ∧
      ∀ e cs, match s.getConsumer e cs with
        | (.error _, s') => s' = s
        | (.ok c, s') => ∃ c' b', c = some c' ∧ c'.endpoint = e ∧ s'.broker = some b' ∧
            c' ∈ b'.consumers := by
  have hsound := h.sound hu
  obtain ⟨b, hb⟩ := sound_broker hsound
  obtain ⟨hcards, hflag⟩ := outline_cards hb
  have hcard : ∀ c ∈ b.consumers, c.card ∈ s.outline.cards := by
    rw [hcards]
    exact fun c hc => List.mem_map_of_mem hc
  refine ⟨b, hb, ?_, ?_, ?_, ?_, ?_, ?_, ?_⟩
  · intro hon c hc
    exact hsound.started (by rw [hflag, hon]) c.card (hcard c hc)
  · intro hoff c hc
    obtain ⟨hstopped, hpast⟩ := hsound.atRest (by rw [hflag, hoff]) c.card (hcard c hc)
    have hnone : c.worker = none := by
      rw [← Option.not_isSome_iff_eq_none, Bool.not_eq_true]
      exact hstopped
    refine ⟨hnone, ?_⟩
    unfold Consumer.status
    rw [hnone]
    exact hpast
  · have hendpoints := hsound.endpoints
    rw [hcards, List.map_map] at hendpoints
    exact hendpoints
  · intro c hc
    exact ⟨hsound.first c.card (hcard c hc), hsound.valid c.card (hcard c hc)⟩
  · intro g hg
    obtain ⟨d, hd, he⟩ := hsound.made g hg
    rw [hcards] at hd
    obtain ⟨c, hc, rfl⟩ := List.mem_map.mp hd
    exact ⟨c, hc, he⟩
  · intro call hon hr
    exact call_roster hsound (by rw [hflag, hon]) call hr
  · intro e cs
    rcases getConsumer_cases hb e cs with ⟨err, hr⟩ | ⟨c, hc, he, hr⟩ | ⟨c, hnew, -, -, -, hr⟩
    · rw [hr]
    · rw [hr]
      exact ⟨c, b, rfl, he, hb, hc⟩
    · rw [hr]
      have he : c.endpoint = e := congrArg Card.endpoint hnew
      exact ⟨c, _, rfl, he, rfl, List.mem_append_right _ (List.mem_singleton_self c)⟩

def callAll (cs : List (Call κ)) (s : Engine κ) : Engine κ := cs.foldl call s

/-- The calls all return, one after the other. -/
def allReturn : List (Call κ) → Engine κ → Bool
  | [], _ => true
  | c :: cs, s => s.returns c && allReturn cs (s.call c)

theorem Life.calls {s₀ : Engine κ} {cs : List (Call κ)} (h : Life s₀ s granted)
    (hr : s.allReturn cs = true) : ∃ granted, Life s₀ (s.callAll cs) granted := by
  induction cs generalizing s granted with
  | nil => exact ⟨granted, h⟩
  | cons c cs ih =>
    unfold allReturn at hr
    obtain ⟨hc, hcs⟩ := Bool.and_eq_true_iff.mp hr
    exact ih (h.call c hc) hcs

/-- A broker that cannot subscribe to one of its endpoints the first time. -/
def guarded : Engine Unit where
  world :=
    { World.create .memory with
      rules := [{ site := .subscribe, failure := .consume, left := some 1, only := some "payments" }] }
  broker := some
    { number := 0, wire := ⟨.empty, none⟩, pipeline := ⟨Pipeline.builtIn ⟨.empty, none⟩⟩ }

/-- Two consumers, one of them asked for twice, and a connect. -/
def refused : List (Call Unit) :=
  [.bindPublisher ⟨[], [], .standard, [], 0, 0⟩, .getConsumer ⟨"orders", none, []⟩ {},
    .getConsumer ⟨"payments", none, []⟩ { policy := some .skip },
    .getConsumer ⟨"orders", none, []⟩ { policy := some .skip }, .connect]

/-- Another connect, and a third consumer. -/
def repeated : List (Call Unit) := refused ++ [.connect, .getConsumer ⟨"audit", none, []⟩ {}]

/-- The first connect fails for the second consumer, so that the first is stopped again; the next
one starts both, and then no third one is added. -/
theorem flag_tells_refused :
    guarded.Unused ∧
    ((guarded.callAll refused).outline.cards.map fun d => (d.endpoint.name, d.started, d.past)) =
      [("orders", false, .stopped), ("payments", false, .idle)] ∧
    (∃ b, (guarded.callAll refused).broker = some b ∧
      (b.connected = false → ∀ c ∈ b.consumers, c.worker = none ∧ c.status ≠ .running)) ∧
    ((guarded.callAll repeated).outline.cards.map fun d => (d.endpoint.name, d.started)) =
      [("orders", true), ("payments", true)] ∧
    ∃ b, (guarded.callAll repeated).broker = some b ∧
      (b.connected = true → ∀ c ∈ b.consumers, c.worker.isSome = true) := by
  have hunused : guarded.Unused :=
    ⟨⟨_, rfl, rfl, rfl⟩, List.nodup_nil, fun c hc => absurd hc List.not_mem_nil⟩
  have hbegin : Life guarded guarded [] := .begin
  refine ⟨hunused, by decide +kernel, ?_, by decide +kernel, ?_⟩
  · have hreturn : guarded.allReturn refused = true := by decide +kernel
    obtain ⟨granted, hlife⟩ := hbegin.calls hreturn
    obtain ⟨b, hb, -, hoff, -⟩ := hlife.flag_tells hunused
    exact ⟨b, hb, hoff⟩
  · have hreturn : guarded.allReturn repeated = true := by decide +kernel
    obtain ⟨granted, hlife⟩ := hbegin.calls hreturn
    obtain ⟨b, hb, hon, -⟩ := hlife.flag_tells hunused
    exact ⟨b, hb, hon⟩

end Engine

end Relay
