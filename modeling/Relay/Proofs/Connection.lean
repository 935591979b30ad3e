import Relay.Proofs.Lifecycle
import Relay.Proofs.Retry
/-!
# Connecting, however often it takes

A consumer that connects calls its transport until it has a subscription, the call fails for good, or
its retries are spent; while it waits for the next call, the engine goes on. `Engine.atCall` is the
engine that call `i` finds, and `Engine.called` how that call ends and the engine it leaves.

Results:
- `subscribe_ends`: subscribing comes to the end of the call that is last for the outcomes
  (`Backoff.Ends`), with nothing behind it; `subscribe_run`: that is what a retry makes of them.
- `connectConsumer_ends`: so does connecting, but for the worker that starts on the subscription.
- `connectConsumer_iff`: a consumer connects if one of the calls that it has gives a subscription and
  those before it have failed for the time being; `connectConsumer_started`: then it has a worker.
- `retries_exactly`: what a retry does with any outcomes, and what that means for a consumer.
-/
namespace Relay

variable {κ : Type}

/-- The outcome of a call to the transport. -/
def Outcome.ofResult {α : Type} : Except TransportError α → Outcome TransportError α
  | .ok a => .success a
  | .error e => if e.isTransient then .transient e else .permanent e

theorem Outcome.result_ofResult {α : Type} (r : Except TransportError α) :
    (Outcome.ofResult r).result = r := by
  cases r with
  | ok a => rfl
  | error e =>
    unfold ofResult
    dsimp only
    split <;> rfl

/-- What comes of the last call: the worker of the consumer starts on a subscription. -/
def Consumer.launch (c : Consumer κ) :
    Except TransportError Subscription × Engine κ → Except TransportError Unit × Engine κ
  | (.error e, s) => (.error e, s)
  | (.ok stream, s) => (.ok (), (s.replace (c.start stream)).wake c.id)

namespace Engine

/-- The engine that call `i` of a subscription finds, counted from zero: all those before it were made,
and a delay has passed after each of them. -/
def atCall (b : Backoff) (endpoint : Endpoint) (s : Engine κ) : Nat → Engine κ
  | 0 => s
  | i + 1 => ((atCall b endpoint s i).onWorld (World.subscribe endpoint)).2.pass (b.delay i)

/-- How call `i` ends, and the engine it leaves. -/
def called (b : Backoff) (endpoint : Endpoint) (s : Engine κ) (i : Nat) :
    Except TransportError Subscription × Engine κ :=
  (s.atCall b endpoint i).onWorld (World.subscribe endpoint)

def outcome (b : Backoff) (endpoint : Endpoint) (s : Engine κ) (i : Nat) :
    Outcome TransportError Subscription := .ofResult (s.called b endpoint i).1

variable {b : Backoff} {endpoint : Endpoint} {s : Engine κ} {c : Consumer κ}
  {id i last n rest retries : Nat}

/-! ## Subscribing -/

/-- A call that no other follows, for its outcome or since no retry is left. -/
theorem subscribe_over
    (h : (Outcome.ofResult (s.onWorld (World.subscribe endpoint)).1).isTransient = false ∨ rest = 0) :
    s.subscribe b endpoint rest i = s.onWorld (World.subscribe endpoint) := by
  unfold subscribe
  rcases hr : s.onWorld (World.subscribe endpoint) with ⟨e | stream, s'⟩
  · rw [hr] at h
    unfold Outcome.ofResult at h
    dsimp only at h ⊢
    cases he : e.isTransient with
    | false => rfl
    | true =>
      rw [he] at h
      rcases h with h | rfl
      · cases h
      · rfl
  · rfl

/-- A call that failed for the time being, with a delay and a retry left. -/
theorem subscribe_again
    (h : (Outcome.ofResult (s.onWorld (World.subscribe endpoint)).1).isTransient = true)
    (hd : b.delay? i = some (b.delay i)) :
    s.subscribe b endpoint (rest + 1) i =
      ((s.onWorld (World.subscribe endpoint)).2.pass (b.delay i)).subscribe b endpoint rest (i + 1) := by
  conv_lhs => unfold subscribe
  rcases hr : s.onWorld (World.subscribe endpoint) with ⟨e | stream, s'⟩ <;> rw [hr] at h
  · unfold Outcome.ofResult at h
    dsimp only at h ⊢
    cases he : e.isTransient with
    | false =>
      rw [he] at h
      cases h
    | true =>
      rw [if_pos rfl, hd]
  · cases h

/-- The calls from call `i` on, which is not behind the last one. -/
theorem subscribe_from (hb : b.maxTimes = some retries) (h : b.Ends (s.outcome b endpoint) last)
    (hrest : i + rest = retries) (hi : i ≤ last) :
    (s.atCall b endpoint i).subscribe b endpoint rest i = s.called b endpoint last := by
  obtain ⟨hon, -⟩ := Backoff.ends_iff.mp h
  have hlast := h.within retries hb
  induction rest generalizing i with
  | zero =>
    obtain rfl : i = last := by omega
    exact subscribe_over (.inr rfl)
  | succ rest ih =>
    rcases Nat.eq_or_lt_of_le hi with rfl | hlt
    · refine subscribe_over (.inl ?_)
      rcases h.stop with hover | hspent
      · exact hover
      · rw [hb] at hspent
        cases hspent
        omega
    · obtain ⟨htransient, hleft⟩ := hon i hlt
      rw [subscribe_again htransient (Backoff.delay?_left hleft)]
      exact ih (i := i + 1) (by omega) hlt

/-- **Subscribing comes to the end of its last call**, with nothing behind it. -/
theorem subscribe_ends (hb : b.maxTimes = some retries) (h : b.Ends (s.outcome b endpoint) last) :
    s.subscribe b endpoint retries 0 = s.called b endpoint last :=
  subscribe_from hb h (Nat.zero_add retries) (Nat.zero_le last)

/-- One of the calls that there are retries for is the last. -/
theorem exists_last (hb : b.maxTimes = some retries) (s : Engine κ) (endpoint : Endpoint) :
    ∃ last ≤ retries, b.Ends (s.outcome b endpoint) last := by
  obtain ⟨last, h⟩ := (Backoff.exists_ends_iff (o := s.outcome b endpoint)).mpr
    (.inl (by rw [hb]; rfl))
  exact ⟨last, h.within retries hb, h⟩

/-- **Subscribing is a retry of the call**: it comes to what the retry makes of the outcomes. -/
theorem subscribe_run (hb : b.maxTimes = some retries) (s : Engine κ) (endpoint : Endpoint)
    (start : Nat) (hn : retries < n) :
    (b.run start 0 (Backoff.first (s.outcome b endpoint) n)).result =
      some (s.subscribe b endpoint retries 0).1 := by
  obtain ⟨last, hlast, h⟩ := exists_last hb s endpoint
  rw [Backoff.run_ends h (by omega), subscribe_ends hb h]
  exact congrArg some (Outcome.result_ofResult _)

/-! ## Connecting -/

theorem connectConsumer_ends (hc : s.consumer? id = some c) (hw : c.worker = none)
    (h : (s.backoff c).Ends (s.outcome (s.backoff c) c.endpoint) last) :
    s.connectConsumer id = c.launch (s.called (s.backoff c) c.endpoint last) := by
  obtain rfl : c.id = id := (consumer?_card hc).1
  unfold connectConsumer
  rw [hc]
  dsimp only
  rw [hw, subscribe_ends rfl h]
  rfl

theorem launch_ok_iff {r : Except TransportError Subscription × Engine κ} :
    (c.launch r).1 = .ok () ↔ ∃ stream, Outcome.ofResult r.1 = .success stream := by
  rcases r with ⟨e | stream, s'⟩
  · constructor
    · intro h
      cases h
    · rintro ⟨stream, h⟩
      unfold Outcome.ofResult at h
      dsimp only at h
      split at h <;> cases h
  · exact ⟨fun _ => ⟨stream, rfl⟩, fun _ => rfl⟩

/-- **A consumer connects if one of the calls that it has gives a subscription** and those before it have
failed for the time being. -/
theorem connectConsumer_iff (hc : s.consumer? id = some c) (hw : c.worker = none) :
    (s.connectConsumer id).1 = .ok () ↔ ∃ k ≤ c.service.connectRetries,
      (∃ stream, s.outcome (s.backoff c) c.endpoint k = .success stream) ∧
        ∀ i < k, (s.outcome (s.backoff c) c.endpoint i).isTransient = true := by
  obtain ⟨last, hlast, h⟩ := exists_last (b := s.backoff c) rfl s c.endpoint
  rw [connectConsumer_ends hc hw h, launch_ok_iff]
  constructor
  · intro hok
    exact ⟨last, hlast, hok, h.before⟩
  · rintro ⟨k, hk, ⟨stream, hok⟩, hbefore⟩
    -- the call that succeeds is the last one
    have hends : (s.backoff c).Ends (s.outcome (s.backoff c) c.endpoint) k := by
      refine ⟨hbefore, fun m hm => ?_, .inl (by rw [hok]; rfl)⟩
      cases hm
      exact hk
    rw [Backoff.ends_unique h hends]
    exact ⟨stream, hok⟩

/-- The consumer of a card has a worker if the card says so. -/
theorem consumer?_started {d : Card} (hd : s.outline.Distinct) (hmem : d ∈ s.outline.all) :
    ∃ c, s.consumer? d.id = some c ∧ c.worker.isSome = d.started := by
  cases hc : s.consumer? d.id with
  | none => exact absurd rfl (consumer?_none hc d hmem)
  | some c =>
    refine ⟨c, rfl, ?_⟩
    rw [card_eq hd hc d hmem rfl]
    rfl

/-- **The consumer has a worker afterwards if it has connected.** -/
theorem connectConsumer_started (hd : s.outline.Distinct) (hc : s.consumer? id = some c)
    (hw : c.worker = none) : ∃ c', (s.connectConsumer id).2.consumer? id = some c' ∧
      (c'.worker.isSome = true ↔ (s.connectConsumer id).1 = .ok ()) := by
  obtain ⟨rfl, hcard⟩ := consumer?_card hc
  cases hr : (s.connectConsumer c.id).1 with
  | error e =>
    have houtline := connectConsumer_error hd hr
    rw [← houtline] at hd hcard
    obtain ⟨c', hc', hstarted⟩ := consumer?_started hd hcard
    refine ⟨c', hc', ?_⟩
    rw [hstarted, show c.card.started = c.worker.isSome from rfl, hw]
    simp
  | ok u =>
    have houtline := connectConsumer_ok hd hr
    have hpeer : Outline.Peer s.outline (s.outline.update c.id Card.start) :=
      Outline.Peer.update _ _ fun _ => rfl
    have hd' : (s.connectConsumer c.id).2.outline.Distinct := by
      rw [houtline]
      exact hpeer.distinct hd
    have hstart : c.card.start ∈ (s.connectConsumer c.id).2.outline.all := by
      rw [houtline]
      exact Outline.mem_all_update hcard rfl
    obtain ⟨c', hc', hstarted⟩ := consumer?_started hd' hstart
    refine ⟨c', hc', ?_⟩
    rw [hstarted]
    simp [Card.start]

/-! ## Retries -/

/-- **A retry makes as many calls as it must and as it may.** For any backoff, any outcomes and any time
to start at: if a call is the last one, which is the first that ends in anything but a transient failure,
or the one for which no delay is left, then the calls up to it are made, each the delay of the backoff
after the one before; the outcome of the last one is the result, and nothing is waited for after it.
Where no call so far is the last one, all have been made and there is no result; and no call at all is the
last one only if the delays never run out and all outcomes are transient failures.

Subscribing is such a retry, however long its delays are: it makes one call more than it has retries, at
most, and is the call that is last. A consumer without a worker that connects is that call, whatever the
delays that it is given, with its worker started on the subscription. It connects if and only if one of
the calls that it has is a success and those before it are transient failures, and then it has a
worker. -/
theorem retries_exactly :
    (∀ (ε α : Type) (b : Backoff) (o : Nat → Outcome ε α) (start : Nat),
      (∀ last, b.Ends o last →
        (∀ n, last < n → b.run start 0 (Backoff.first o n) =
          ⟨(List.range (last + 1)).map (b.callTime start), some (o last).result⟩) ∧
        (∀ i < last, b.verdict i (o i) = .sleep (b.delay i)) ∧
        b.verdict last (o last) = .finished (o last).result) ∧
      (∀ n, (∀ last < n, ¬ b.Ends o last) →
        b.run start 0 (Backoff.first o n) = ⟨(List.range n).map (b.callTime start), none⟩) ∧
      ((∃ last, b.Ends o last) ↔ b.maxTimes.isSome = true ∨ ∃ i, (o i).isTransient = false)) ∧
    (∀ (b : Backoff) (retries : Nat), b.maxTimes = some retries →
      ∀ (s : Engine κ) (endpoint : Endpoint),
        (∃ last ≤ retries, b.Ends (s.outcome b endpoint) last ∧
          s.subscribe b endpoint retries 0 = s.called b endpoint last) ∧
        ∀ start n, retries < n → (b.run start 0 (Backoff.first (s.outcome b endpoint) n)).result =
          some (s.subscribe b endpoint retries 0).1) ∧
    ∀ (s : Engine κ) (id : Nat) (c : Consumer κ), s.consumer? id = some c → c.worker = none →
      let retries := c.service.connectRetries
      let b : Backoff := ⟨some retries, s.delays id s.now⟩
      (∃ last ≤ retries, b.Ends (s.outcome b c.endpoint) last ∧
        s.connectConsumer id = c.launch (s.called b c.endpoint last)) ∧
      ((s.connectConsumer id).1 = .ok () ↔ ∃ k ≤ retries,
        (∃ stream, s.outcome b c.endpoint k = .success stream) ∧
          ∀ i < k, (s.outcome b c.endpoint i).isTransient = true) ∧
      (s.outline.Distinct → ∃ c', (s.connectConsumer id).2.consumer? id = some c' ∧
        (c'.worker.isSome = true ↔ (s.connectConsumer id).1 = .ok ())) := by
  refine ⟨fun ε α b o start => ⟨fun last h => ⟨?_, ?_, ?_⟩, ?_, ?_⟩,
    fun b retries hb s endpoint => ⟨?_, fun start n hn => subscribe_run hb s endpoint start hn⟩,
    fun s id c hc hw => ?_⟩
  · intro n hn
    exact Backoff.run_ends h hn start
  · intro i hi
    exact Backoff.verdict_goesOn ((Backoff.ends_iff.mp h).1 i hi)
  · exact Backoff.verdict_over (Backoff.ends_iff.mp h).2
  · intro n h
    exact Backoff.run_open h start
  · exact Backoff.exists_ends_iff
  · obtain ⟨last, hlast, h⟩ := exists_last hb s endpoint
    exact ⟨last, hlast, h, subscribe_ends hb h⟩
  · obtain rfl : c.id = id := (consumer?_card hc).1
    obtain ⟨last, hlast, h⟩ := exists_last (b := s.backoff c) rfl s c.endpoint
    exact ⟨⟨last, hlast, h, connectConsumer_ends hc hw h⟩, connectConsumer_iff hc hw,
      fun hd => connectConsumer_started hd hc hw⟩

/-- A consumer with so many retries. -/
def orders (retries : Nat) : Consumer Unit :=
  { id := 0
    endpoint := ⟨"orders", none, []⟩
    settings := {}
    service :=
      { broker := 0, wire := ⟨.empty, none⟩, pipeline := ⟨Pipeline.builtIn ⟨.empty, none⟩⟩
        publisher := ⟨[], [], .standard, [], 0, 0⟩, connectRetries := retries } }

/-- Its endpoint cannot be reached the first two times. A wait is longer than the last by some jitter. -/
def hindered (retries : Nat) : Engine Unit where
  delays := fun id now i => 100 + 7 * i + (id + now) % 3
  world :=
    { World.create .memory with
      rules := [{ site := .subscribe, failure := .connection, left := some 2 }] }
  broker := some
    { number := 0, wire := ⟨.empty, none⟩, pipeline := ⟨Pipeline.builtIn ⟨.empty, none⟩⟩,
      consumers := [orders retries] }

/-- With two retries the third call is made and the consumer connects, with one it is not made. A backoff
of two delays allows three calls. -/
theorem retries_exactly_hindered :
    ((hindered 2).connectConsumer 0).1 = .ok () ∧
    (∃ c, ((hindered 2).connectConsumer 0).2.consumer? 0 = some c ∧ c.worker.isSome = true) ∧
    ((hindered 1).connectConsumer 0).1 ≠ .ok () ∧
    (Backoff.constant 100 (some 2)).run 0 0
      (Backoff.first (.transient : Nat → Outcome Nat Unit) 9) = ⟨[0, 100, 200], some (.error 2)⟩ ∧
    ∃ last ≤ 2, (hindered 1).subscribe (.constant 100 (some 2)) (orders 1).endpoint 2 0 =
      (hindered 1).called (.constant 100 (some 2)) (orders 1).endpoint last := by
  obtain ⟨hany, hsubscribe, hconsumer⟩ := @retries_exactly Unit
  obtain ⟨-, htwo, hstarted⟩ := hconsumer (hindered 2) 0 (orders 2) rfl rfl
  obtain ⟨-, hone, -⟩ := hconsumer (hindered 1) 0 (orders 1) rfl rfl
  have hfailed : ∀ retries < 3, ∀ i < 2, ((hindered retries).outcome
      ((hindered retries).backoff (orders retries)) (orders retries).endpoint i).isTransient =
        true := by decide +kernel
  have hthird : ((hindered 2).called ((hindered 2).backoff (orders 2)) (orders 2).endpoint 2).1.isOk =
      true := by decide +kernel
  have hok : ((hindered 2).connectConsumer 0).1 = .ok () := by
    refine htwo.mpr ⟨2, Nat.le_refl 2, ?_, hfailed 2 (by decide)⟩
    unfold outcome
    cases hr : ((hindered 2).called ((hindered 2).backoff (orders 2)) (orders 2).endpoint 2).1 with
    | ok stream => exact ⟨stream, congrArg Outcome.ofResult hr⟩
    | error e =>
      rw [hr] at hthird
      cases hthird
  refine ⟨hok, ?_, ?_, ?_, ?_⟩
  · obtain ⟨c, hc, hiff⟩ := hstarted (List.nodup_singleton 0)
    exact ⟨c, hc, hiff.mpr hok⟩
  · intro h
    obtain ⟨k, hk, ⟨stream, hs⟩, -⟩ := hone.mp h
    have hs : (hindered 1).outcome ((hindered 1).backoff (orders 1)) (orders 1).endpoint k =
        .success stream := hs
    have ht := hfailed 1 (by decide) k (Nat.lt_succ_of_le hk)
    rw [hs] at ht
    cases ht
  · have hends : (Backoff.constant 100 (some 2)).Ends (.transient : Nat → Outcome Nat Unit) 2 :=
      ⟨fun _ _ => rfl, fun m hm => by cases hm; exact Nat.le_refl 2, .inr rfl⟩
    obtain ⟨hrun, -⟩ := (hany Nat Unit _ _ 0).1 2 hends
    exact hrun 9 (by decide)
  · obtain ⟨⟨last, hlast, -, heq⟩, -⟩ :=
      hsubscribe (.constant 100 (some 2)) 2 rfl (hindered 1) (orders 1).endpoint
    exact ⟨last, hlast, heq⟩

end Engine

end Relay
