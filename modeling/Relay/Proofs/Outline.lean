import Mathlib.Data.List.Nodup
import Relay.Engine
/-!
# What the calls of a broker decide

A broker's flag, its consumers and what each of them knows of its worker are changed at different
points of `connect` and `disconnect`, and other workers run meanwhile. The `Outline` of an engine is
what these calls decide: the flag, and of each consumer a `Card` that says whether it has been started
and not stopped since. `Keeps` says of everything else an engine does (waking and running workers,
letting time go by, publishing, subscribing) that it leaves the outline.

`Outline.Peer` relates outlines of the same consumers, `Outline.Within` bounds those that are started.
-/
namespace Relay

variable {κ : Type}

/-! ## Outlines -/

/-- What the lifecycle decides of a consumer. -/
structure Card where
  id : Nat
  endpoint : Endpoint
  settings : ConsumerSettings
  /-- It was started and not stopped since. -/
  started : Bool
  /-- How the last worker that was stopped ended. -/
  past : Status

namespace Card

/-- What a card says for good. -/
def profile (d : Card) : Nat × Endpoint × ConsumerSettings := (d.id, d.endpoint, d.settings)

def start (d : Card) : Card := { d with started := true }

def stop (past : Status) (d : Card) : Card :=
  if d.started then { d with started := false, past } else d

/-- The consumer is not started, nor does it say it is running. -/
def AtRest (d : Card) : Prop := d.started = false ∧ d.past ≠ .running

theorem stop_profile (past : Status) (d : Card) : (d.stop past).profile = d.profile := by
  unfold stop
  split <;> rfl

theorem stop_id (past : Status) (d : Card) : (d.stop past).id = d.id :=
  congrArg Prod.fst (stop_profile past d)

theorem stop_atRest {past : Status} {d : Card} (hp : past ≠ .running)
    (h : d.started = false → d.past ≠ .running) : (d.stop past).AtRest := by
  unfold stop
  cases hs : d.started with
  | true => exact ⟨rfl, hp⟩
  | false => exact ⟨hs, h hs⟩

end Card

def Consumer.card (c : Consumer κ) : Card :=
  ⟨c.id, c.endpoint, c.settings, c.worker.isSome, c.past⟩

namespace Consumer

theorem mapSignal_card (f : Signal → Signal) (c : Consumer κ) : (c.mapSignal f).card = c.card := by
  unfold mapSignal card
  cases c.worker <;> rfl

/-- A consumer that lets go of a worker that has ended keeps how it ended. -/
theorem release_card {c : Consumer κ} {w : Worker κ} (hw : c.worker = some w)
    (he : w.isEnded = true) : ∃ past, past ≠ .running ∧ c.release.card = c.card.stop past := by
  have hstop : ∀ past, c.card.stop past = ⟨c.id, c.endpoint, c.settings, false, past⟩ := by
    intro past
    simp [Card.stop, card, hw]
  unfold release
  rw [hw]
  unfold Worker.isEnded at he
  cases hp : w.phase with
  | stopped => exact ⟨.stopped, by simp, by rw [hstop]; simp [card, Worker.status, hp]⟩
  | failed reason => exact ⟨.failed reason, by simp, by rw [hstop]; simp [card, Worker.status, hp]⟩
  | panicked => exact ⟨.failed "consumer task panicked", by simp, by rw [hstop]; simp [card, hp]⟩
  | _ => simp [hp] at he

end Consumer

/-- The cards of the broker's consumers, and whether it counts as connected. -/
structure Outline where
  /-- None without a broker. -/
  connected : Option Bool
  cards : List Card
  /-- Those of the consumers whose broker is gone. -/
  orphans : List Card
  nextId : Nat

namespace Outline

def all (o : Outline) : List Card := o.cards ++ o.orphans

/-- Changes the cards of an id. -/
def update (id : Nat) (f : Card → Card) (o : Outline) : Outline :=
  { o with
    cards := o.cards.map fun d => if d.id = id then f d else d
    orphans := o.orphans.map fun d => if d.id = id then f d else d }

def Distinct (o : Outline) : Prop := (o.all.map Card.id).Nodup

/-- The same consumers, started or not. -/
structure Peer (o o' : Outline) : Prop where
  connected : o'.connected = o.connected
  cards : o'.cards.map Card.profile = o.cards.map Card.profile
  orphans : o'.orphans.map Card.profile = o.orphans.map Card.profile
  nextId : o'.nextId = o.nextId

variable {o o' o'' : Outline} {id : Nat} {f g : Card → Card} {d e : Card}

theorem mem_all : d ∈ o.all ↔ d ∈ o.cards ∨ d ∈ o.orphans := List.mem_append

theorem Distinct.eq (h : o.Distinct) (hd : d ∈ o.all) (he : e ∈ o.all) (hid : d.id = e.id) : d = e :=
  List.inj_on_of_nodup_map h hd he hid

theorem update_congr (h : ∀ d ∈ o.all, d.id = id → f d = g d) : o.update id f = o.update id g := by
  have hmap : ∀ ds : List Card, (∀ d ∈ ds, d ∈ o.all) →
      (ds.map fun d => if d.id = id then f d else d) = ds.map fun d => if d.id = id then g d else d := by
    intro ds hall
    refine List.map_congr_left fun d hd => ?_
    by_cases hid : d.id = id
    · rw [if_pos hid, if_pos hid, h d (hall d hd) hid]
    · rw [if_neg hid, if_neg hid]
  unfold update
  rw [hmap o.cards fun d hd => mem_all.mpr (.inl hd), hmap o.orphans fun d hd => mem_all.mpr (.inr hd)]

theorem update_same (h : ∀ d ∈ o.all, d.id = id → f d = d) : o.update id f = o := by
  have hsame : o.update id (fun d => d) = o := by
    unfold update
    simp
  rw [update_congr h, hsame]

theorem mem_update (h : d ∈ (o.update id f).cards) :
    ∃ e ∈ o.cards, d = if e.id = id then f e else e := by
  obtain ⟨e, he, rfl⟩ := List.mem_map.mp h
  exact ⟨e, he, rfl⟩

theorem mem_all_update (h : d ∈ o.all) (hid : d.id = id) : f d ∈ (o.update id f).all := by
  have hmap : ∀ {ds : List Card}, d ∈ ds → f d ∈ ds.map fun d => if d.id = id then f d else d :=
    fun hd => List.mem_map.mpr ⟨d, hd, if_pos hid⟩
  exact mem_all.mpr ((mem_all.mp h).imp hmap hmap)

theorem Peer.refl (o : Outline) : Peer o o := ⟨rfl, rfl, rfl, rfl⟩

theorem Peer.trans (h : Peer o o') (h' : Peer o' o'') : Peer o o'' where
  connected := h'.connected.trans h.connected
  cards := h'.cards.trans h.cards
  orphans := h'.orphans.trans h.orphans
  nextId := h'.nextId.trans h.nextId

theorem Peer.symm (h : Peer o o') : Peer o' o :=
  ⟨h.connected.symm, h.cards.symm, h.orphans.symm, h.nextId.symm⟩

theorem Peer.mem (h : Peer o o') (hd : d ∈ o'.cards) : ∃ e ∈ o.cards, e.profile = d.profile := by
  have hmem : d.profile ∈ o'.cards.map Card.profile := List.mem_map_of_mem hd
  rw [h.cards] at hmem
  exact List.mem_map.mp hmem

theorem Peer.update (o : Outline) (id : Nat) (hf : ∀ d, (f d).profile = d.profile) :
    Peer o (o.update id f) := by
  have hmap : ∀ ds : List Card,
      (ds.map fun d => if d.id = id then f d else d).map Card.profile = ds.map Card.profile := by
    intro ds
    rw [List.map_map]
    refine List.map_congr_left fun d _ => ?_
    show (if d.id = id then f d else d).profile = d.profile
    split
    · exact hf d
    · rfl
  exact ⟨rfl, hmap o.cards, hmap o.orphans, rfl⟩

theorem Peer.all (h : Peer o o') : o'.all.map Card.profile = o.all.map Card.profile := by
  unfold Outline.all
  rw [List.map_append, List.map_append, h.cards, h.orphans]

theorem Peer.ids (h : Peer o o') : o'.all.map Card.id = o.all.map Card.id := by
  have hids := congrArg (List.map Prod.fst) h.all
  rwa [List.map_map, List.map_map] at hids

theorem Peer.distinct (h : Peer o o') (hd : o.Distinct) : o'.Distinct := by
  unfold Distinct
  rw [h.ids]
  exact hd

/-- Only consumers of these ids are started, and the others are at rest. -/
structure Within (ids : List Nat) (o : Outline) : Prop where
  started : ∀ d ∈ o.cards, d.started = true → d.id ∈ ids
  rest : ∀ d ∈ o.cards, d.started = false → d.past ≠ .running

theorem Within.start {ids : List Nat} (h : o.Within ids) (id : Nat) :
    (o.update id Card.start).Within (ids ++ [id]) := by
  constructor <;> intro d hmem hs <;> obtain ⟨e, he, rfl⟩ := mem_update hmem
  · by_cases hid : e.id = id
    · rw [if_pos hid]
      exact List.mem_append_right _ (List.mem_singleton.mpr hid)
    · rw [if_neg hid] at hs ⊢
      exact List.mem_append_left _ (h.started e he hs)
  · by_cases hid : e.id = id
    · rw [if_pos hid] at hs
      cases hs
    · rw [if_neg hid] at hs ⊢
      exact h.rest e he hs

theorem Within.stop {ids : List Nat} {past : Status} (h : o.Within (id :: ids))
    (hp : past ≠ .running) : (o.update id (Card.stop past)).Within ids := by
  constructor <;> intro d hmem hs <;> obtain ⟨e, he, rfl⟩ := mem_update hmem
  · by_cases hid : e.id = id
    · rw [if_pos hid, (Card.stop_atRest hp (h.rest e he)).1] at hs
      cases hs
    · rw [if_neg hid] at hs ⊢
      exact List.mem_of_ne_of_mem hid (h.started e he hs)
  · by_cases hid : e.id = id
    · rw [if_pos hid]
      exact (Card.stop_atRest hp (h.rest e he)).2
    · rw [if_neg hid] at hs ⊢
      exact h.rest e he hs

/-- What is not started after a start was not started before, and is another consumer. -/
theorem start_pending {ids : List Nat} (h : ∀ d ∈ o.cards, d.started = false → d.id ∈ id :: ids) :
    ∀ d ∈ (o.update id Card.start).cards, d.started = false → d.id ∈ ids := by
  intro d hmem hs
  obtain ⟨e, he, rfl⟩ := mem_update hmem
  by_cases hid : e.id = id
  · rw [if_pos hid] at hs
    cases hs
  · rw [if_neg hid] at hs ⊢
    exact List.mem_of_ne_of_mem hid (h e he hs)

end Outline

/-! ## What the engine keeps -/

namespace Engine

open Outline (Peer)

def outline (s : Engine κ) : Outline where
  connected := s.broker.map Broker.connected
  cards := ((s.broker.map Broker.consumers).getD []).map Consumer.card
  orphans := s.orphans.map Consumer.card
  nextId := s.nextId

theorem outline_all (s : Engine κ) : s.outline.all = s.consumers.map Consumer.card := by
  unfold Outline.all outline consumers
  rw [List.map_append]

/-- No consumer is started, stopped, added or taken away. -/
def Keeps (s s' : Engine κ) : Prop := s.outline.Distinct → s'.outline = s.outline

variable {s s' s'' : Engine κ} {id : Nat}

theorem Keeps.refl (s : Engine κ) : s.Keeps s := fun _ => rfl

theorem Keeps.trans (h : s.Keeps s') (h' : s'.Keeps s'') : s.Keeps s'' := by
  intro hd
  have heq := h hd
  rw [h' (by rw [heq]; exact hd), heq]

theorem Keeps.of_eq (h : s'.outline = s.outline) : s.Keeps s' := fun _ => h

/-- Only the broker, the orphans and the next id are in the outline. -/
theorem Keeps.rest (s : Engine κ) (now : Nat) (world : World κ) (queue waiters : List Nat) :
    s.Keeps { s with now, world, queue, waiters } := .of_eq rfl

theorem Keeps.foldl {α : Type} {f : Engine κ → α → Engine κ} (hf : ∀ s a, Keeps s (f s a))
    (as : List α) (s : Engine κ) : s.Keeps (as.foldl f s) := by
  induction as generalizing s with
  | nil => exact .refl s
  | cons a as ih => exact (hf s a).trans (ih (f s a))

theorem outline_replace (s : Engine κ) (c : Consumer κ) :
    (s.replace c).outline = s.outline.update c.id fun _ => c.card := by
  have hmap : ∀ cs : List (Consumer κ), (c.replace cs).map Consumer.card =
      (cs.map Consumer.card).map fun d => if d.id = c.id then c.card else d := by
    intro cs
    unfold Consumer.replace
    rw [List.map_map, List.map_map]
    refine List.map_congr_left fun d _ => ?_
    show (if d.id = c.id then c else d).card = if d.id = c.id then c.card else d.card
    split <;> rfl
  unfold replace outline Outline.update
  cases s.broker with
  | none => simp [hmap]
  | some b => simp [hmap]

/-- The consumer found under an id has the card of that id. -/
theorem consumer?_card {c : Consumer κ} (h : s.consumer? id = some c) :
    c.id = id ∧ c.card ∈ s.outline.all := by
  refine ⟨by simpa using List.find?_some h, ?_⟩
  rw [outline_all]
  exact List.mem_map_of_mem (List.mem_of_find?_eq_some h)

theorem consumer?_none (h : s.consumer? id = none) : ∀ d ∈ s.outline.all, d.id ≠ id := by
  rw [outline_all]
  intro d hd hid
  obtain ⟨c, hc, rfl⟩ := List.mem_map.mp hd
  have hne := List.find?_eq_none.mp h c hc
  exact hne (beq_iff_eq.mpr hid)

/-- The card of an id is that of the consumer found under it. -/
theorem card_eq {c : Consumer κ} (hd : s.outline.Distinct) (h : s.consumer? id = some c) :
    ∀ d ∈ s.outline.all, d.id = id → d = c.card := by
  intro d hmem hid
  obtain ⟨hc, hcard⟩ := consumer?_card h
  exact hd.eq hmem hcard (hid.trans hc.symm)

/-- A consumer with another worker in the place of its worker. -/
theorem Keeps.replace {c c' : Consumer κ} (h : s.consumer? id = some c) (hc : c'.card = c.card) :
    s.Keeps (s.replace c') := by
  intro hd
  have hid : c'.id = id := (congrArg Card.id hc).trans (consumer?_card h).1
  rw [outline_replace, hid]
  refine Outline.update_same fun d hmem he => ?_
  rw [hc, card_eq hd h d hmem he]

/-! ### Turns -/

theorem wake_keeps (id : Nat) (s : Engine κ) : s.Keeps (s.wake id) := by
  unfold wake
  split <;> exact .of_eq rfl

theorem await_keeps (id : Nat) (s : Engine κ) : s.Keeps (s.await id) := by
  unfold await
  split <;> exact .of_eq rfl

theorem notify_keeps (s : Engine κ) (topic : String) : s.Keeps (s.notify topic) := by
  have hwake : ∀ (s : Engine κ) (id : Nat), s.Keeps (s.wake id) := fun s id => wake_keeps id s
  unfold notify
  rcases s.waiters.partition (s.listensTo topic) with ⟨woken, waiters⟩
  exact (Keeps.rest s s.now s.world s.queue waiters).trans (.foldl hwake woken _)

theorem notifyAll_keeps (s : Engine κ) : s.Keeps s.notifyAll := by
  unfold notifyAll
  exact (Keeps.rest s s.now _ s.queue s.waiters).trans (.foldl notify_keeps _ _)

theorem world_keeps (s : Engine κ) (world : World κ) :
    s.Keeps ({ s with world } : Engine κ).notifyAll :=
  (Keeps.rest s s.now world s.queue s.waiters).trans (notifyAll_keeps _)

theorem runWorker_keeps (s : Engine κ) (id : Nat) : s.Keeps (s.runWorker id) := by
  unfold runWorker
  cases hc : s.consumer? id with
  | none => exact .refl s
  | some c =>
    dsimp only
    cases hw : c.worker with
    | none => exact .refl s
    | some w =>
      dsimp only
      rcases w.run stride s.now s.world with ⟨w', world⟩
      dsimp only
      have hcard : ({ c with worker := some w' } : Consumer κ).card = c.card := by
        unfold Consumer.card
        rw [hw]
        rfl
      have hreplace : s.Keeps (({ s with world } : Engine κ).replace { c with worker := some w' }) :=
        (Keeps.rest s s.now world s.queue s.waiters).trans (.replace hc hcard)
      refine Keeps.trans ?_ (notifyAll_keeps _)
      split
      · exact hreplace.trans (await_keeps id _)
      · exact hreplace

theorem drain_keeps (turns : Nat) (s : Engine κ) : s.Keeps (drain turns s) := by
  induction turns generalizing s with
  | zero => exact .refl s
  | succ turns ih =>
    unfold drain
    split
    · exact .refl s
    · next id queue _ =>
      have hpop := Keeps.rest s s.now s.world queue s.waiters
      exact hpop.trans ((runWorker_keeps _ id).trans (ih _))

theorem settle_keeps (s : Engine κ) : s.Keeps s.settle :=
  (notifyAll_keeps s).trans (drain_keeps _ _)

theorem advance_keeps (t : Nat) (s : Engine κ) : s.Keeps (s.advance t) := by
  have hwake : ∀ (s : Engine κ) (d : Nat × Nat), s.Keeps (s.wake d.2) := fun s d => wake_keeps d.2 s
  unfold advance
  exact (Keeps.rest s (max s.now t) s.world s.queue s.waiters).trans (.foldl hwake _ _)

theorem runUntil_keeps (limit instants : Nat) (s : Engine κ) :
    s.Keeps (runUntil limit instants s) := by
  induction instants generalizing s with
  | zero => exact .refl s
  | succ instants ih =>
    unfold runUntil
    refine (settle_keeps s).trans ?_
    dsimp only
    split
    · split
      · exact (advance_keeps _ _).trans (ih _)
      · exact advance_keeps _ _
    · exact advance_keeps _ _

theorem pass_keeps (ms : Nat) (s : Engine κ) : s.Keeps (s.pass ms) := runUntil_keeps _ _ s

theorem runFlow_keeps {α : Type} (instants : Nat) (flow : Work (Scope κ) α)
    (outbox : Option (List Outgoing)) (s : Engine κ) : s.Keeps (runFlow instants flow outbox s).2 := by
  induction instants generalizing flow outbox s with
  | zero => exact .refl s
  | succ instants ih =>
    unfold runFlow
    rcases flow.poll s.now ⟨s.world, outbox⟩ with ⟨flow, scope⟩
    have hworld : s.Keeps { s with world := scope.world } := .of_eq rfl
    dsimp only
    split
    · exact hworld
    · exact hworld
    · split
      · exact hworld.trans ((settle_keeps _).trans ((advance_keeps _ _).trans (ih _ _ _)))
      · exact hworld.trans (settle_keeps _)

theorem publish_keeps {α : Type} (flow : Work (Scope κ) α) (s : Engine κ) :
    s.Keeps (s.publish flow).2 :=
  (runFlow_keeps patience flow none s).trans (notifyAll_keeps _)

theorem publishBlocking_keeps (p : Publisher (Scope κ)) (ms : List Message) (s : Engine κ) :
    s.Keeps (s.publishBlocking p ms).2 := by
  unfold publishBlocking
  exact world_keeps s _

theorem onWorld_keeps {ε α : Type} (s : Engine κ) (o : Op κ ε α) : s.Keeps (s.onWorld o).2 := by
  unfold onWorld
  exact world_keeps s _

/-- **Subscribing, with all the retries and whatever runs between them, starts nothing.** -/
theorem subscribe_keeps (b : Backoff) (endpoint : Endpoint) (retries i : Nat) (s : Engine κ) :
    s.Keeps (s.subscribe b endpoint retries i).2 := by
  induction retries generalizing i s with
  | zero =>
    have hcall := onWorld_keeps s (World.subscribe endpoint)
    unfold subscribe
    rcases hr : s.onWorld (World.subscribe endpoint) with ⟨e | stream, s'⟩ <;> rw [hr] at hcall
    · dsimp only
      split <;> exact hcall
    · exact hcall
  | succ retries ih =>
    have hcall := onWorld_keeps s (World.subscribe endpoint)
    unfold subscribe
    rcases hr : s.onWorld (World.subscribe endpoint) with ⟨e | stream, s'⟩ <;> rw [hr] at hcall
    · dsimp only
      split
      · cases b.delay? i with
        | none => exact hcall
        | some ms => exact hcall.trans ((pass_keeps ms s').trans (ih (i + 1) _))
      · exact hcall
    · exact hcall

theorem runToEnd_keeps (id instants : Nat) (s : Engine κ) : s.Keeps (runToEnd id instants s) := by
  induction instants generalizing s with
  | zero => exact .refl s
  | succ instants ih =>
    unfold runToEnd
    refine (settle_keeps s).trans ?_
    dsimp only
    split
    · exact .refl _
    · split
      · exact .refl _
      · split
        · exact (advance_keeps _ _).trans (ih _)
        · exact .refl _

end Engine

end Relay
