import Mathlib
import Relay.Proofs.Acceptance
import Relay.Proofs.Consumer.Attempt
import Relay.Proofs.Consumer.Course
import Relay.Proofs.Consumer.Trail
import Relay.Proofs.Ledger
import Relay.Proofs.Routing
import Relay.Proofs.Settlement
/-!
# Batches and the stream they are cut from

A consumer takes the messages of its stream in batches, and what it knows of the messages before is
partly committed and partly in the transaction of the batch at hand. Only the ledger that both make up
together matters: where two inboxes `Mirrors` each other, the pipeline makes the same of a message,
and the inboxes it leaves mirror each other again (`Attempt.prepare_mirrors`). So a batch that is
processed over committed stores does what it does in one transaction with all the messages before it,
and what comes of the stream does not depend on where it was cut.

**No call fails (`Worker.Handles`, a hypothesis about the stores and the handlers).** A batch that gets
through the pipeline is committed and acknowledged at its first attempt, and one that does not was not
refused a look-up. That every batch gets through is proved, from the stream doing so in one
transaction.

Results:
- `Worker.Handles.carried`: what a batch hands on and leaves that is committed at the first attempt.
- `Worker.Consumes.carried`: batches hand on and leave what their stream does in one transaction.
- `Worker.batching_transparent`: so two ways to cut a stream come to the same.
-/
namespace Relay

open World (Alike Aside)

variable {κ : Type} {name : String}

/-! ## Inboxes that show the same -/

/-- Two inboxes show the same. -/
def Inbox.Mirrors (s s' : Inbox κ) : Prop := s'.ledger = s.ledger

theorem Inbox.Mirrors.of_aside {s : Inbox κ} {u u' : World κ} (h : s.Mirrors ⟨{}, u⟩)
    (hu : Aside name u u') : s.Mirrors ⟨{}, u'⟩ := by
  unfold Inbox.Mirrors Inbox.ledger at h ⊢
  rw [hu.log, hu.chunks]
  exact h

/-- The run comes to the same over the other inbox, or a store refuses a look-up there. -/
def Matches {α : Type} (a : α) (t : Inbox κ) : EStateM.Result InboundError (Inbox κ) α → Prop
  | .ok a' t' => a' = a ∧ t.Mirrors t'
  | .error e _ => e.Refused

namespace Attempt

variable {wire : Wire} {endpoint : Endpoint}

/-- **The pipeline makes the same of the messages** over inboxes that show the same. -/
theorem prepare_mirrors {ms : List RawMessage} {out : List Message} {s s' t : Inbox κ}
    (hm : s.Mirrors s') (h : prepare (.create wire []) endpoint ms s = .ok out t) :
    Matches out t (prepare (.create wire []) endpoint ms s') := by
  obtain ⟨haccept, hafter⟩ := prepare_accepts h
  unfold Inbox.Mirrors at hm
  rw [← hm] at haccept hafter
  cases h' : prepare (.create wire []) endpoint ms s' with
  | ok out' t' =>
    obtain ⟨haccept', hafter'⟩ := prepare_accepts h'
    exact ⟨Except.ok.inj (haccept'.symm.trans haccept), hafter'.trans hafter.symm⟩
  | error e t' => exact prepare_withheld h' haccept

theorem prepare_append {p : Pipeline κ} {ms ns : List RawMessage} {out : List Message}
    {s t : Inbox κ} (h : prepare p endpoint (ms ++ ns) s = .ok out t) :
    ∃ first rest u, prepare p endpoint ms s = .ok first u ∧
      prepare p endpoint ns u = .ok rest t ∧ out = first ++ rest := by
  induction ms generalizing out s with
  | nil => exact ⟨[], out, s, rfl, h, rfl⟩
  | cons m ms ih =>
    obtain ⟨raw, one, more, v, hraw, hone, hmore, rfl⟩ := prepare_cons_ok h
    obtain ⟨first, rest, y, hfirst, hrest, rfl⟩ := ih hmore
    refine ⟨one.toList ++ first, rest, y, ?_, hrest, (List.append_assoc _ _ _).symm⟩
    rw [prepare_cons _ hraw, bind_of_ok hone, bind_of_ok hfirst]
    rfl

end Attempt

/-! ## What a batch leaves -/

theorem Transaction.Makes.of_aside {tx : Transaction κ} {L : Ledger} {w w' : World κ}
    (h : tx.Makes L w) (hw : Aside name w w') : tx.Makes L w' := by
  obtain ⟨hx, hs, hr⟩ := h
  rw [← hw.log, ← hw.chunks] at hx hs
  exact ⟨hx, hs, hr⟩

/-- The stores hold what the ledger says, and the offsets were acknowledged. -/
structure World.Carried (name : String) (L : Ledger) (offsets : List String) (w w' : World κ) :
    Prop where
  ledger : w'.ledger = L
  acknowledged : ∀ o, o ∈ (w'.transport.topic name).acknowledged ↔
    o ∈ (w.transport.topic name).acknowledged ∨ o ∈ offsets

namespace World.Carried

variable {L : Ledger} {offsets : List String} {w u v w' : World κ}

theorem of_aside (h : Carried name L offsets u v) (hu : Aside name w u) (hv : Aside name v w') :
    Carried name L offsets w w' where
  ledger := (World.ledger_eq hv.log hv.chunks).trans h.ledger
  acknowledged := by
    rw [hv.acknowledged, ← hu.acknowledged]
    exact h.acknowledged

end World.Carried

open World (Carried)

/-- A batch that is committed and acknowledged. -/
theorem Attempt.commit_carried {endpoint : Endpoint} {wire : Wire} {ms : List RawMessage}
    {tx : Transaction κ} {L : Ledger} {w u w' : World κ} (htx : tx.Makes L w)
    (hc : tx.commit wire w = .ok () u) (hk : acknowledge endpoint ms u = .ok () w') :
    Carried endpoint.name L (offsets ms) w w' := by
  obtain ⟨hlog, hchunks, hacked⟩ := acknowledge_ok hk
  have hledger := Transaction.commit_ledger htx.exact htx.resources hc
  obtain ⟨_, _, -, -, hu⟩ := Transaction.commit_ok endpoint.name htx.resources hc
  have hkept : (u.transport.topic endpoint.name).acknowledged =
    (w.transport.topic endpoint.name).acknowledged := hu.acknowledged
  refine ⟨((World.ledger_eq hlog hchunks).trans hledger).trans htx.shown, ?_⟩
  rw [← hkept]
  exact hacked

/-! ## The first attempt at a batch -/

/-- Where a worker stands that has got a batch through the pipeline: it publishes, or it is done with
the batch, or an attempt has failed. -/
inductive Trail.Underway (w : Worker κ) (batch : List RawMessage) (L : Ledger) (world : World κ)
    (t : Trail κ) : Prop
  | publishing {k : UInt32} {tx : Transaction κ} {flow : Work (Scope κ) Published}
    (hphase : t.worker.phase = .dispatching batch k tx flow) (hnone : t.tried = [])
    (htx : tx.Makes L t.world) (hworld : Aside w.endpoint.name world t.world)
    (hflow : flow.Keeps (Scope.Aside w.endpoint.name))
  | done (hidle : t.worker.phase.isBusy = false)
    (hcarried : ∀ a, t.tried = [a] → a.outcome = .committed → t.worker.phase = .ready →
      Carried w.endpoint.name L (Attempt.offsets batch) world t.world)
  | failed {a : Tried κ} (ha : a ∈ t.tried) (hne : a.outcome ≠ .committed)

namespace Worker

variable {w : Worker κ} {now : Nat} {batch : List RawMessage} {k : UInt32} {L : Ledger}
  {world u : World κ} {tx : Transaction κ}

/-- An attempt that ends. -/
theorem closes_underway {t : Trail κ} (htx : tx.Makes L u)
    (hu : Aside w.endpoint.name world u) (v : Option InboundError)
    (hphase : t.worker.phase = (w.resolve now (w.closes batch k tx u v)).1)
    (hworld : t.world = (w.resolve now (w.closes batch k tx u v)).2)
    (htried : t.tried = [w.closes batch k tx u v]) : t.Underway w batch L world := by
  have hfailed : (w.closes batch k tx u v).outcome ≠ .committed → t.Underway w batch L world :=
    fun hne => .failed (htried ▸ List.mem_singleton_self _) hne
  cases v with
  | some e => exact hfailed nofun
  | none =>
    cases hc : tx.commit w.service.wire u with
    | error e u' =>
      rw [closes_undone hc] at hfailed
      exact hfailed nofun
    | ok _ u' =>
      rw [closes_committed hc] at hphase hworld
      dsimp only [resolve, Tried.Outcome.error?] at hphase hworld
      refine .done ?_ fun a ha hcommitted hready => ?_
      · rw [hphase]
        unfold finished
        split <;> rfl
      · cases hk : Attempt.acknowledge w.endpoint batch u' with
        | error e v =>
          rw [hphase, Op.exec_error.mpr (Op.mapError_error.mpr ⟨e, hk, rfl⟩)] at hready
          cases hready
        | ok _ v =>
          rw [hworld, Op.exec_ok.mpr (Op.mapError_ok.mpr hk)]
          exact (Attempt.commit_carried htx hc hk).of_aside hu (Std.Refl.refl _)

end Worker

namespace Trail.Underway

variable {w w' : Worker κ} {now : Nat} {batch : List RawMessage} {L : Ledger}
  {world world' : World κ} {t t' : Trail κ} {a : Option (Tried κ)}

/-- The first step of an attempt that gets through the pipeline. -/
theorem begun {out : List Message} {s : Inbox κ} (hw : w.Alone)
    (hp : Attempt.prepare w.service.pipeline w.endpoint batch ⟨{}, world⟩ = .ok out s)
    (h : (start w batch world).worker.Turn now world w' world' a) :
    Underway w batch s.ledger world ⟨w', world', a.toList⟩ := by
  obtain ⟨htx, hworld⟩ := Attempt.prepare_makes (hw.pipeline ▸ hp)
  cases h with
  | ended h =>
    cases h with
    | refused hb hp' =>
      cases hb
      cases hp.symm.trans hp'
    | nothing hb hp' =>
      cases hb
      cases hp.symm.trans hp'
      exact Worker.closes_underway htx hworld.aside none rfl rfl rfl
    | published hb => cases hb
  | launched hb hp' =>
    cases hb
    cases hp.symm.trans hp'
    exact .publishing rfl rfl htx hworld.aside (hw.publisher _)
  | polled hb => cases hb
  | panicked hb => cases hb
  | stopped hb => cases hb
  | woken hb => cases hb
  | waiting hb => cases hb

/-- A step of the worker in the publish. -/
theorem turn {k : UInt32} {tx : Transaction κ} {flow : Work (Scope κ) Published}
    (hsame : t.Same w)
    (hphase : t.worker.phase = .dispatching batch k tx flow) (hnone : t.tried = [])
    (htx : tx.Makes L t.world) (hworld : Aside w.endpoint.name world t.world)
    (hflow : flow.Keeps (Scope.Aside w.endpoint.name))
    (h : t.worker.Turn now t.world w' world' a) :
    Underway w batch L world ⟨w', world', t.tried ++ a.toList⟩ := by
  -- what a poll leaves is to be committed as before, with another outbox
  obtain ⟨hs, hk⟩ := hflow.poll now ⟨t.world, some tx.outbox⟩
  have hmakes : ∀ {flow' s}, flow.poll now ⟨t.world, some tx.outbox⟩ = (flow', s) →
      Transaction.Makes { tx with outbox := s.outbox.getD [] } L s.world ∧
        Aside w.endpoint.name world s.world := by
    intro flow' s hpoll
    rw [hpoll] at hs
    have hs : Aside w.endpoint.name t.world s.world := hs
    obtain ⟨hx, hshown, hr⟩ := htx.of_aside hs
    exact ⟨⟨⟨hx.log, hx.chunks⟩, hshown, hr⟩, IsTrans.trans _ _ _ hworld hs⟩
  rw [hnone]
  cases h with
  | ended h =>
    cases h with
    | refused hb => cases hphase.symm.trans hb
    | nothing hb => cases hphase.symm.trans hb
    | published hb hpoll =>
      cases hphase.symm.trans hb
      obtain ⟨htx', hworld'⟩ := hmakes hpoll
      rw [Worker.closes_congr hsame.service,
        Worker.resolve_congr hsame.endpoint hsame.settings hsame.service]
      exact Worker.closes_underway htx' hworld' _ rfl rfl rfl
  | launched hb => cases hphase.symm.trans hb
  | polled hb hpoll =>
    cases hphase.symm.trans hb
    obtain ⟨htx', hworld'⟩ := hmakes hpoll
    rw [hpoll] at hk
    exact .publishing rfl rfl htx' hworld' hk
  | panicked => exact .done rfl fun a ha => nomatch (show [] = [a] from ha)
  | stopped hb => cases hphase.symm.trans hb
  | woken hb => cases hphase.symm.trans hb
  | waiting hb => cases hphase.symm.trans hb

/-- Every step keeps it so. -/
theorem step (h : t.Underway w batch L world) (hsame : t.Same w)
    (hs : Trail.Step (Aside w.endpoint.name) t t') : t'.Underway w batch L world := by
  cases h with
  | publishing hphase hnone htx hworld hflow =>
    cases hs with
    | work now hb => exact turn hsame hphase hnone htx hworld hflow (Worker.turn now t.world hb)
    | others hr =>
      exact .publishing hphase hnone (htx.of_aside hr) (IsTrans.trans _ _ _ hworld hr) hflow
    | cancel => exact .publishing hphase hnone htx hworld hflow
    | abandon => exact .publishing hphase hnone htx hworld hflow
  | done hidle hcarried =>
    cases hs with
    | work now hb => rw [hidle] at hb; cases hb
    | others hr =>
      exact .done hidle fun a ha hc hready => (hcarried a ha hc hready).of_aside (Std.Refl.refl _) hr
    | cancel => exact .done hidle hcarried
    | abandon => exact .done hidle hcarried
  | failed ha hne =>
    cases hs with
    | work now => exact .failed (List.mem_append_left _ ha) hne
    | others => exact .failed ha hne
    | cancel => exact .failed ha hne
    | abandon => exact .failed ha hne

/-- So it is in every state that the worker reaches. -/
theorem of_steps {out : List Message} {s : Inbox κ} (hw : w.Alone)
    (hp : Attempt.prepare w.service.pipeline w.endpoint batch ⟨{}, world⟩ = .ok out s)
    (ht : Steps (Aside w.endpoint.name) ((start w batch world).work now) t) :
    t.Same w ∧ t.Underway w batch s.ledger world := by
  induction ht with
  | refl =>
    obtain ⟨he, hset, hv⟩ :=
      (Step.work (R := Aside w.endpoint.name) now (t := start w batch world) rfl).fixed
    exact ⟨⟨he, hset, hv⟩, begun hw hp (Worker.turn now world rfl)⟩
  | tail _ hs ih =>
    obtain ⟨hsame, h⟩ := ih
    obtain ⟨he, hset, hv⟩ := hs.fixed
    exact ⟨⟨he.trans hsame.endpoint, hset.trans hsame.settings, hv.trans hsame.service⟩,
      h.step hsame hs⟩

end Trail.Underway

/-! ## Batches of a stream -/

open Trail (Steps)

namespace Worker

/-- A batch is processed, and no call to a store fails and no handler: if the batch gets through the
pipeline, its first attempt is committed and acknowledged, and if it does not, it is not a store that
has refused a look-up. Handed to the publisher is what has come out of the pipeline. -/
inductive Handles (w : Worker κ) (batch : List RawMessage) (u : World κ) :
    List Message → World κ → Prop
  | committed {out : List Message} {s : Inbox κ} {now : Nat} {t : Trail κ} {a : Tried κ}
    (hp : Attempt.prepare w.service.pipeline w.endpoint batch ⟨{}, u⟩ = .ok out s)
    (ht : Steps (Aside w.endpoint.name) ((Trail.start w batch u).work now) t)
    (ha : t.tried = [a]) (hc : a.outcome = .committed) (hready : t.worker.phase = .ready) :
    Handles w batch u out t.world
  | raised {e : InboundError} {s : Inbox κ} {now : Nat} {t : Trail κ}
    (hp : Attempt.prepare w.service.pipeline w.endpoint batch ⟨{}, u⟩ = .error e s)
    (he : ¬ e.Refused)
    (ht : Steps (Aside w.endpoint.name) ((Trail.start w batch u).work now) t)
    (hidle : t.worker.phase.isBusy = false) : Handles w batch u [] t.world

/-- Batches are processed one after the other, whatever others do before, between and after them that
leaves the stores and the acknowledgements of the consumer alone. -/
inductive Consumes (w : Worker κ) :
    World κ → List (List RawMessage) → List Message → World κ → Prop
  | nil {u v : World κ} (h : Aside w.endpoint.name u v) : Consumes w u [] [] v
  | cons {u u' v v' : World κ} {batch : List RawMessage} {batches : List (List RawMessage)}
    {handed more : List Message} (hu : Aside w.endpoint.name u u')
    (hbatch : w.Handles batch u' handed v) (hrest : Consumes w v batches more v') :
    Consumes w u (batch :: batches) (handed ++ more) v'

variable {w : Worker κ} {u v : World κ} {i t : Inbox κ} {out handed : List Message}

/-- **A batch does over committed stores what it does in one transaction** with those before it. -/
theorem Handles.carried {batch : List RawMessage} (hw : w.Alone) (hm : i.Mirrors ⟨{}, u⟩)
    (hp : Attempt.prepare w.service.pipeline w.endpoint batch i = .ok out t)
    (h : w.Handles batch u handed v) :
    handed = out ∧ Carried w.endpoint.name t.ledger (Attempt.offsets batch) u v := by
  rw [hw.pipeline] at hp
  have hmatch := Attempt.prepare_mirrors hm hp
  cases h with
  | committed hp' ht ha hc hready =>
    obtain ⟨-, hunderway⟩ := Trail.Underway.of_steps hw hp' ht
    rw [← hw.pipeline, hp'] at hmatch
    obtain ⟨rfl, hm'⟩ := hmatch
    have hledger : _ = t.ledger := hm'
    rw [hledger] at hunderway
    refine ⟨rfl, ?_⟩
    cases hunderway with
    | publishing _ hnone => cases hnone.symm.trans ha
    | done _ hcarried => exact hcarried _ ha hc hready
    | failed ha' hne =>
      rw [ha, List.mem_singleton] at ha'
      exact absurd (ha' ▸ hc) hne
  | raised hp' he =>
    rw [← hw.pipeline, hp'] at hmatch
    exact absurd hmatch he

/-- **Batches do what the stream they are cut from does** in one transaction. -/
theorem Consumes.carried {batches : List (List RawMessage)} (hw : w.Alone) (hm : i.Mirrors ⟨{}, u⟩)
    (hp : Attempt.prepare w.service.pipeline w.endpoint batches.flatten i = .ok out t)
    (h : w.Consumes u batches handed v) :
    handed = out ∧ Carried w.endpoint.name t.ledger (Attempt.offsets batches.flatten) u v := by
  induction h generalizing i out with
  | @nil u v h =>
    cases hp
    have hledger : u.ledger = t.ledger := (Transaction.shown_empty u).symm.trans hm
    refine ⟨rfl, (World.ledger_eq h.log h.chunks).trans hledger, fun o => ?_⟩
    rw [h.acknowledged]
    exact ⟨Or.inl, fun ho => ho.resolve_right List.not_mem_nil⟩
  | @cons u u' v v' batch batches _ _ hu hbatch _ ih =>
    obtain ⟨first, rest, j, hfirst, hrest, rfl⟩ := Attempt.prepare_append hp
    have hm' : i.Mirrors ⟨{}, u'⟩ := hm.of_aside hu
    obtain ⟨rfl, hcarried⟩ := hbatch.carried hw hm' hfirst
    have hj : j.Mirrors ⟨{}, v⟩ := (Transaction.shown_empty v).trans hcarried.ledger
    obtain ⟨rfl, hothers⟩ := ih hj hrest
    refine ⟨rfl, hothers.ledger, fun o => ?_⟩
    have hoffsets : Attempt.offsets (batch :: batches).flatten =
        Attempt.offsets batch ++ Attempt.offsets batches.flatten := List.filterMap_append
    rw [hothers.acknowledged, hcarried.acknowledged, hu.acknowledged, hoffsets, List.mem_append,
      or_assoc]

/-- **Batching is transparent.** Where the pipeline raises no error on a stream of messages, and no
call to a store fails and no handler, two consumers that differ in their settings and cut the stream
in two ways hand the same messages to the publisher, in the same order, leave the same entries in the
log and the same chunks in the store, in the same order, and acknowledge the same offsets. -/
theorem batching_transparent {stream : List RawMessage} {world w₁ w₂ : World κ}
    {settings₁ settings₂ : ConsumerSettings} {cut₁ cut₂ : List (List RawMessage)}
    {handed₁ handed₂ : List Message} (hw : w.Alone)
    (hp : Attempt.prepare w.service.pipeline w.endpoint stream ⟨{}, world⟩ = .ok out t)
    (hcut₁ : cut₁.flatten = stream) (hcut₂ : cut₂.flatten = stream)
    (h₁ : Consumes { w with settings := settings₁ } world cut₁ handed₁ w₁)
    (h₂ : Consumes { w with settings := settings₂ } world cut₂ handed₂ w₂) :
    handed₁ = handed₂ ∧ w₁.log.items = w₂.log.items ∧ w₁.chunks.items = w₂.chunks.items ∧
      ∀ o, o ∈ (w₁.transport.topic w.endpoint.name).acknowledged ↔
        o ∈ (w₂.transport.topic w.endpoint.name).acknowledged := by
  have hm : Inbox.Mirrors (⟨{}, world⟩ : Inbox κ) ⟨{}, world⟩ := rfl
  have halone : ∀ settings, Alone { w with settings } := fun _ => ⟨hw.pipeline, hw.publisher⟩
  obtain ⟨rfl, hcarried₁⟩ := h₁.carried (halone _) hm (by rw [hcut₁]; exact hp)
  obtain ⟨rfl, hcarried₂⟩ := h₂.carried (halone _) hm (by rw [hcut₂]; exact hp)
  have hledger : w₁.ledger = w₂.ledger := hcarried₁.ledger.trans hcarried₂.ledger.symm
  refine ⟨rfl, congrArg Ledger.logged hledger, congrArg Ledger.parked hledger, fun o => ?_⟩
  rw [hcut₁] at hcarried₁
  rw [hcut₂] at hcarried₂
  exact (hcarried₁.acknowledged o).trans (hcarried₂.acknowledged o).symm

/-! ### A stream in one batch and in two -/

open Course (emptyWorld noted noted_pipeline noted_keeps)

/-- What two steps make of a batch, the pipeline and the publish of its first attempt. -/
def twoSteps (w : Worker κ) (batch : List RawMessage) (u : World κ) : Trail κ :=
  ((Trail.start w batch u).work 0).work 0

theorem handles_twoSteps {batch : List RawMessage} {ids : List String}
    (hp : ∃ out s, Attempt.prepare w.service.pipeline w.endpoint batch ⟨{}, u⟩ = .ok out s ∧
      envelopeIds out = ids)
    (hbusy : ((Trail.start w batch u).work 0).worker.phase.isBusy = true)
    (hc : (twoSteps w batch u).tried.map Tried.outcome = [.committed])
    (hready : (twoSteps w batch u).worker.phase.isReady = true) :
    ∃ out, w.Handles batch u out (twoSteps w batch u).world ∧ envelopeIds out = ids := by
  obtain ⟨out, s, hp, hids⟩ := hp
  obtain ⟨a, ha, hcommitted⟩ := List.map_eq_singleton_iff.mp hc
  exact ⟨out, .committed hp (.single (.work 0 hbusy)) ha hcommitted (Phase.isReady_iff.mp hready),
    hids⟩

/-- A ping, or a chunk of one. -/
def ping (id : String) (position : Option (String × String)) (payload : Bytes) (offset : String) :
    RawMessage where
  payload
  headers := ⟨[(Headers.messageId, id), (Headers.messageType, "ping")] ++
    match position with
    | none => []
    | some (index, count) => [(Headers.chunkIndex, index), (Headers.chunksCount, count)]⟩
  offset := some offset

/-- A ping and one in two chunks, the last chunk first, with a duplicate of either between them. -/
def pings : List RawMessage :=
  [ping "a" none [0x7B, 0x7D] "0", ping "s" (some ("1", "2")) [0x7D] "1",
    ping "s" (some ("1", "2")) [0x7D] "2", ping "a" none [0x7B, 0x7D] "3",
    ping "s" (some ("0", "2")) [0x7B] "4"]

/-- A consumer of pings. -/
def pinged : Worker Unit where
  endpoint := ⟨"orders", none, []⟩
  settings := {}
  service := noted 0
  stream := ⟨"orders", [], 0, 0, false⟩

theorem pinged_alone : pinged.Alone where
  pipeline := noted_pipeline 0
  publisher := noted_keeps (R := Scope.Aside "orders") (fun _ => ⟨rfl, rfl, rfl⟩) 0

/-- The same consumer with batches of another size. -/
def pingedBy (size : Nat) : Worker Unit := { pinged with settings := { batch := ⟨size, 1000⟩ } }

/-- The world when the first two of the pings were a batch of their own. -/
def pingedTwo : World Unit := (twoSteps (pingedBy 3) (pings.take 2) emptyWorld).world

/-- In one batch the duplicates meet what is pending, in two what is committed. The handler is called
twice either way. -/
theorem batching_transparent_pings :
    ∃ handed₁ handed₂ w₁ w₂,
      (pingedBy 5).Consumes emptyWorld [pings] handed₁ w₁ ∧
      (pingedBy 3).Consumes emptyWorld [pings.take 2, pings.drop 2] handed₂ w₂ ∧
      handed₁ = handed₂ ∧ envelopeIds handed₁ = ["a", "s"] ∧
      w₁.notes.length = 2 ∧ w₂.notes.length = 2 ∧
      w₁.log.items = w₂.log.items ∧ w₁.log.items = [⟨"a", "orders"⟩, ⟨"s", "orders"⟩] ∧
      w₁.chunks.items = w₂.chunks.items ∧
      ∀ o, o ∈ (w₁.transport.topic "orders").acknowledged ↔
        o ∈ (w₂.transport.topic "orders").acknowledged := by
  have hall : ∃ out, (pingedBy 5).Handles pings emptyWorld out
      (twoSteps (pingedBy 5) pings emptyWorld).world ∧ envelopeIds out = ["a", "s"] :=
    handles_twoSteps ⟨_, _, by cbv, by cbv⟩ (by cbv) (by cbv) (by cbv)
  have htwo : ∃ out, (pingedBy 3).Handles (pings.take 2) emptyWorld out pingedTwo ∧
      envelopeIds out = ["a"] :=
    handles_twoSteps ⟨_, _, by cbv, by cbv⟩ (by cbv) (by cbv) (by cbv)
  have hthree : ∃ out, (pingedBy 3).Handles (pings.drop 2) pingedTwo out
      (twoSteps (pingedBy 3) (pings.drop 2) pingedTwo).world ∧ envelopeIds out = ["s"] :=
    handles_twoSteps ⟨_, _, by cbv, by cbv⟩ (by cbv) (by cbv) (by cbv)
  obtain ⟨out, hall, hids⟩ := hall
  obtain ⟨first, htwo, -⟩ := htwo
  obtain ⟨rest, hthree, -⟩ := hthree
  have h₁ : (pingedBy 5).Consumes emptyWorld [pings] (out ++ []) _ :=
    .cons (Std.Refl.refl _) hall (.nil (Std.Refl.refl _))
  have h₂ : (pingedBy 3).Consumes emptyWorld [pings.take 2, pings.drop 2] (first ++ (rest ++ [])) _ :=
    .cons (Std.Refl.refl _) htwo (.cons (Std.Refl.refl _) hthree (.nil (Std.Refl.refl _)))
  have hp : ∃ out s, Attempt.prepare pinged.service.pipeline pinged.endpoint pings
      ⟨{}, emptyWorld⟩ = .ok out s := ⟨_, _, by cbv⟩
  obtain ⟨_, _, hp⟩ := hp
  obtain ⟨hhanded, hlog, hchunks, hacked⟩ :=
    batching_transparent pinged_alone hp rfl rfl h₁ h₂
  refine ⟨_, _, _, _, h₁, h₂, hhanded, ?_, by cbv, by cbv, hlog, by cbv, hchunks, hacked⟩
  rw [List.append_nil]
  exact hids

end Worker

end Relay
