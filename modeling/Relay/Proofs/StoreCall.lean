import Relay.Proofs.Answers
/-!
# Single calls to the stores

What can be looked up stands at a `Place`: whether an entry is in the log, and which chunks of a
message are parked. `World.look` is the answer there. A `StoreCall` is about some places and touches
no others: in a world where no call is made to fail (`Calm`) it changes what stands at its own places
in a way of its own (`op_look`), and it goes through with the same answer wherever these places look
the same (`op_local`).

Calls conflict when they share a place and one of them writes. Others can be made the other way round
(`StoreCall.swap`): the answers are the same, and so is the world left, as far as it can be looked up
(`World.Same`).
-/
namespace Relay

variable {κ : Type}

/-! ## Places -/

/-- What can be looked up. -/
inductive Place
  /-- Whether the entry is in the log. -/
  | entry (e : LogEntry)
  /-- The parked chunks of a message. -/
  | set (id : String)
  deriving DecidableEq

/-- The message that the place is about. -/
def Place.messageId : Place → String
  | .entry e => e.messageId
  | .set id => id

/-- What stands there. -/
def Place.Content : Place → Type
  | .entry _ => Bool
  | .set _ => List Chunk

namespace World

/-- What the stores answer about the place. -/
def look (w : World κ) : (p : Place) → Except StoreError p.Content
  | .entry e => w.log.contains e.messageId e.endpoint
  | .set id => w.chunks.get id

/-- No call to a store is made to fail. -/
def Calm (w : World κ) : Prop := ∀ site, w.Spares site

/-- Two calm worlds that cannot be told apart by look-ups. -/
structure Same (w v : World κ) : Prop where
  calm : w.Calm
  calm' : v.Calm
  look : ∀ p, v.look p = w.look p

namespace Same

variable {w v u : World κ}

theorem refl (h : w.Calm) : Same w w := ⟨h, h, fun _ => rfl⟩

theorem trans (h : Same w v) (h' : Same v u) : Same w u :=
  ⟨h.calm, h'.calm', fun p => (h'.look p).trans (h.look p)⟩

end Same

theorem Alike.look {w v : World κ} (h : Alike w v) (p : Place) : v.look p = w.look p := by
  unfold World.look
  cases p with
  | entry e => dsimp only; rw [h.log]
  | set id => dsimp only; rw [h.chunks]

/-! A write goes through where no call is made to fail and the store answers for its messages. -/

variable {w : World κ}

theorem logAppend_goes {es : List LogEntry} (hs : w.Spares .logAppend)
    (h : ∀ e ∈ es, w.log.Answers e.messageId e.endpoint) : ∃ u, logAppend es w = .ok () u := by
  obtain ⟨log, hlog⟩ := InboundLog.append_answered h
  cases ho : logAppend es w with
  | ok _ u => exact ⟨u, rfl⟩
  | error e u => cases hlog.symm.trans (hs.logAppend ho)

theorem cleanChunks_goes {ids : List String} (hs : w.Spares .chunksCleanup)
    (h : ∀ id ∈ ids, w.chunks.Answers id) : ∃ u, cleanChunks ids w = .ok () u := by
  obtain ⟨chunks, hc, -⟩ := ChunkStore.cleanup_answered h
  cases ho : cleanChunks ids w with
  | ok _ u => exact ⟨u, rfl⟩
  | error e u => cases hc.symm.trans (hs.cleanChunks ho)

theorem storeChunks_goes {cs : List Chunk} (hs : w.Spares .chunksStore)
    (h : ∀ c ∈ cs, w.chunks.Answers c.messageId) : ∃ u, storeChunks cs w = .ok () u := by
  obtain ⟨chunks, hc⟩ := ChunkStore.store_answered h
  cases ho : storeChunks cs w with
  | ok _ u => exact ⟨u, rfl⟩
  | error e u => cases hc.symm.trans (hs.storeChunks ho)

end World

/-! ## Calls -/

/-- A call that inbound processing makes to a store. -/
inductive StoreCall
  /-- Whether the entry is in the log. -/
  | known (e : LogEntry)
  /-- The parked chunks of a message. -/
  | parts (id : String)
  | append (es : List LogEntry)
  | clean (ids : List String)
  | park (cs : List Chunk)

namespace StoreCall

abbrev Answer : StoreCall → Type
  | .known _ => Bool
  | .parts _ => List Chunk
  | .append _ => Unit
  | .clean _ => Unit
  | .park _ => Unit

/-- Makes the call. -/
def op : (c : StoreCall) → Op κ StoreError c.Answer
  | .known e => World.logContains e.messageId e.endpoint
  | .parts id => World.getChunks id
  | .append es => World.logAppend es
  | .clean ids => World.cleanChunks ids
  | .park cs => World.storeChunks cs

/-- What the call is about. -/
def places : StoreCall → List Place
  | .known e => [.entry e]
  | .parts id => [.set id]
  | .append es => es.map .entry
  | .clean ids => ids.map .set
  | .park cs => cs.map fun c => .set c.messageId

def writes : StoreCall → Bool
  | .known _ => false
  | .parts _ => false
  | .append _ => true
  | .clean _ => true
  | .park _ => true

/-- What the call makes of what stands at a place. -/
def change : StoreCall → (p : Place) → p.Content → p.Content
  | .append es, .entry e => fun b => b || es.contains e
  | .clean ids, .set id => fun cs => if ids.contains id then [] else cs
  | .park new, .set id => fun cs => Chunks.store cs (Chunks.ofMessage new id)
  | _, _ => id

/-- The calls share a place, and one of them writes. -/
def Conflicts (c d : StoreCall) : Prop :=
  (c.writes = true ∨ d.writes = true) ∧ ∃ p ∈ c.places, p ∈ d.places

instance (c d : StoreCall) : Decidable (c.Conflicts d) := inferInstanceAs (Decidable (_ ∧ _))

/-- The call is about messages with these ids only. -/
def About (ids : String → Prop) (c : StoreCall) : Prop := ∀ p ∈ c.places, ids p.messageId

variable {c d : StoreCall} {w u v w' : World κ}

/-- Calls about different messages do not conflict. -/
theorem About.apart {ids ids' : String → Prop} (hc : c.About ids) (hd : d.About ids')
    (h : ∀ id, ids id → ¬ ids' id) : ¬ c.Conflicts d := by
  rintro ⟨-, p, hp, hp'⟩
  exact h _ (hc p hp) (hd p hp')

theorem Conflicts.symm (h : c.Conflicts d) : d.Conflicts c := by
  obtain ⟨hw, p, hp, hq⟩ := h
  exact ⟨hw.symm, p, hq, hp⟩

/-- A call changes nothing at a place that it only reads or is not about. -/
theorem change_id {p : Place} (h : c.writes = false ∨ p ∉ c.places) : c.change p = id := by
  cases c with
  | known e => cases p <;> rfl
  | parts id => cases p <;> rfl
  | append es =>
    cases p with
    | set id => rfl
    | entry e =>
      have he : Place.entry e ∉ es.map .entry := h.resolve_left nofun
      have hnew : es.contains e = false := by simpa using he
      funext (b : Bool)
      change (b || es.contains e) = b
      rw [hnew, Bool.or_false]
  | clean ids =>
    cases p with
    | entry e => rfl
    | set id =>
      have hid : Place.set id ∉ ids.map .set := h.resolve_left nofun
      have hnew : ids.contains id = false := by simpa using hid
      funext (cs : List Chunk)
      change (if ids.contains id then [] else cs) = cs
      rw [hnew]
      rfl
  | park new =>
    cases p with
    | entry e => rfl
    | set id =>
      have hid : Place.set id ∉ new.map fun c => .set c.messageId := h.resolve_left nofun
      have hnew : Chunks.ofMessage new id = [] := by
        refine List.filter_eq_nil_iff.mpr fun c hc heq => hid ?_
        exact List.mem_map.mpr ⟨c, hc, by rw [beq_iff_eq.mp heq]⟩
      funext (cs : List Chunk)
      change Chunks.store cs (Chunks.ofMessage new id) = cs
      rw [hnew]
      rfl

/-- Nor does it where a call is about that it does not conflict with. -/
theorem change_beside (h : ¬ c.Conflicts d) {p : Place} (hp : p ∈ d.places) : c.change p = id := by
  by_cases hw : c.writes = true
  · exact change_id (Or.inr fun hc => h ⟨Or.inl hw, p, hc, hp⟩)
  · exact change_id (Or.inl (Bool.eq_false_iff.mpr hw))

/-! ### What a call does -/

theorem op_stores (c : StoreCall) : Within World.Stores (c.op : Op κ StoreError c.Answer) := by
  cases c with
  | known e => exact World.logContains_stores _ _
  | parts id => exact World.getChunks_stores _
  | append es => exact World.logAppend_stores _
  | clean ids => exact World.cleanChunks_stores _
  | park cs => exact World.storeChunks_stores _

theorem op_calm {x : c.Answer} (h : c.op w = .ok x u) (hw : w.Calm) : u.Calm :=
  fun site => (hw site).of_plan ((op_stores c).ok h).plan

/-- **A call changes what stands at its places**, and nothing else. -/
theorem op_look {x : c.Answer} (h : c.op w = .ok x u) (p : Place) :
    u.look p = (w.look p).map (c.change p) := by
  have hsame : c.writes = false → World.Alike w u → u.look p = (w.look p).map (c.change p) := by
    intro hc hu
    rw [hu.look, change_id (Or.inl hc), Except.map_id]
    rfl
  cases c with
  | known e => exact hsame rfl ((World.logContains_alike _ _).ok h)
  | parts id => exact hsame rfl ((World.getChunks_alike _).ok h)
  | append es =>
    obtain ⟨log, hlog, hu⟩ := World.logAppend_ok h
    rw [hu.look]
    cases p with
    | entry e => exact InboundLog.append_contains hlog _ _
    | set id => exact (congrFun Except.map_id _).symm
  | clean ids =>
    obtain ⟨chunks, hc, hu⟩ := World.cleanChunks_ok h
    rw [hu.look]
    cases p with
    | entry e => exact (congrFun Except.map_id _).symm
    | set id => exact ChunkStore.cleanup_get hc _
  | park cs =>
    obtain ⟨chunks, hc, hu⟩ := World.storeChunks_ok h
    rw [hu.look]
    cases p with
    | entry e => exact (congrFun Except.map_id _).symm
    | set id => exact ChunkStore.store_get hc _

/-- **A call goes through** with the same answer wherever its places look the same. -/
theorem op_local {x : c.Answer} (h : c.op w = .ok x u) (hv : v.Calm)
    (hlook : ∀ p ∈ c.places, v.look p = w.look p) : ∃ u', c.op v = .ok x u' := by
  cases c with
  | known e =>
    have hx : v.log.contains e.messageId e.endpoint = .ok x :=
      (hlook _ List.mem_cons_self).trans (World.logContains_ok h)
    cases ho : World.logContains e.messageId e.endpoint v with
    | ok y u' =>
      cases hx.symm.trans (World.logContains_ok ho)
      exact ⟨u', ho⟩
    | error e' u' => cases hx.symm.trans ((hv _).logContains ho)
  | parts id =>
    have hx : v.chunks.get id = .ok x :=
      (hlook _ List.mem_cons_self).trans (World.getChunks_ok h)
    cases ho : World.getChunks id v with
    | ok y u' =>
      cases hx.symm.trans (World.getChunks_ok ho)
      exact ⟨u', ho⟩
    | error e' u' => cases hx.symm.trans ((hv _).getChunks ho)
  | append es =>
    obtain ⟨log, hlog, -⟩ := World.logAppend_ok h
    refine World.logAppend_goes (hv _) fun e he => ?_
    obtain ⟨b, hb⟩ := InboundLog.append_answers hlog e he
    exact ⟨b, (hlook (.entry e) (List.mem_map_of_mem he)).trans hb⟩
  | clean ids =>
    obtain ⟨chunks, hc, -⟩ := World.cleanChunks_ok h
    refine World.cleanChunks_goes (hv _) fun id hid => ?_
    obtain ⟨cs, hcs⟩ := ChunkStore.cleanup_answers hc id hid
    exact ⟨cs, (hlook (.set id) (List.mem_map_of_mem hid)).trans hcs⟩
  | park new =>
    obtain ⟨chunks, hc, -⟩ := World.storeChunks_ok h
    refine World.storeChunks_goes (hv _) fun d hd => ?_
    obtain ⟨cs, hcs⟩ := ChunkStore.store_answers hc d hd
    exact ⟨cs, (hlook (.set d.messageId) (List.mem_map.mpr ⟨d, hd, rfl⟩)).trans hcs⟩

/-- A call makes no difference between worlds that cannot be told apart. -/
theorem op_same {x : c.Answer} (h : c.op w = .ok x u) (hs : World.Same w v) :
    ∃ u', c.op v = .ok x u' ∧ World.Same u u' := by
  obtain ⟨u', hu'⟩ := op_local h hs.calm' fun p _ => hs.look p
  refine ⟨u', hu', op_calm h hs.calm, op_calm hu' hs.calm', fun p => ?_⟩
  rw [op_look hu', op_look h, hs.look]

theorem op_beside {x : c.Answer} (h : c.op w = .ok x u) (hn : ¬ c.Conflicts d) :
    ∀ p ∈ d.places, u.look p = w.look p := by
  intro p hp
  rw [op_look h, change_beside hn hp, Except.map_id]
  rfl

/-- **Calls that do not conflict can be made the other way round.** -/
theorem swap {x : c.Answer} {y : d.Answer} (hc : c.op w = .ok x u) (hd : d.op u = .ok y w')
    (hw : w.Calm) (hn : ¬ c.Conflicts d) :
    ∃ v v', d.op w = .ok y v ∧ c.op v = .ok x v' ∧ World.Same w' v' := by
  have hn' : ¬ d.Conflicts c := fun h => hn h.symm
  have hu := op_calm hc hw
  obtain ⟨v, hdv⟩ := op_local hd hw fun p hp => (op_beside hc hn p hp).symm
  have hv := op_calm hdv hw
  obtain ⟨v', hcv⟩ := op_local hc hv (op_beside hdv hn')
  refine ⟨v, v', hdv, hcv, op_calm hd hu, op_calm hcv hv, fun p => ?_⟩
  rw [op_look hcv, op_look hdv, op_look hd, op_look hc]
  -- one of the two changes nothing there
  by_cases hp : p ∈ d.places
  · rw [change_beside hn hp]
    simp only [Except.map_id, id]
  · rw [change_id (Or.inr hp)]
    simp only [Except.map_id, id]

end StoreCall

end Relay
