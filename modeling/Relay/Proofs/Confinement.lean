import Relay.Proofs.Accounting
/-!
# What calls to the stores and to the transport leave alone

`Stores` says what a call to a store may change of a world, `Sends` what producing may: neither
acknowledges anything, and neither takes a failure out of store that was not used up. A relation
`R` that allows what calls to the stores do is kept by everything an attempt does apart from its
publish and its outbox, provided that the custom stages and the enlisted resources keep it
(`Attempt.prepare_within`, `Transaction.rollback_along`, `Settlement.batch_stores`).
-/
namespace Relay

variable {κ ε α : Type}

namespace World

/-- The offsets of every call that acknowledged messages of a topic, latest first. -/
def calls (name : String) (w : World κ) : List (List String) :=
  w.journal.filterMap fun e =>
    match e with
    | .acknowledged topic offsets => if topic = name then some offsets else none
    | _ => none

/-- What the failure rules are, however often they have been used. -/
def plan (w : World κ) : List (Site × Failure) := w.rules.map fun r => (r.site, r.failure)

/-- What calls to the stores may change. -/
structure Stores (w w' : World κ) : Prop where
  same : w' = { w with
    log := w'.log, chunks := w'.chunks, rules := w'.rules, journal := w'.journal }
  calls : ∀ name, w'.calls name = w.calls name
  plan : w'.plan = w.plan

/-- What producing messages may change. -/
structure Sends (w w' : World κ) : Prop where
  same : w' = { w with
    transport := w'.transport, rules := w'.rules, producers := w'.producers, issued := w'.issued }
  acknowledged : ∀ name,
    (w'.transport.topic name).acknowledged = (w.transport.topic name).acknowledged
  topics : ∀ name, (w.transport.topic? name).isSome → (w'.transport.topic? name).isSome
  plan : w'.plan = w.plan

instance : Std.Refl (Stores (κ := κ)) := ⟨fun _ => ⟨rfl, fun _ => rfl, rfl⟩⟩

instance : IsTrans (World κ) Stores :=
  ⟨fun _ _ _ h h' => ⟨by rw [h'.same, h.same], fun name => (h'.calls name).trans (h.calls name),
    h'.plan.trans h.plan⟩⟩

instance : Std.Refl (Sends (κ := κ)) := ⟨fun _ => ⟨rfl, fun _ => rfl, fun _ h => h, rfl⟩⟩

instance : IsTrans (World κ) Sends :=
  ⟨fun _ _ _ h h' => ⟨by rw [h'.same, h.same],
    fun name => (h'.acknowledged name).trans (h.acknowledged name),
    fun name ht => h'.topics name (h.topics name ht), h'.plan.trans h.plan⟩⟩

theorem Stores.transport {w w' : World κ} (h : Stores w w') : w'.transport = w.transport := by
  rw [h.same]

theorem Sends.log {w w' : World κ} (h : Sends w w') : w'.log = w.log := by rw [h.same]

theorem Sends.chunks {w w' : World κ} (h : Sends w w') : w'.chunks = w.chunks := by rw [h.same]

theorem Sends.calls {w w' : World κ} (h : Sends w w') (name : String) :
    w'.calls name = w.calls name := by
  rw [h.same]
  rfl

/-! ## Failures -/

/-- Deciding a call uses a rule up, but leaves the plan of the rules as it is. -/
theorem strike_plan (site : Site) (key : String) (rs : List Rule) :
    ((strike site key rs).2.map fun r => (r.site, r.failure)) =
      rs.map fun r => (r.site, r.failure) := by
  induction rs with
  | nil => rfl
  | cons r rs ih =>
    unfold strike
    split
    · rfl
    · exact congrArg (List.cons (r.site, r.failure)) ih

theorem decide_stores (site : Site) (key : String) :
    Within Stores (decide site key : Op κ ε Failure) :=
  fun w => ⟨rfl, fun _ => rfl, strike_plan site key w.rules⟩

theorem decide_sends (site : Site) (key : String) :
    Within Sends (decide site key : Op κ ε Failure) :=
  fun w => ⟨rfl, fun _ => rfl, fun _ h => h, strike_plan site key w.rules⟩

theorem guardStore_stores (site : Site) (key : String) :
    Within Stores (guardStore site key : Op κ StoreError Unit) := by
  refine within_bind (decide_stores site key) fun f => ?_
  split
  · exact within_throw _
  · exact within_pure _

theorem guardTransport_sends (site : Site) (key : String) :
    Within Sends (guardTransport site key : Op κ TransportError Unit) := by
  refine within_bind (decide_sends site key) fun f => ?_
  split
  · exact within_throw _
  · exact within_pure _

/-! ## Calls to the stores -/

theorem logContains_stores (id endpoint : String) :
    Within Stores (logContains id endpoint : Op κ StoreError Bool) :=
  within_bind (guardStore_stores _ _) fun _ => within_bind within_get fun _ => Op.within_ofExcept _

theorem getChunks_stores (id : String) :
    Within Stores (getChunks id : Op κ StoreError (List Chunk)) :=
  within_bind (guardStore_stores _ _) fun _ => within_bind within_get fun _ => Op.within_ofExcept _

theorem logAppend_stores (es : List LogEntry) :
    Within Stores (logAppend es : Op κ StoreError Unit) :=
  within_bind (guardStore_stores _ _) fun _ =>
    within_bind (fun _ => ⟨rfl, fun _ => rfl, rfl⟩ : Within Stores (record (.appended es))) fun _ =>
      within_bind within_get fun _ => within_bind (Op.within_ofExcept _) fun _ =>
        within_modify fun _ => ⟨rfl, fun _ => rfl, rfl⟩

theorem storeChunks_stores (cs : List Chunk) :
    Within Stores (storeChunks cs : Op κ StoreError Unit) :=
  within_bind (guardStore_stores _ _) fun _ => within_bind within_get fun _ =>
    within_bind (Op.within_ofExcept _) fun _ => within_modify fun _ => ⟨rfl, fun _ => rfl, rfl⟩

theorem cleanChunks_stores (ids : List String) :
    Within Stores (cleanChunks ids : Op κ StoreError Unit) :=
  within_bind (guardStore_stores _ _) fun _ =>
    within_bind (fun _ => ⟨rfl, fun _ => rfl, rfl⟩ : Within Stores (record (.cleaned ids))) fun _ =>
      within_bind within_get fun _ => within_bind (Op.within_ofExcept _) fun _ =>
        within_modify fun _ => ⟨rfl, fun _ => rfl, rfl⟩

/-! ## Producing -/

end World

namespace Transport

theorem topic?_setTopic (t : Transport) (name other : String) (v : Topic) :
    (t.setTopic name v).topic? other = if name = other then some v else t.topic? other :=
  topic?_putTopic name other v t.topics

theorem produce_topic? {t t' : Transport} {name : String} {payload : Bytes} {h : Headers}
    (hp : t.produce name payload h = .ok t') (other : String) (ht : (t.topic? other).isSome) :
    (t'.topic? other).isSome := by
  unfold produce at hp
  split at hp
  · cases hp
  · cases hp
    change ((t.setTopic name _).topic? other).isSome
    rw [topic?_setTopic]
    split
    · rfl
    · exact ht

/-- Producing to a topic leaves the messages of the others alone. -/
theorem produce_elsewhere {t t' : Transport} {name : String} {payload : Bytes} {h : Headers}
    (hp : t.produce name payload h = .ok t') {other : String} (hn : name ≠ other) :
    t'.produced other = t.produced other := by
  unfold produce at hp
  split at hp
  · cases hp
  · cases hp
    change ((t.setTopic name _).topic other).log = _
    rw [topic_setTopic, if_neg hn]
    rfl

end Transport

namespace World

theorem produce_sends (endpoint : Endpoint) (payload : Bytes) (h : Headers) :
    Within Sends (produce endpoint payload h : Op κ TransportError Unit) :=
  produce_within (guardTransport_sends _ _) fun _ _ hp =>
    ⟨rfl, Transport.produce_acknowledged hp, Transport.produce_topic? hp, rfl⟩

theorem useProducer_sends (broker : Nat) (endpoint : Endpoint) :
    Within Sends (useProducer broker endpoint : Op κ ε Unit) := by
  refine within_modify fun w => ?_
  split <;> exact ⟨rfl, fun _ => rfl, fun _ h => h, rfl⟩

theorem posts_sends (endpoint : Endpoint) : Posts (Sends (κ := κ)) endpoint :=
  ⟨fun _ => ⟨rfl, fun _ => rfl, fun _ h => h, rfl⟩, produce_sends endpoint⟩

end World

open World (Stores Sends)

theorem flush_sends (wire : Wire) (os : List Outgoing) :
    Within Sends (flush wire os : Op κ StoreError Unit) :=
  World.Posts.flush wire fun o _ => World.posts_sends o.endpoint

theorem Settlement.move_sends (source target : Endpoint) (failed : UInt32)
    (ms : List RawMessage) :
    Within Sends (Settlement.move source target failed ms : Op κ TransportError Unit) :=
  (World.posts_sends target).move source failed ms

/-! ## Sessions -/

theorem LogSession.contains_stores (s : LogSession) (id endpoint : String) :
    Within Stores (s.contains id endpoint : Op κ StoreError Bool) := by
  unfold contains
  split
  · exact within_pure _
  · exact World.logContains_stores _ _

theorem LogSession.commit_stores (s : LogSession) :
    Within Stores (s.commit : Op κ StoreError LogSession) := by
  unfold commit
  split
  · exact within_pure _
  · exact within_bind (World.logAppend_stores _) fun _ => within_pure _

namespace ChunkSession

theorem get_stores (s : ChunkSession) (id : String) :
    Within Stores (s.get id : Op κ StoreError (List Chunk)) := by
  rw [get_eq]
  refine within_bind ?_ fun _ => within_pure _
  split
  · exact within_pure _
  · exact World.getChunks_stores _

theorem aggregate_stores (s : ChunkSession) (id : String) (headers : Headers) (payload : Bytes) :
    Within Stores (s.aggregate id headers payload : Op κ ChunkError _) := by
  refine within_bind (Op.within_ofExcept _) fun position => ?_
  cases position with
  | none => exact within_throw _
  | some h =>
    refine within_bind (Op.within_mapError (get_stores s id)) fun existing => ?_
    split <;> exact within_pure _

theorem commit_stores (s : ChunkSession) :
    Within Stores (s.commit : Op κ StoreError ChunkSession) := by
  rw [commit_eq]
  refine within_bind ?_ fun _ => within_bind ?_ fun _ => within_pure _
  · split
    · exact within_pure _
    · exact World.cleanChunks_stores _
  · split
    · exact within_pure _
    · exact World.storeChunks_stores _

end ChunkSession

theorem within_discard {R : World κ → World κ → Prop} {o : Op κ ε α} (h : Within R o) :
    Within R (Functor.discard o : Op κ ε Unit) :=
  within_intro (fun _ _ _ hd => (discard_ok.mp hd).elim fun _ ho => h.ok ho)
    fun _ _ _ hd => h.error (discard_error.mp hd)

/-! ## Transactions -/

/-- The resource moves the world along `R`. -/
def Resource.Along (R : World κ → World κ → Prop) (r : Resource κ) : Prop :=
  Within R r.commit ∧ Within R r.rollback

/-- All enlisted resources move the world along `R`. -/
def Transaction.Along (R : World κ → World κ → Prop) (tx : Transaction κ) : Prop :=
  ∀ r ∈ tx.resources, r.Along R

/-- Rolling back what is enlisted moves the world along `R`. -/
def Transaction.Reverts (R : World κ → World κ → Prop) (tx : Transaction κ) : Prop :=
  ∀ r ∈ tx.resources, Within R r.rollback

theorem Transaction.along_empty {R : World κ → World κ → Prop} : Along R ({} : Transaction κ) :=
  fun _ hr => by cases hr

section
variable {R : World κ → World κ → Prop} [Std.Refl R] [IsTrans (World κ) R] {wire : Wire}
  {tx : Transaction κ}

namespace Transaction

theorem rollback_reverts (h : tx.Reverts R) : Within R (tx.rollback wire) := by
  refine Resource.rollbackAll_within fun r hr => ?_
  rcases List.mem_append.mp hr with hr | hr
  · simp only [List.mem_cons, List.not_mem_nil, or_false] at hr
    rcases hr with rfl | rfl | rfl <;> exact within_pure ()
  · exact h r hr

theorem rollback_along (h : tx.Along R) : Within R (tx.rollback wire) :=
  rollback_reverts fun r hr => (h r hr).2

/-- The participants behind the outbox. -/
def storing (tx : Transaction κ) : List (Resource κ) :=
  [⟨discard tx.log.commit, pure ()⟩, ⟨discard tx.chunks.commit, pure ()⟩] ++ tx.resources

omit [IsTrans (World κ) R] in
theorem storing_along (hR : ∀ w w', Stores w w' → R w w') (h : tx.Along R) :
    ∀ r ∈ tx.storing, r.Along R := by
  intro r hr
  rcases List.mem_append.mp hr with hr | hr
  · simp only [List.mem_cons, List.not_mem_nil, or_false] at hr
    rcases hr with rfl | rfl
    · exact ⟨within_discard ((LogSession.commit_stores _).mono hR), within_pure ()⟩
    · exact ⟨within_discard ((ChunkSession.commit_stores _).mono hR), within_pure ()⟩
  · exact h r hr

/-- The commit of a transaction whose outbox is produced along `R`. -/
theorem commit_along (hR : ∀ w w', Stores w w' → R w w')
    (hflush : Within R (flush wire tx.outbox : Op κ StoreError Unit)) (h : tx.Along R) :
    Within R (tx.commit wire) := by
  refine Resource.commitAll_within fun r hr => ?_
  rcases List.mem_cons.mp hr with rfl | hr
  · exact ⟨hflush, within_pure ()⟩
  · exact storing_along hR h r hr

end Transaction

end

/-! ## Inbound processing -/

/-- The calls that the built-in stages make are along `T`. -/
structure Inbox.Allows (T : Inbox κ → Inbox κ → Prop) : Prop where
  contains : ∀ id endpoint, Within T (Inbound.logContains id endpoint : Inbound κ Bool)
  aggregate : ∀ raw, Within T (Inbound.aggregate raw : Inbound κ (Option Bytes))
  add : ∀ id endpoint, Within T (Inbound.logAdd id endpoint : Inbound κ Unit)

/-- A stage that is along `T` if the rest of the chain is. -/
def Stage.Preserves (T : Inbox κ → Inbox κ → Prop) (st : Stage κ) : Prop :=
  ∀ next : Passing κ, (∀ p, Within T (next p)) → ∀ p, Within T (st.handle next p)

section
variable {T : Inbox κ → Inbox κ → Prop} [Std.Refl T]

theorem Inbound.within_ofExcept (f : ε → InboundError) (r : Except ε α) :
    Within T (ofExcept f r : Inbound κ α) := by
  cases r with
  | ok a => exact within_pure a
  | error e => exact within_throw _

theorem Pipeline.run_within {ss : List (Stage κ)} (h : ∀ st ∈ ss, st.Preserves T) (p : Passage) :
    Within T (run ss p) := by
  induction ss generalizing p with
  | nil => exact within_pure _
  | cons st ss ih =>
    have hrest : ∀ q, Within T (run ss q) := ih fun x hx => h x (List.mem_cons_of_mem _ hx)
    exact h st List.mem_cons_self (run ss) hrest p

variable [IsTrans (Inbox κ) T]

namespace Stage

theorem chunkAggregation_preserves (hT : Inbox.Allows T) :
    Preserves T (chunkAggregation : Stage κ) := by
  intro next hnext p
  refine within_bind (Inbound.within_ofExcept _ _) fun position => ?_
  cases position with
  | none => exact hnext p
  | some position =>
    refine within_bind (hT.contains _ _) fun known => ?_
    cases known with
    | true => exact within_pure p
    | false =>
      refine within_bind (hT.aggregate _) fun joined => ?_
      cases joined with
      | none => exact within_pure p
      | some payload => exact hnext _

theorem deduplication_preserves (hT : Inbox.Allows T) :
    Preserves T (deduplication : Stage κ) := by
  intro next hnext p
  refine within_bind (hT.contains _ _) fun known => ?_
  cases known with
  | true => exact within_pure p
  | false => exact within_bind (hT.add _ _) fun _ => hnext p

theorem decryption_preserves (c : Cipher) : Preserves T (decryption c : Stage κ) :=
  fun _ hnext _ => within_bind (Inbound.within_ofExcept _ _) fun _ => hnext _

theorem deserialization_preserves (r : Registry) : Preserves T (deserialization r : Stage κ) := by
  intro next hnext p
  unfold deserialization
  dsimp only
  split
  · exact hnext p
  · exact within_bind (Inbound.within_ofExcept _ _) fun _ => hnext _

end Stage

/-- The stages of a pipeline are along what its custom ones are along. -/
theorem Pipeline.create_preserves (hT : Inbox.Allows T) (wire : Wire) {custom : List (Stage κ)}
    (h : ∀ st ∈ custom, st.Preserves T) : ∀ st ∈ (create wire custom).stages, st.Preserves T := by
  have hperm : (create wire custom).stages.Perm (builtIn wire ++ custom) := List.mergeSort_perm _ _
  intro st hst
  rcases List.mem_append.mp (hperm.mem_iff.mp hst) with hst | hst
  · rcases mem_builtIn.mp hst with rfl | rfl | ⟨c, -, rfl⟩ | rfl
    · exact Stage.chunkAggregation_preserves hT
    · exact Stage.deduplication_preserves hT
    · exact Stage.decryption_preserves c
    · exact Stage.deserialization_preserves _
  · exact h st hst

/-- **What the messages of a batch do on their way through the pipeline** is along what its stages
are along. -/
theorem Attempt.prepare_within {p : Pipeline κ} (h : ∀ st ∈ p.stages, st.Preserves T)
    (endpoint : Endpoint) (ms : List RawMessage) : Within T (prepare p endpoint ms) := by
  induction ms with
  | nil => exact within_pure _
  | cons m ms ih =>
    refine within_bind (Inbound.within_ofExcept _ _) fun raw => within_bind ?_ fun _ =>
      within_bind ih fun _ => within_pure _
    exact within_bind (Pipeline.run_within h _) fun _ => within_pure _

namespace Settlement

theorem one_within (hT : Inbox.Allows T) (endpoint : Endpoint) (m : RawMessage) :
    Within T (one endpoint m : Inbound κ (Option RawMessage)) := by
  unfold one
  split
  · exact within_pure _
  · refine within_bind (hT.contains _ _) fun known => ?_
    cases known with
    | true => exact within_pure _
    | false =>
      refine within_bind ?_ fun joined => ?_
      · unfold joinedOf
        split
        · refine within_bind (hT.aggregate _) fun payload => ?_
          cases payload <;> exact within_pure _
        · exact within_pure _
      · cases joined with
        | none => exact within_pure _
        | some settled => exact within_bind (hT.add _ _) fun _ => within_pure _

theorem many_within (hT : Inbox.Allows T) (endpoint : Endpoint) (ms : List RawMessage) :
    Within T (many endpoint ms : Inbound κ (List RawMessage)) := by
  induction ms with
  | nil => exact within_pure _
  | cons m ms ih =>
    exact within_bind (one_within hT endpoint m) fun _ => within_bind ih fun _ => within_pure _

end Settlement

end

/-! ## Worlds and resources -/

/-- The world has moved along `R`, and so do the resources enlisted since. -/
structure Inbox.Along (R : World κ → World κ → Prop) (s t : Inbox κ) : Prop where
  world : R s.world t.world
  resources : s.transaction.Along R → t.transaction.Along R

section
variable {R : World κ → World κ → Prop}

/-- A stage that moves the world along `R` if the rest of the chain does. -/
def Stage.Keeps (R : World κ → World κ → Prop) (st : Stage κ) : Prop :=
  st.Preserves (Inbox.Along R)

instance [Std.Refl R] : Std.Refl (Inbox.Along R) := ⟨fun s => ⟨Std.Refl.refl s.world, id⟩⟩

instance [IsTrans (World κ) R] : IsTrans (Inbox κ) (Inbox.Along R) :=
  ⟨fun _ _ _ h h' => ⟨IsTrans.trans _ _ _ h.world h'.world, fun ht => h'.resources (h.resources ht)⟩⟩

theorem Inbound.onWorld_along {f : ε → InboundError} {o : Op κ ε α} (h : Within R o) :
    Within (Inbox.Along R) (onWorld f o) :=
  Inbound.onWorld_within h fun _ _ _ hw => ⟨hw, id⟩

variable [Std.Refl R] [IsTrans (World κ) R]

/-- A relation that allows calls to the stores allows the built-in stages. -/
theorem Inbox.Allows.of_stores (hR : ∀ w w' : World κ, Stores w w' → R w w') :
    Inbox.Allows (Inbox.Along R) where
  contains _ _ := within_bind within_get fun s =>
    Inbound.onWorld_along ((s.transaction.log.contains_stores _ _).mono hR)
  aggregate _ := within_bind within_get fun s =>
    within_bind (Inbound.onWorld_along ((s.transaction.chunks.aggregate_stores _ _ _).mono hR))
      fun _ => within_bind (within_modify fun t => ⟨Std.Refl.refl t.world, id⟩) fun _ => within_pure _
  add _ _ := within_modify fun t => ⟨Std.Refl.refl t.world, fun h => h⟩

/-- The world has moved along `R`, and so does rolling back what was enlisted since. -/
structure Inbox.Reverts (R : World κ → World κ → Prop) (s t : Inbox κ) : Prop where
  world : R s.world t.world
  resources : s.transaction.Reverts R → t.transaction.Reverts R

instance : Std.Refl (Inbox.Reverts R) := ⟨fun s => ⟨Std.Refl.refl s.world, id⟩⟩

instance : IsTrans (Inbox κ) (Inbox.Reverts R) :=
  ⟨fun _ _ _ h h' => ⟨IsTrans.trans _ _ _ h.world h'.world, fun ht => h'.resources (h.resources ht)⟩⟩

/-- The built-in stages write nothing to the stores. -/
theorem Inbox.Allows.of_alike (hR : ∀ w w' : World κ, World.Alike w w' → R w w') :
    Inbox.Allows (Inbox.Reverts R) where
  contains _ _ := within_bind within_get fun s =>
    Inbound.onWorld_within ((s.transaction.log.contains_alike _ _).mono hR) fun _ _ _ hw => ⟨hw, id⟩
  aggregate _ := within_bind within_get fun s =>
    within_bind (Inbound.onWorld_within ((s.transaction.chunks.aggregate_alike _ _ _).mono hR)
      fun _ _ _ hw => ⟨hw, id⟩) fun _ =>
        within_bind (within_modify fun t => ⟨Std.Refl.refl t.world, id⟩) fun _ => within_pure _
  add _ _ := within_modify fun t => ⟨Std.Refl.refl t.world, fun h => h⟩

omit [IsTrans (World κ) R] in
/-- Acknowledging messages is one call, or none if they have no offsets. -/
theorem Attempt.acknowledge_within {endpoint : Endpoint}
    (h : ∀ offsets, Within R (World.acknowledge endpoint offsets : Op κ TransportError Unit))
    (ms : List RawMessage) : Within R (acknowledge endpoint ms : Op κ TransportError Unit) := by
  unfold acknowledge
  split
  · exact within_pure ()
  · exact h _

end

namespace Settlement

/-- Settling is along what the look-ups of the built-in stages are along. -/
theorem batch_along {R : World κ → World κ → Prop} [Std.Refl R] [IsTrans (World κ) R]
    (hR : Inbox.Allows (Inbox.Along R)) (wire : Wire) (endpoint : Endpoint)
    (ms : List RawMessage) : Within R (batch wire endpoint ms : Op κ InboundError _) := by
  intro w
  have hmany : Inbox.Along R ⟨{}, w⟩ (endState (many endpoint ms) ⟨{}, w⟩) :=
    many_within hR endpoint ms ⟨{}, w⟩
  unfold endState at hmany ⊢
  unfold batch
  cases hm : many endpoint ms ⟨{}, w⟩ with
  | ok settled t =>
    rw [hm] at hmany
    exact hmany.world
  | error e t =>
    rw [hm] at hmany
    dsimp only
    rw [Op.exec_world]
    exact IsTrans.trans _ _ _ hmany.world
      (Transaction.rollback_along (hmany.resources Transaction.along_empty) t.world)

/-- Settling makes calls to the stores only. -/
theorem batch_stores (wire : Wire) (endpoint : Endpoint) (ms : List RawMessage) :
    Within Stores (batch wire endpoint ms : Op κ InboundError _) :=
  batch_along (.of_stores fun _ _ h => h) wire endpoint ms

end Settlement

end Relay
