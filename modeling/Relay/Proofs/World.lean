import Relay.Proofs.Effects
/-!
# What the operations on the world do

`Alike` worlds differ at most in the failures in store and in the journal: a look-up leaves a
world like the one it was made in, and so does a write that fails. A write that succeeds changes
the one store it is made to. `Aside name` worlds have the same stores, and the same messages of
the topic `name` are acknowledged in them: so do producing and everything else that is neither a
write to a store nor an acknowledgement on that topic.
-/
namespace Relay

variable {κ ε : Type}

namespace World

/-- No rule for a failure is used up by a call: a call that is made again is decided as before. -/
def Steady (w : World κ) : Prop := ∀ site key, (strike site key w.rules).2 = w.rules

/-- Two worlds that differ at most in the failures in store, if these can be used up, and in the
journal. -/
structure Alike (w w' : World κ) : Prop where
  same : w' = { w with rules := w'.rules, journal := w'.journal }
  lasting : w.Steady → w'.rules = w.rules

instance : Std.Refl (Alike (κ := κ)) := ⟨fun _ => ⟨rfl, fun _ => rfl⟩⟩

namespace Alike

variable {w w' w'' : World κ}

theorem log (h : Alike w w') : w'.log = w.log := by rw [h.same]

theorem chunks (h : Alike w w') : w'.chunks = w.chunks := by rw [h.same]

theorem transport (h : Alike w w') : w'.transport = w.transport := by rw [h.same]

theorem steady (h : Alike w w') (hs : w.Steady) : w'.Steady := by
  unfold Steady at *
  rw [h.lasting hs]
  exact hs

theorem trans (h : Alike w w') (h' : Alike w' w'') : Alike w w'' where
  same := by rw [h'.same, h.same]
  lasting hs := (h'.lasting (h.steady hs)).trans (h.lasting hs)

/-- Where the log is replaced first. -/
theorem withLog (h : Alike w w') (log : InboundLog) : Alike { w with log } { w' with log } where
  same := by rw [h.same]
  lasting := h.lasting

/-- Where the chunk store is replaced first. -/
theorem withChunks (h : Alike w w') (chunks : ChunkStore) :
    Alike { w with chunks } { w' with chunks } where
  same := by rw [h.same]
  lasting := h.lasting

end Alike

instance : IsTrans (World κ) Alike := ⟨fun _ _ _ h h' => h.trans h'⟩

/-! ## Failures -/

theorem decide_alike (site : Site) (key : String) :
    Within Alike (decide site key : Op κ ε Failure) := fun _ => ⟨rfl, fun hs => hs site key⟩

theorem record_alike (e : Entry κ) : Within Alike (record e : Op κ ε Unit) :=
  fun _ => ⟨rfl, fun _ => rfl⟩

theorem guardStore_alike (site : Site) (key : String) :
    Within Alike (guardStore site key : Op κ StoreError Unit) := by
  refine within_bind (decide_alike site key) fun f => ?_
  split
  · exact within_throw _
  · exact within_pure _

theorem guardTransport_alike (site : Site) (key : String) :
    Within Alike (guardTransport site key : Op κ TransportError Unit) := by
  refine within_bind (decide_alike site key) fun f => ?_
  split
  · exact within_throw _
  · exact within_pure _

/-! ## Look-ups -/

theorem logContains_alike (id endpoint : String) :
    Within Alike (logContains id endpoint : Op κ StoreError Bool) :=
  within_bind (guardStore_alike _ _) fun _ => within_bind within_get fun _ => Op.within_ofExcept _

theorem logContains_ok {id endpoint : String} {b : Bool} {w w' : World κ}
    (h : logContains id endpoint w = .ok b w') : w.log.contains id endpoint = .ok b := by
  obtain ⟨_, u, hg, hl⟩ := bind_ok h
  rw [bind_get] at hl
  rw [← ((guardStore_alike _ _).ok hg).log]
  exact (Op.ofExcept_ok.mp hl).1

theorem getChunks_alike (id : String) :
    Within Alike (getChunks id : Op κ StoreError (List Chunk)) :=
  within_bind (guardStore_alike _ _) fun _ => within_bind within_get fun _ => Op.within_ofExcept _

theorem getChunks_ok {id : String} {cs : List Chunk} {w w' : World κ}
    (h : getChunks id w = .ok cs w') : w.chunks.get id = .ok cs := by
  obtain ⟨_, u, hg, hc⟩ := bind_ok h
  rw [bind_get] at hc
  rw [← ((guardStore_alike _ _).ok hg).chunks]
  exact (Op.ofExcept_ok.mp hc).1

/-! ## Writes -/

theorem logAppend_ok {es : List LogEntry} {w w' : World κ} (h : logAppend es w = .ok () w') :
    ∃ log, w.log.append es = .ok log ∧ Alike { w with log } w' := by
  obtain ⟨_, u, hg, h1⟩ := bind_ok h
  obtain ⟨_, v, hr, h2⟩ := bind_ok h1
  have hw : Alike w v := ((guardStore_alike _ _).ok hg).trans ((record_alike _).ok hr)
  rw [bind_get] at h2
  obtain ⟨log, _, hl, h3⟩ := bind_ok h2
  obtain ⟨hl, rfl⟩ := Op.ofExcept_ok.mp hl
  cases h3
  exact ⟨log, by rw [← hw.log]; exact hl, hw.withLog log⟩

theorem logAppend_error {es : List LogEntry} {e : StoreError} {w w' : World κ}
    (h : logAppend es w = .error e w') : Alike w w' := by
  rcases bind_error h with hg | ⟨_, u, hg, h1⟩
  · exact (guardStore_alike _ _).error hg
  rcases bind_error h1 with hr | ⟨_, v, hr, h2⟩
  · cases hr
  have hw : Alike w v := ((guardStore_alike _ _).ok hg).trans ((record_alike _).ok hr)
  rw [bind_get] at h2
  rcases bind_error h2 with hl | ⟨log, _, _, h3⟩
  · rw [(Op.ofExcept_error.mp hl).2]
    exact hw
  · cases h3

theorem storeChunks_ok {cs : List Chunk} {w w' : World κ} (h : storeChunks cs w = .ok () w') :
    ∃ chunks, w.chunks.store cs = .ok chunks ∧ Alike { w with chunks } w' := by
  obtain ⟨_, u, hg, h1⟩ := bind_ok h
  have hw : Alike w u := (guardStore_alike _ _).ok hg
  rw [bind_get] at h1
  obtain ⟨chunks, _, hc, h2⟩ := bind_ok h1
  obtain ⟨hc, rfl⟩ := Op.ofExcept_ok.mp hc
  cases h2
  exact ⟨chunks, by rw [← hw.chunks]; exact hc, hw.withChunks chunks⟩

theorem storeChunks_error {cs : List Chunk} {e : StoreError} {w w' : World κ}
    (h : storeChunks cs w = .error e w') : Alike w w' := by
  rcases bind_error h with hg | ⟨_, u, hg, h1⟩
  · exact (guardStore_alike _ _).error hg
  rw [bind_get] at h1
  rcases bind_error h1 with hc | ⟨chunks, _, _, h2⟩
  · rw [(Op.ofExcept_error.mp hc).2]
    exact (guardStore_alike _ _).ok hg
  · cases h2

theorem cleanChunks_ok {ids : List String} {w w' : World κ} (h : cleanChunks ids w = .ok () w') :
    ∃ chunks, w.chunks.cleanup ids = .ok chunks ∧ Alike { w with chunks } w' := by
  obtain ⟨_, u, hg, h1⟩ := bind_ok h
  obtain ⟨_, v, hr, h2⟩ := bind_ok h1
  have hw : Alike w v := ((guardStore_alike _ _).ok hg).trans ((record_alike _).ok hr)
  rw [bind_get] at h2
  obtain ⟨chunks, _, hc, h3⟩ := bind_ok h2
  obtain ⟨hc, rfl⟩ := Op.ofExcept_ok.mp hc
  cases h3
  exact ⟨chunks, by rw [← hw.chunks]; exact hc, hw.withChunks chunks⟩

theorem cleanChunks_error {ids : List String} {e : StoreError} {w w' : World κ}
    (h : cleanChunks ids w = .error e w') : Alike w w' := by
  rcases bind_error h with hg | ⟨_, u, hg, h1⟩
  · exact (guardStore_alike _ _).error hg
  rcases bind_error h1 with hr | ⟨_, v, hr, h2⟩
  · cases hr
  have hw : Alike w v := ((guardStore_alike _ _).ok hg).trans ((record_alike _).ok hr)
  rw [bind_get] at h2
  rcases bind_error h2 with hc | ⟨chunks, _, _, h3⟩
  · rw [(Op.ofExcept_error.mp hc).2]
    exact hw
  · cases h3

/-! ## The transport -/

end World

namespace Transport

theorem topic?_putTopic (name other : String) (v : Topic) (ts : List (String × Topic)) :
    ((putTopic name v ts).find? fun e => e.1 == other).map Prod.snd =
      if name = other then some v else (ts.find? fun e => e.1 == other).map Prod.snd := by
  induction ts with
  | nil =>
    unfold putTopic
    rw [List.find?_cons]
    by_cases h : name = other
    · simp [h]
    · simp [beq_false_of_ne h, h]
  | cons e ts ih =>
    unfold putTopic
    by_cases he : e.1 = name
    · rw [if_pos (by simp [he]), List.find?_cons, List.find?_cons, he]
      by_cases h : name = other
      · simp [h]
      · simp [beq_false_of_ne h, h]
    · rw [if_neg (by simp [he]), List.find?_cons, List.find?_cons]
      by_cases h : e.1 = other
      · have hn : name ≠ other := fun hn => he (h.trans hn.symm)
        simp [h, hn]
      · have hb : (e.1 == other) = false := by simp [h]
        rw [hb]
        exact ih

theorem topic_setTopic (t : Transport) (name other : String) (v : Topic) :
    (t.setTopic name v).topic other = if name = other then v else t.topic other := by
  unfold topic topic? setTopic
  rw [topic?_putTopic]
  split <;> rfl

theorem produce_acknowledged {t t' : Transport} {name : String} {payload : Bytes} {h : Headers}
    (hp : t.produce name payload h = .ok t') (other : String) :
    (t'.topic other).acknowledged = (t.topic other).acknowledged := by
  unfold produce at hp
  split at hp
  · cases hp
  · cases hp
    change ((t.setTopic name _).topic other).acknowledged = _
    rw [topic_setTopic]
    split
    · next h => rw [← h]; rfl
    · rfl

theorem acknowledge_acknowledged {t t' : Transport} {name : String} {offsets : List String}
    (ha : t.acknowledge name offsets = .ok t') (o : String) :
    o ∈ (t'.topic name).acknowledged ↔ o ∈ (t.topic name).acknowledged ∨ o ∈ offsets := by
  unfold acknowledge at ha
  cases hv : t.topic? name with
  | none => rw [hv] at ha; cases ha
  | some v =>
    rw [hv] at ha
    cases ha
    have ht : t.topic name = v := by rw [topic, hv]; rfl
    rw [topic_setTopic, if_pos rfl, ht]
    unfold Topic.acknowledge
    by_cases ho : o ∈ v.acknowledged <;> simp [ho]

end Transport

namespace World

/-- Two worlds with the same stores in which the same messages of a topic are acknowledged. -/
structure Aside (name : String) (w w' : World κ) : Prop where
  log : w'.log = w.log
  chunks : w'.chunks = w.chunks
  acknowledged : (w'.transport.topic name).acknowledged = (w.transport.topic name).acknowledged

variable {name : String}

instance : Std.Refl (Aside (κ := κ) name) := ⟨fun _ => ⟨rfl, rfl, rfl⟩⟩

instance : IsTrans (World κ) (Aside name) :=
  ⟨fun _ _ _ h h' => ⟨h'.log.trans h.log, h'.chunks.trans h.chunks,
    h'.acknowledged.trans h.acknowledged⟩⟩

theorem Alike.aside {w w' : World κ} (h : Alike w w') : Aside name w w' :=
  ⟨h.log, h.chunks, by rw [h.transport]⟩

/-- Producing moves the world along `R` if its guard does and what the transport makes of a message
does. -/
theorem produce_within {R : World κ → World κ → Prop} [Std.Refl R] [IsTrans (World κ) R]
    {endpoint : Endpoint} {payload : Bytes} {h : Headers}
    (hguard : Within R (guardTransport .produce endpoint.name : Op κ TransportError Unit))
    (hproduce : ∀ (w : World κ) (t : Transport),
      w.transport.produce endpoint.name payload h = .ok t → R w { w with transport := t }) :
    Within R (produce endpoint payload h : Op κ TransportError Unit) := by
  refine within_bind hguard fun _ => ?_
  intro w
  change R w (endState (Op.ofExcept (w.transport.produce endpoint.name payload h) >>= _) w)
  cases hp : w.transport.produce endpoint.name payload h with
  | error e => exact Std.Refl.refl w
  | ok t => exact hproduce w t hp

theorem produce_aside (endpoint : Endpoint) (payload : Bytes) (h : Headers) :
    Within (Aside name) (produce endpoint payload h : Op κ TransportError Unit) :=
  produce_within ((guardTransport_alike _ _).mono fun _ _ h => h.aside) fun _ _ hp =>
    ⟨rfl, rfl, Transport.produce_acknowledged hp name⟩

theorem useProducer_aside (broker : Nat) (endpoint : Endpoint) :
    Within (Aside name) (useProducer broker endpoint : Op κ ε Unit) := by
  refine within_modify fun w => ?_
  split <;> exact ⟨rfl, rfl, rfl⟩

theorem acknowledge_ok {endpoint : Endpoint} {offsets : List String} {w w' : World κ}
    (h : acknowledge endpoint offsets w = .ok () w') :
    w'.log = w.log ∧ w'.chunks = w.chunks ∧
      ∀ o, o ∈ (w'.transport.topic endpoint.name).acknowledged ↔
        o ∈ (w.transport.topic endpoint.name).acknowledged ∨ o ∈ offsets := by
  obtain ⟨_, u, hg, h1⟩ := bind_ok h
  obtain ⟨_, v, hr, h2⟩ := bind_ok h1
  have hw : Alike w v := ((guardTransport_alike _ _).ok hg).trans ((record_alike _).ok hr)
  rw [bind_get] at h2
  obtain ⟨t, _, ht, h3⟩ := bind_ok h2
  obtain ⟨ht, rfl⟩ := Op.ofExcept_ok.mp ht
  cases h3
  refine ⟨hw.log, hw.chunks, ?_⟩
  rw [← hw.transport]
  exact Transport.acknowledge_acknowledged ht

theorem acknowledge_error {endpoint : Endpoint} {offsets : List String} {e : TransportError}
    {w w' : World κ} (h : acknowledge endpoint offsets w = .error e w') : Alike w w' := by
  rcases bind_error h with hg | ⟨_, u, hg, h1⟩
  · exact (guardTransport_alike _ _).error hg
  rcases bind_error h1 with hr | ⟨_, v, hr, h2⟩
  · cases hr
  have hw : Alike w v := ((guardTransport_alike _ _).ok hg).trans ((record_alike _).ok hr)
  rw [bind_get] at h2
  rcases bind_error h2 with ht | ⟨t, _, _, h3⟩
  · rw [(Op.ofExcept_error.mp ht).2]
    exact hw
  · cases h3

end World

end Relay
