import Relay.Proofs.Accounting
/-!
# Stages and the log

Of the stages of a pipeline only deduplication logs messages. `Discreet` says of another stage, a
built-in or a custom one, that it leaves the log, the id and the endpoint of the message alone and
runs the rest of the chain at most once. Where all other stages are discreet, a message reaches
the end of the chain only if it was new to the log, and is logged then (`run_ok`); the envelopes
that an attempt hands on are new and of distinct messages (`prepare_new`).
-/
namespace Relay

open World (Alike Aside Kept)

variable {κ : Type}

/-! ## Leaving the log alone -/

namespace World

/-- The log has only been appended to. -/
def Grows (w w' : World κ) : Prop := w.log.Grown w'.log

instance : Std.Refl (Grows (κ := κ)) := ⟨fun w => .refl w.log⟩

instance : IsTrans (World κ) Grows := ⟨fun _ _ _ h h' => InboundLog.Grown.trans h h'⟩

theorem Alike.grows {w w' : World κ} (h : Alike w w') : Grows w w' := by
  unfold Grows
  rw [h.log]
  exact .refl _

theorem Aside.grows {name : String} {w w' : World κ} (h : Aside name w w') : Grows w w' := by
  unfold Grows
  rw [h.log]
  exact .refl _

end World

open World (Grows)

/-- A resource that does nothing to the log but append to it. -/
def Resource.Harmless (r : Resource κ) : Prop := Within Grows r.commit ∧ Within Grows r.rollback

/-- All enlisted resources are harmless. -/
def Transaction.Tame (tx : Transaction κ) : Prop := ∀ r ∈ tx.resources, r.Harmless

/-- The session of the log is the same, the log has at most grown, and nothing harmful was
enlisted. -/
structure Spared (s t : Inbox κ) : Prop where
  log : t.transaction.log = s.transaction.log
  grows : Grows s.world t.world
  tame : s.transaction.Tame → t.transaction.Tame

namespace Spared

variable {s t : Inbox κ}

theorem refl (s : Inbox κ) : Spared s s := ⟨rfl, Std.Refl.refl s.world, id⟩

theorem of_untouched (h : Untouched s t) : Spared s t :=
  ⟨by rw [h.1], h.2.grows, by rw [h.1]; exact id⟩

/-- Changing the chunk session is none of the log's business. -/
theorem of_chunks {chunks : ChunkSession} (h : t.transaction = { s.transaction with chunks })
    (hw : Alike s.world t.world) : Spared s t :=
  ⟨by rw [h], hw.grows, by rw [h]; exact id⟩

end Spared

/-! ## Discreet stages -/

/-- A passage of the same message that has got as far. -/
structure Passage.Same (p q : Passage) : Prop where
  messageId : q.envelope.messageId = p.envelope.messageId
  endpoint : q.envelope.endpoint = p.envelope.endpoint
  accepted : q.accepted = p.accepted

namespace Stage

/-- What a stage may do with a message and the rest of the chain: stop the message, or run the rest
on it once and come out as that came out, or with a failure, or with the message stopped if the
rest has failed. -/
inductive Passes (next : Passing κ) (p : Passage) (s : Inbox κ) :
    EStateM.Result InboundError (Inbox κ) Passage → Prop
  | stopped {q : Passage} {t : Inbox κ} (hq : p.Same q) (ht : Spared s t) :
    Passes next p s (.ok q t)
  | refused {e : InboundError} {t : Inbox κ} (ht : Spared s t) : Passes next p s (.error e t)
  | passed {p' q q' : Passage} {s' t' t : Inbox κ} (hnext : next p' s' = .ok q' t')
    (hp : p.Same p') (hs : Spared s s') (hq : q'.Same q) (ht : Spared t' t) :
    Passes next p s (.ok q t)
  | failed {p' : Passage} {s' t' t : Inbox κ} {e : InboundError}
    (hnext : endState (next p') s' = t') (hp : p.Same p') (hs : Spared s s') (ht : Spared t' t) :
    Passes next p s (.error e t)
  | recovered {p' q : Passage} {s' t' t : Inbox κ} {e : InboundError}
    (hnext : next p' s' = .error e t') (hp : p.Same p') (hs : Spared s s') (hq : p.Same q)
    (ht : Spared t' t) : Passes next p s (.ok q t)

/-- A stage that leaves the log and the identity of messages alone. -/
def Discreet (st : Stage κ) : Prop :=
  ∀ (next : Passing κ) (p : Passage) (s : Inbox κ), Passes next p s (st.handle next p s)

/-- A stage that runs the rest in the state it finds, on the same message. -/
theorem passes_next {next : Passing κ} {p p' : Passage} {s : Inbox κ} (hp : p.Same p') :
    Passes next p s (next p' s) := by
  cases h : next p' s with
  | ok q t => exact .passed h hp (.refl s) ⟨rfl, rfl, rfl⟩ (.refl t)
  | error e t =>
    exact .failed (endState_of_error h) hp (.refl s) (.refl t)

theorem chunkAggregation_discreet : Discreet (chunkAggregation : Stage κ) := by
  intro next p s
  cases h : chunkAggregation.handle next p s with
  | ok q t =>
    rcases chunkAggregation_ok h with ⟨-, hn⟩ | ⟨position, -, ⟨-, rfl, ht⟩ | ⟨-, hn⟩⟩
    · exact .passed hn ⟨rfl, rfl, rfl⟩ (.refl s) ⟨rfl, rfl, rfl⟩ (.refl t)
    · exact .stopped ⟨rfl, rfl, rfl⟩ (.of_untouched ht)
    · obtain ⟨existing, u, -, hw, htx, ⟨-, rfl, rfl⟩ | ⟨payload, -, hn⟩⟩ := hn
      · exact .stopped ⟨rfl, rfl, rfl⟩ (.of_chunks htx hw)
      · exact .passed hn ⟨rfl, rfl, rfl⟩ (.of_chunks htx hw) ⟨rfl, rfl, rfl⟩ (.refl t)
  | error e t =>
    rcases chunkAggregation_error h with ⟨-, ht⟩ | ⟨-, hn⟩ | ⟨position, -, -, hn⟩
    · exact .refused (.of_untouched ht)
    · exact .failed (endState_of_error hn) ⟨rfl, rfl, rfl⟩ (.refl s) (.refl t)
    · obtain ⟨existing, payload, u, -, hw, htx, -, hn⟩ := hn
      exact .failed (endState_of_error hn) ⟨rfl, rfl, rfl⟩ (.of_chunks htx hw) (.refl t)

theorem decryption_discreet (c : Cipher) : Discreet (decryption c : Stage κ) := by
  intro next p s
  have he : (decryption c).handle next p s =
      (Inbound.ofExcept .cipher (c.decrypt p.envelope.payload p.envelope.headers) >>= fun payload =>
        next { p with envelope := { p.envelope with payload } }) s := rfl
  rw [he]
  cases c.decrypt p.envelope.payload p.envelope.headers with
  | error e => exact .refused (.refl s)
  | ok payload => exact passes_next ⟨rfl, rfl, rfl⟩

theorem deserialization_discreet (r : Registry) : Discreet (deserialization r : Stage κ) := by
  intro next p s
  obtain ⟨env, message, accepted⟩ := p
  cases message with
  | some m => exact passes_next ⟨rfl, rfl, rfl⟩
  | none =>
    have he : (deserialization r).handle next ⟨env, none, accepted⟩ s =
        (Inbound.ofExcept .serialization (r.deserialize env.payload env.headers) >>= fun m =>
          next ⟨env, some m, accepted⟩) s := rfl
    rw [he]
    cases r.deserialize env.payload env.headers with
    | error e => exact .refused (.refl s)
    | ok m => exact passes_next ⟨rfl, rfl, rfl⟩

end Stage

/-! ## Chains -/

/-- All that can become of the log with a message: nothing, or the message was new and is logged
once. -/
structure Logged (e : LogEntry) (s t : Inbox κ) : Prop where
  grows : Grows s.world t.world
  tame : s.transaction.Tame → t.transaction.Tame
  log : t.transaction.log = s.transaction.log ∨
    t.transaction.log = s.transaction.log.add e ∧ e ∉ s.transaction.log.view s.world.log

theorem Spared.logged {s t : Inbox κ} (h : Spared s t) (e : LogEntry) : Logged e s t :=
  ⟨h.grows, h.tame, Or.inl h.log⟩

/-- What is new to a log was new to it before it grew. -/
theorem Spared.new {s t : Inbox κ} (h : Spared s t) {e : LogEntry}
    (he : e ∉ t.transaction.log.view t.world.log) : e ∉ s.transaction.log.view s.world.log := by
  intro hs
  apply he
  unfold LogSession.view at *
  rw [h.log]
  rcases List.mem_append.mp hs with hs | hs
  · exact List.mem_append_left _ (InboundLog.Grown.subset h.grows hs)
  · exact List.mem_append_right _ hs

namespace Logged

variable {e : LogEntry} {s s' t' t : Inbox κ}

theorem between (hs : Spared s s') (h : Logged e s' t') (ht : Spared t' t) : Logged e s t := by
  refine ⟨IsTrans.trans _ _ _ hs.grows (IsTrans.trans _ _ _ h.grows ht.grows),
    fun hn => ht.tame (h.tame (hs.tame hn)), ?_⟩
  rw [ht.log]
  exact h.log.imp (fun hl => hl.trans hs.log) fun ⟨hadd, hnew⟩ =>
    ⟨by rw [hadd, hs.log], hs.new hnew⟩

/-- After deduplication has logged a message, nothing logs it again. -/
theorem after_dedup {u : Inbox κ} {id endpoint : String}
    (hsees : s.transaction.log.sees s.world.log id endpoint = .ok false)
    (hw : Alike s.world u.world) (htx : u.transaction = s.transaction.logged id endpoint)
    (h : Logged ⟨id, endpoint⟩ u t) :
    Logged ⟨id, endpoint⟩ s t ∧ t.transaction.log = s.transaction.log.add ⟨id, endpoint⟩ ∧
      ⟨id, endpoint⟩ ∉ s.transaction.log.view s.world.log := by
  have hnew : ⟨id, endpoint⟩ ∉ s.transaction.log.view s.world.log := by
    rw [← LogSession.sees_iff hsees]
    simp
  have hadd : t.transaction.log = s.transaction.log.add ⟨id, endpoint⟩ := by
    rcases h.log with hl | ⟨-, hn⟩
    · rw [hl, htx]
      rfl
    · refine absurd (List.mem_append_right _ ?_) hn
      rw [htx]
      exact List.mem_append_right _ List.mem_cons_self
  refine ⟨⟨IsTrans.trans _ _ _ hw.grows h.grows, fun hn => h.tame ?_, Or.inr ⟨hadd, hnew⟩⟩,
    hadd, hnew⟩
  rw [htx]
  exact hn

end Logged

namespace Pipeline

/-- Every stage is deduplication or discreet. -/
def Orderly (ss : List (Stage κ)) : Prop := ∀ st ∈ ss, st = .deduplication ∨ st.Discreet

/-- The entry that a message on its way has in the log. -/
def entryOf (p : Passage) : LogEntry := ⟨p.envelope.messageId, p.envelope.endpoint.name⟩

theorem entryOf_same {p q : Passage} (h : p.Same q) : entryOf q = entryOf p := by
  unfold entryOf
  rw [h.messageId, h.endpoint]

theorem run_logged {ss : List (Stage κ)} (hss : Orderly ss) (p : Passage) (s : Inbox κ) :
    Logged (entryOf p) s (endState (run ss p) s) := by
  induction ss generalizing p s with
  | nil => exact (Spared.refl s).logged _
  | cons st ss ih =>
    have ih := ih fun st hst => hss st (List.mem_cons_of_mem _ hst)
    rcases hss st List.mem_cons_self with rfl | hst
    · cases h : Stage.deduplication.handle (run ss) p s with
      | ok q t =>
        have hend : endState (run (.deduplication :: ss) p) s = t := by
          unfold endState
          rw [run, h]
        rw [hend]
        rcases Stage.deduplication_ok h with ⟨-, -, ht⟩ | ⟨hsees, u, hn, hw, htx⟩
        · exact (Spared.of_untouched ht).logged _
        · have hl := ih p u
          rw [endState, hn] at hl
          exact (Logged.after_dedup hsees hw htx hl).1
      | error e t =>
        have hend : endState (run (.deduplication :: ss) p) s = t := by
          unfold endState
          rw [run, h]
        rw [hend]
        rcases Stage.deduplication_error h with ⟨-, ht⟩ | ⟨hsees, u, hn, hw, htx⟩
        · exact (Spared.of_untouched ht).logged _
        · have hl := ih p u
          rw [endState, hn] at hl
          exact (Logged.after_dedup hsees hw htx hl).1
    · have hpass := hst (run ss) p s
      have hend : endState (run (st :: ss) p) s = endState (st.handle (run ss) p) s := rfl
      rw [hend]
      unfold endState
      generalize st.handle (run ss) p s = r at hpass ⊢
      cases hpass with
      | stopped _ ht => exact ht.logged _
      | refused ht => exact ht.logged _
      | @passed p' q q' s' t' t hn hp hs _ ht =>
        have hl := ih p' s'
        rw [endState, hn, entryOf_same hp] at hl
        exact .between hs hl ht
      | @failed p' s' t' t e hn hp hs ht =>
        have hl := ih p' s'
        rw [hn, entryOf_same hp] at hl
        exact .between hs hl ht
      | @recovered p' q s' t' t e hn hp hs _ ht =>
        have hl := ih p' s'
        rw [endState, hn, entryOf_same hp] at hl
        exact .between hs hl ht

/-- A message comes out of a chain as the message that went in. -/
theorem run_messageId {ss : List (Stage κ)} (hss : Orderly ss) {p q : Passage} {s t : Inbox κ}
    (h : run ss p s = .ok q t) : q.envelope.messageId = p.envelope.messageId := by
  induction ss generalizing p s q t with
  | nil =>
    cases h
    rfl
  | cons st ss ih =>
    have ih := fun {p q s t} => ih (fun st hst => hss st (List.mem_cons_of_mem _ hst))
      (p := p) (q := q) (s := s) (t := t)
    change st.handle (run ss) p s = .ok q t at h
    rcases hss st List.mem_cons_self with rfl | hst
    · rcases Stage.deduplication_ok h with ⟨-, rfl, -⟩ | ⟨-, u, hn, -, -⟩
      · rfl
      · exact ih hn
    · have hpass := hst (run ss) p s
      rw [h] at hpass
      cases hpass with
      | stopped hq _ => exact hq.messageId
      | passed hn hp _ hq _ => exact hq.messageId.trans ((ih hn).trans hp.messageId)
      | recovered _ _ _ hq _ => exact hq.messageId

/-- A message that gets through deduplication to the end of the chain was new and is logged. -/
theorem run_ok {ss : List (Stage κ)} (hss : Orderly ss) (hd : .deduplication ∈ ss) {p q : Passage}
    {s t : Inbox κ} (hp : p.accepted = false) (h : run ss p s = .ok q t) (hq : q.accepted = true) :
    t.transaction.log = s.transaction.log.add (entryOf p) ∧
      entryOf p ∉ s.transaction.log.view s.world.log := by
  induction ss generalizing p s q t with
  | nil => cases hd
  | cons st ss ih =>
    have hrest : Orderly ss := fun st hst => hss st (List.mem_cons_of_mem _ hst)
    change st.handle (run ss) p s = .ok q t at h
    by_cases hst : st = .deduplication
    · subst hst
      rcases Stage.deduplication_ok h with ⟨-, rfl, -⟩ | ⟨hsees, u, hn, hw, htx⟩
      · rw [hp] at hq
        cases hq
      · have hl := run_logged hrest p u
        rw [endState, hn] at hl
        exact (Logged.after_dedup hsees hw htx hl).2
    · have hd : .deduplication ∈ ss := (List.mem_cons.mp hd).resolve_left fun he => hst he.symm
      have hpass := ((hss st List.mem_cons_self).resolve_left hst) (run ss) p s
      rw [h] at hpass
      cases hpass with
      | stopped hsame _ =>
        rw [hsame.accepted, hp] at hq
        cases hq
      | passed hn hp' hs hq' ht =>
        obtain ⟨hadd, hnew⟩ := ih hrest hd (hp'.accepted.trans hp) hn (hq'.accepted ▸ hq)
        rw [entryOf_same hp'] at hadd hnew
        exact ⟨by rw [ht.log, hadd, hs.log], hs.new hnew⟩
      | recovered _ _ _ hsame _ =>
        rw [hsame.accepted, hp] at hq
        cases hq

/-- A pipeline whose custom stages are discreet is orderly, and deduplication is in it. -/
theorem create_orderly (w : Wire) {custom : List (Stage κ)} (h : ∀ st ∈ custom, st.Discreet) :
    Orderly (create w custom).stages ∧ .deduplication ∈ (create w custom).stages := by
  have hperm : (create w custom).stages.Perm (builtIn w ++ custom) := List.mergeSort_perm _ _
  refine ⟨fun st hst => ?_, hperm.mem_iff.mpr (by simp [builtIn])⟩
  rcases List.mem_append.mp (hperm.mem_iff.mp hst) with hst | hst
  · rcases mem_builtIn.mp hst with rfl | rfl | ⟨c, -, rfl⟩ | rfl
    · exact Or.inr Stage.chunkAggregation_discreet
    · exact Or.inl rfl
    · exact Or.inr (Stage.decryption_discreet c)
    · exact Or.inr (Stage.deserialization_discreet _)
  · exact Or.inr (h st hst)

end Pipeline

/-! ## Batches -/

/-- The message ids of envelopes. -/
def envelopeIds (ms : List Message) : List String :=
  ms.filterMap fun m => match m with | .inbound raw _ _ => some raw.messageId | _ => none

/-- The log and the pending entries have at most grown, and nothing harmful was enlisted. -/
structure Advanced (s t : Inbox κ) : Prop where
  grows : Grows s.world t.world
  tame : s.transaction.Tame → t.transaction.Tame
  pending : ∀ e ∈ s.transaction.log.pending, e ∈ t.transaction.log.pending

instance : Std.Refl (Advanced (κ := κ)) :=
  ⟨fun s => ⟨Std.Refl.refl s.world, id, fun _ h => h⟩⟩

instance : IsTrans (Inbox κ) Advanced :=
  ⟨fun _ _ _ h h' => ⟨IsTrans.trans _ _ _ h.grows h'.grows, fun ht => h'.tame (h.tame ht),
    fun e he => h'.pending e (h.pending e he)⟩⟩

theorem Logged.advanced {e : LogEntry} {s t : Inbox κ} (h : Logged e s t) : Advanced s t := by
  refine ⟨h.grows, h.tame, fun d hd => ?_⟩
  rcases h.log with hl | ⟨hl, -⟩
  · rw [hl]
    exact hd
  · rw [hl]
    exact List.mem_append_left _ hd

/-- What a transaction shows of the log grows with it. -/
theorem Advanced.view {s t : Inbox κ} (h : Advanced s t) {e : LogEntry}
    (he : e ∈ s.transaction.log.view s.world.log) : e ∈ t.transaction.log.view t.world.log := by
  rcases List.mem_append.mp he with he | he
  · exact List.mem_append_left _ (InboundLog.Grown.subset h.grows he)
  · exact List.mem_append_right _ (h.pending e he)

variable {p : Pipeline κ} {endpoint : Endpoint} {ms : List RawMessage}

theorem Pipeline.process_advanced (hss : Orderly p.stages) (raw : RawEnvelope) :
    Within Advanced (p.process raw) := by
  have hrun : Within Advanced (run p.stages { envelope := raw }) :=
    fun s => (run_logged hss _ s).advanced
  exact within_bind hrun fun _ => within_pure _

theorem Pipeline.process_new (hss : Orderly p.stages) (hd : .deduplication ∈ p.stages)
    {raw : RawEnvelope} {m : Message} {s t : Inbox κ} (h : p.process raw s = .ok (some m) t) :
    envelopeIds [m] = [raw.messageId] ∧
      ⟨raw.messageId, raw.endpoint.name⟩ ∈ t.transaction.log.pending ∧
      ⟨raw.messageId, raw.endpoint.name⟩ ∉ s.transaction.log.view s.world.log := by
  obtain ⟨q, u, hq, h1⟩ := bind_ok h
  by_cases ha : q.accepted = true
  · rw [if_pos ha] at h1
    cases h1
    obtain ⟨hadd, hnew⟩ := run_ok hss hd rfl hq ha
    refine ⟨?_, ?_, hnew⟩
    · change [q.envelope.messageId] = _
      rw [run_messageId hss hq]
    · rw [hadd]
      exact List.mem_append_right _ List.mem_cons_self
  · rw [if_neg ha] at h1
    cases h1

namespace Attempt

theorem prepare_advanced (hss : Pipeline.Orderly p.stages) :
    Within Advanced (prepare p endpoint ms) := by
  induction ms with
  | nil => exact within_pure _
  | cons m ms ih =>
    refine within_bind ?_ fun raw => within_bind (p.process_advanced hss raw) fun _ =>
      within_bind ih fun _ => within_pure _
    cases RawEnvelope.ofMessage endpoint m with
    | ok raw => exact within_pure raw
    | error e => exact within_throw _

/-- **What a batch hands on is new.** The envelopes are of distinct messages, and none of these was
in the log or among the pending entries before. -/
theorem prepare_new (hss : Pipeline.Orderly p.stages) (hd : .deduplication ∈ p.stages)
    {out : List Message} {s t : Inbox κ} (h : prepare p endpoint ms s = .ok out t) :
    (envelopeIds out).Nodup ∧ ∀ id ∈ envelopeIds out,
      ⟨id, endpoint.name⟩ ∉ s.transaction.log.view s.world.log := by
  induction ms generalizing out s with
  | nil =>
    cases h
    exact ⟨List.nodup_nil, by simp [envelopeIds]⟩
  | cons m ms ih =>
    obtain ⟨raw, first, rest, v, hraw, hfirst, hrest, rfl⟩ := prepare_cons_ok h
    obtain ⟨id, -, hid⟩ := Settlement.ofMessage_ok hraw
    obtain ⟨hnodup, hnew⟩ := ih hrest
    have hv : Advanced s v := (p.process_advanced hss raw).ok hfirst
    have hold : ∀ i ∈ envelopeIds rest, ⟨i, endpoint.name⟩ ∉ s.transaction.log.view s.world.log :=
      fun i hi hin => hnew i hi (hv.view hin)
    cases first with
    | none => exact ⟨hnodup, hold⟩
    | some m' =>
      obtain ⟨hids, hpending, hfresh⟩ := Pipeline.process_new hss hd hfirst
      have hname : raw.endpoint.name = endpoint.name := by rw [hid]
      rw [hname] at hpending hfresh
      have hcons : envelopeIds (m' :: rest) = raw.messageId :: envelopeIds rest := by
        have happ : envelopeIds ([m'] ++ rest) = envelopeIds [m'] ++ envelopeIds rest :=
          List.filterMap_append
        rw [hids] at happ
        exact happ
      change (envelopeIds (m' :: rest)).Nodup ∧ ∀ i ∈ envelopeIds (m' :: rest), _
      rw [hcons]
      refine ⟨List.nodup_cons.mpr ⟨fun hin => ?_, hnodup⟩, fun i hi => ?_⟩
      · exact hnew _ hin (List.mem_append_right _ hpending)
      · rcases List.mem_cons.mp hi with rfl | hi
        · exact hfresh
        · exact hold i hi

end Attempt

end Relay
