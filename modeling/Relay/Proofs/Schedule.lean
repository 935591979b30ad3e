import Relay.Proofs.Progress
/-!
# Flows that are polled

A flow is polled again and again, and between two polls others may change the state in any way
(`Schedule`).

* `poll_follows`: a poll takes a flow on in what it does, by the events of the poll (`events`).
* `ends`: on a schedule whose times pass every bound every flow comes to its end.
* `ends_does`: so there is a poll at which the flow is over, and what was done in the polls so far
  (`history`) is exactly what it has done up to that end.
* `ends_runs`: that is the history of one of the flow's runs.
* `breaks_andThen`: once a flow has broken off, so has the whole that it is the beginning of.
-/
namespace Relay

namespace Flow

variable {σ ε β α γ : Type}

/-! ## Polls -/

mutual

/-- The flow with a record of its events beside the state. -/
def recorded {α : Type} : Flow σ ε β α → Flow (σ × List (Event σ)) ε β α
  | .done a => .done a
  | .panicked t => .panicked t
  | .act f k =>
    .act (fun s => ((f s.1).1, (f s.1).2, s.2 ++ [.change s.1 (f s.1).2])) fun b => recorded (k b)
  | .clock k =>
    .clock fun now => .act (fun s => ((), s.1, s.2 ++ [.reading now])) fun _ => recorded (k now)
  | .wait t k => .wait t (recorded k)
  | .gather limit eager taken flows k =>
    .gather limit eager taken (recordedAll flows) fun r => recorded (k r)
termination_by structural f => f

def recordedAll : List (Flow σ ε β (Except ε (List β))) →
    List (Flow (σ × List (Event σ)) ε β (Except ε (List β)))
  | [] => []
  | f :: fs => recorded f :: recordedAll fs
termination_by structural fs => fs

end

def Turn.recorded : Turn σ ε β → Turn (σ × List (Event σ)) ε β
  | .left taken flows => .left taken (recordedAll flows)
  | .failed x => .failed x
  | .panicked t => .panicked t

theorem Turn.recorded_hold (f : Flow σ ε β (Except ε (List β))) (turn : Turn σ ε β) :
    (turn.hold f).recorded = turn.recorded.hold f.recorded := by
  cases turn <;> rfl

/-- The events of a poll, in order. -/
def events (now : Nat) (f : Flow σ ε β α) (s : σ) : List (Event σ) :=
  (poll now (recorded f) (s, [])).2.2

/-- With the events, the flow has come to what is left: they and what that goes on to do are what the
flow does. -/
def Leads (f : Flow σ ε β α) (h : List (Event σ)) (left : Flow σ ε β α) : Prop :=
  ∀ h' e, Does left h' e → Does f (h ++ h') e

theorem Leads.refl (f : Flow σ ε β α) : Leads f [] f := fun _ _ hd => hd

theorem Leads.trans {f f' f'' : Flow σ ε β α} {h h' : List (Event σ)} (hl : Leads f h f')
    (hl' : Leads f' h' f'') : Leads f (h ++ h') f'' := by
  intro h'' e hd
  rw [List.append_assoc]
  exact hl _ _ (hl' _ _ hd)

theorem Leads.does {f g : Flow σ ε β α} {h : List (Event σ)} {e : End α} (hl : Leads f h g)
    (hd : Does g [] e) : Does f h e := by
  have hdoes := hl [] e hd
  rwa [List.append_nil] at hdoes

/-- A poll takes the flow on in what it does, and the record is one of that. -/
def Follows (f : Flow σ ε β α) : Prop :=
  ∀ now s, ∃ h, Leads f h (poll now f s).1 ∧ ∀ past, poll now (recorded f) (s, past) =
    (recorded (poll now f s).1, (poll now f s).2, past ++ h)

/-- With the events, the flows of a gather have come to what a turn leaves of them. -/
def Turn.Gathered (taken : List β) (flows : List (Flow σ ε β (Except ε (List β))))
    (h : List (Event σ)) : Turn σ ε β → Prop
  | .left taken' flows' => ∀ h' e, Together taken' flows' h' e → Together taken flows (h ++ h') e
  | .failed x => Together taken flows h (.done (.error x))
  | .panicked t => Together taken flows h (.panicked t)

/-- The results that are taken by a turn of flows that wait behind another one are those from
before. -/
def Turn.Takes (taken : List β) : Turn σ ε β → Prop
  | .left taken' _ => taken' = taken
  | _ => True

section
variable {taken : List β} {f f' : Flow σ ε β (Except ε (List β))}
  {fs : List (Flow σ ε β (Except ε (List β)))} {h h' : List (Event σ)} {turn : Turn σ ε β}

/-- A flow that breaks off in its turn, with those behind it not started. -/
theorem Together.first {b : Break ε} (hf : Does f h b.end) : Together taken (f :: fs) h b.end := by
  have hmerge : Merge h [] h := by
    have hleft := Merge.append h []
    rwa [List.append_nil] at hleft
  exact .stopped (.cons hf (apart_begins fs) hmerge) b List.mem_cons_self

/-- One behind a flow breaks off, which has done a part of its own. -/
theorem Together.behind {b : Break ε} (hf : Does f h .unfinished)
    (ht : Together taken fs h' b.end) : Together taken (f :: fs) (h ++ h') b.end := by
  obtain ⟨xs, hx, hb⟩ := together_break ht
  exact .stopped (.cons hf hx (.append h h')) b (List.mem_cons_of_mem _ hb)

/-- A flow whose result is taken at once comes first. -/
theorem Turn.Gathered.take {bs : List β} (hf : Does f h (.done (.ok bs)))
    (ht : turn.Gathered (taken ++ bs) fs h') : turn.Gathered taken (f :: fs) (h ++ h') := by
  have hcons : ∀ {h' e}, Together (taken ++ bs) fs h' e → Together taken (f :: fs) (h ++ h') e := by
    intro h' e ht
    cases ht with
    | going hx => exact .going (.cons hf hx (.append h h'))
    | all hj =>
      obtain ⟨xs, hxs, hm, rfl⟩ := hj
      rw [List.append_assoc]
      exact .all ⟨(h, bs) :: xs, .cons hf hxs, .cons (.append h h') hm, rfl⟩
    | stopped hx b hb =>
      exact .stopped (.cons hf hx (.append h h')) b (List.mem_cons_of_mem _ hb)
  cases turn with
  | left taken' flows' =>
    intro h'' e hd
    rw [List.append_assoc]
    exact hcons (ht h'' e hd)
  | failed x => exact hcons ht
  | panicked t => exact hcons ht

/-- A flow that stays in its place goes on beside those of the turn. -/
theorem Turn.Gathered.hold (hf : Leads f h f') (ht : turn.Gathered taken fs h')
    (htaken : turn.Takes taken) : (turn.hold f').Gathered taken (f :: fs) (h ++ h') := by
  cases turn with
  | failed x => exact .behind (b := .error x) (hf.does (.begins f')) ht
  | panicked t => exact .behind (b := .panic t) (hf.does (.begins f')) ht
  | left taken' flows' =>
    cases htaken
    intro h'' e hd
    rw [List.append_assoc]
    -- the flow's further events and those of the others are merged behind the turn
    have hbehind : ∀ {x rest : List (Event σ)}, Merge x rest h'' →
        Merge (h ++ x) (h' ++ rest) (h ++ (h' ++ h'')) :=
      fun hmerge => (hmerge.append_right h').append_left h
    cases hd with
    | going hx =>
      obtain ⟨hxs, hm⟩ := hx
      cases hxs with
      | @cons _ x _ xs hx hxs =>
        cases hm with
        | @cons _ rest _ _ hmerge hm =>
          obtain ⟨ys, hys⟩ := together_unfinished (ht rest _ (.going ⟨hxs, hm⟩))
          exact .going (.cons (hf _ _ hx) hys (hbehind hmerge))
    | all hj =>
      obtain ⟨xs, hxs, hm, rfl⟩ := hj
      cases hxs with
      | @cons _ x _ xs hx hxs =>
        cases hm with
        | @cons _ rest _ _ hmerge hm =>
          obtain ⟨_, ⟨ys, hys, hm', rfl⟩, heq⟩ := together_ok (ht rest _ (.all ⟨xs, hxs, hm, rfl⟩))
          have hsame : xs.flatMap Prod.snd = ys.flatMap Prod.snd := List.append_cancel_left heq
          rw [List.flatMap_cons, hsame]
          exact .all ⟨(h ++ x.1, x.2) :: ys, .cons (hf _ _ hx) hys, .cons (hbehind hmerge) hm', rfl⟩
    | stopped hx b hb =>
      obtain ⟨hxs, hm⟩ := hx
      cases hxs with
      | @cons _ x _ xs hx hxs =>
        cases hm with
        | @cons _ rest _ _ hmerge hm =>
          rcases List.mem_cons.mp hb with hb | hb
          · obtain ⟨ys, hys⟩ := together_unfinished (ht rest _ (.going ⟨hxs, hm⟩))
            exact .stopped (.cons (hf _ _ hx) hys (hbehind hmerge)) b
              (List.mem_cons.mpr (.inl hb))
          · obtain ⟨ys, hys, hb'⟩ := together_break (ht rest _ (.stopped ⟨hxs, hm⟩ b hb))
            exact .stopped (.cons (hf _ _ hx) hys (hbehind hmerge)) b
              (List.mem_cons_of_mem _ hb')

end

/-! ### Turns -/

/-- What becomes of a flow of a gather that has had its turn. -/
inductive Fate (ε β : Type)
  | panics (t : String)
  | fails (e : ε)
  | taken (bs : List β)
  | stays

/-- What a poll has left of a flow behind `held` others decides what becomes of it. -/
def fate (eager : Bool) (held : Nat) : Flow σ ε β (Except ε (List β)) → Fate ε β
  | .panicked t => .panics t
  | .done (.error e) => if eager || held = 0 then .fails e else .stays
  | .done (.ok bs) => if held = 0 then .taken bs else .stays
  | _ => .stays

section
variable {now limit : Nat} {eager : Bool} {held : Nat} {taken : List β}
  {f : Flow σ ε β (Except ε (List β))} {fs : List (Flow σ ε β (Except ε (List β)))} {s : σ}

theorem eq_of_panics {t : String} (h : fate eager held f = .panics t) : f = .panicked t := by
  unfold fate at h
  split at h <;> grind

theorem eq_of_fails {e : ε} (h : fate eager held f = .fails e) : f = .done (.error e) := by
  unfold fate at h
  split at h <;> grind

theorem eq_of_taken {bs : List β} (h : fate eager held f = .taken bs) :
    f = .done (.ok bs) ∧ held = 0 := by
  unfold fate at h
  split at h <;> grind

theorem fate_recorded : fate eager held (recorded f) = fate eager held f := by
  rcases f with r | _ | _ | _ | _ | _
  · cases r <;> rfl
  all_goals rfl

/-- A started flow has its turn, and then those behind it. -/
theorem pollEach_cons (h : held < max 1 limit) :
    pollEach now limit eager held taken (f :: fs) s =
      match fate eager held (poll now f s).1 with
      | .panics t => (.panicked t, (poll now f s).2)
      | .fails e => (.failed e, (poll now f s).2)
      | .taken bs => pollEach now limit eager 0 (taken ++ bs) fs (poll now f s).2
      | .stays =>
        ((pollEach now limit eager (held + 1) taken fs (poll now f s).2).1.hold (poll now f s).1,
          (pollEach now limit eager (held + 1) taken fs (poll now f s).2).2) := by
  conv_lhs => unfold pollEach
  rw [if_pos h]
  rcases poll now f s with ⟨r | t | _ | _ | _ | _, u⟩
  · rcases r with e | bs
    · unfold fate
      dsimp only
      split <;> rfl
    · unfold fate
      dsimp only
      split <;> rfl
  all_goals rfl

theorem pollEach_full (h : ¬ held < max 1 limit) :
    pollEach now limit eager held taken fs s = (.left taken fs, s) := by
  cases fs with
  | nil => rfl
  | cons f fs =>
    unfold pollEach
    rw [if_neg h]

end

/-- What a poll of a gather goes on with after a turn of its flows. -/
def proceed (now limit : Nat) (eager : Bool) (k : Except ε (List β) → Flow σ ε β α) :
    Turn σ ε β × σ → Flow σ ε β α × σ
  | (.failed e, s) => poll now (k (.error e)) s
  | (.panicked t, s) => (.panicked t, s)
  | (.left taken [], s) => poll now (k (.ok taken)) s
  | (.left taken flows, s) => (.gather limit eager taken flows k, s)

theorem poll_gather (now limit : Nat) (eager : Bool) (taken : List β)
    (flows : List (Flow σ ε β (Except ε (List β)))) (k : Except ε (List β) → Flow σ ε β α) (s : σ) :
    poll now (.gather limit eager taken flows k) s =
      proceed now limit eager k (pollEach now limit eager 0 taken flows s) := by
  rw [poll]
  rcases pollEach now limit eager 0 taken flows s with ⟨⟨taken', _ | ⟨g, gs⟩⟩ | e | t, u⟩ <;> rfl

/-- **A turn of flows takes them on in what they do**, merged. -/
theorem pollEach_follows (now limit : Nat) (eager : Bool)
    {flows : List (Flow σ ε β (Except ε (List β)))} (hp : ∀ f ∈ flows, Follows f) (held : Nat)
    (taken : List β) (s : σ) :
    ∃ h, (pollEach now limit eager held taken flows s).1.Gathered taken flows h ∧
      (0 < held → (pollEach now limit eager held taken flows s).1.Takes taken) ∧
      ∀ past, pollEach now limit eager held taken (recordedAll flows) (s, past) =
        ((pollEach now limit eager held taken flows s).1.recorded,
          (pollEach now limit eager held taken flows s).2, past ++ h) := by
  induction flows generalizing held taken s with
  | nil =>
    refine ⟨[], fun h' e ht => ht, fun _ => rfl, fun past => ?_⟩
    rw [List.append_nil]
    rfl
  | cons f fs ih =>
    have ih := ih fun g hg => hp g (List.mem_cons_of_mem _ hg)
    obtain ⟨h, hlead, hrecord⟩ := hp f List.mem_cons_self now s
    by_cases hheld : held < max 1 limit
    · simp only [recordedAll, pollEach_cons hheld, hrecord, fate_recorded]
      generalize poll now f s = polled at hlead
      obtain ⟨g, u⟩ := polled
      dsimp only at hlead ⊢
      cases hfate : fate eager held g with
      | panics t =>
        cases eq_of_panics hfate
        have hfirst : Together taken (f :: fs) h (.panicked t) :=
          .first (b := .panic t) (hlead.does (.panicked t))
        exact ⟨h, hfirst, fun _ => trivial, fun past => rfl⟩
      | fails e =>
        cases eq_of_fails hfate
        have hfirst : Together taken (f :: fs) h (.done (.error e)) :=
          .first (b := .error e) (hlead.does (.done _))
        exact ⟨h, hfirst, fun _ => trivial, fun past => rfl⟩
      | taken bs =>
        obtain ⟨rfl, rfl⟩ := eq_of_taken hfate
        obtain ⟨h', hgathered, -, hrecord'⟩ := ih 0 (taken ++ bs) u
        have htake := hgathered.take (hlead.does (.done _))
        refine ⟨h ++ h', htake, (absurd · (Nat.lt_irrefl 0)), fun past => ?_⟩
        simp only [hrecord', List.append_assoc]
      | stays =>
        -- the flows behind this one have their turn after it
        obtain ⟨h', hgathered, htakes, hrecord'⟩ := ih (held + 1) taken u
        have htakes := htakes (Nat.succ_pos held)
        refine ⟨h ++ h', hgathered.hold hlead htakes, fun _ => ?_, fun past => ?_⟩
        · generalize (pollEach now limit eager (held + 1) taken fs u).1 = turn at htakes
          cases turn <;> exact htakes
        · simp only [hrecord', Turn.recorded_hold, List.append_assoc]
    · simp only [pollEach_full hheld]
      refine ⟨[], fun h' e ht => ht, fun _ => rfl, fun past => ?_⟩
      rw [List.append_nil]
      rfl

/-- **A poll takes a flow on in what it does.** -/
theorem poll_follows (f : Flow σ ε β α) : Follows f := by
  induction keeps_anything f with
  | done a => exact fun now s => ⟨[], .refl _, fun past => by rw [List.append_nil]; rfl⟩
  | panicked t => exact fun now s => ⟨[], .refl _, fun past => by rw [List.append_nil]; rfl⟩
  | @act _ _ f k hf hk ih =>
    intro now s
    obtain ⟨h, hlead, hrecord⟩ := ih (f s).1 now (f s).2
    refine ⟨.change s (f s).2 :: h, fun h' e hd => .act s (hlead h' e hd), fun past => ?_⟩
    have hpast := hrecord (past ++ [.change s (f s).2])
    rw [List.append_assoc] at hpast
    exact hpast
  | clock hk ih =>
    intro now s
    obtain ⟨h, hlead, hrecord⟩ := ih now now s
    refine ⟨.reading now :: h, fun h' e hd => .clock now (hlead h' e hd), fun past => ?_⟩
    have hpast := hrecord (past ++ [.reading now])
    rw [List.append_assoc] at hpast
    exact hpast
  | @wait _ t k hk ih =>
    intro now s
    simp only [recorded, poll]
    split
    · obtain ⟨h, hlead, hrecord⟩ := ih now s
      exact ⟨h, fun h' e hd => .wait (hlead h' e hd), hrecord⟩
    · exact ⟨[], .refl _, fun past => by rw [List.append_nil]; rfl⟩
  | @gather _ limit eager taken flows k hf hk ihf ihk =>
    intro now s
    obtain ⟨h, hgathered, -, hrecord⟩ := pollEach_follows now limit eager ihf 0 taken s
    simp only [recorded, poll_gather, hrecord]
    generalize pollEach now limit eager 0 taken flows s = polled at hgathered
    -- what follows the flows once they are over
    have hover : ∀ r u, Together taken flows h (.done r) →
        ∃ h', Leads (.gather limit eager taken flows k) h' (poll now (k r) u).1 ∧
          ∀ past, poll now (k r).recorded (u, past ++ h) =
            ((poll now (k r) u).1.recorded, (poll now (k r) u).2, past ++ h') := by
      intro r u ht
      obtain ⟨h', hlead, hrecord'⟩ := ihk r now u
      refine ⟨h ++ h', fun h'' e hd => ?_, fun past => ?_⟩
      · rw [List.append_assoc]
        exact ht.goes (hlead _ _ hd)
      · rw [hrecord', List.append_assoc]
    rcases polled with ⟨⟨taken', _ | ⟨g, gs⟩⟩ | e | t, u⟩
    · refine hover (.ok taken') u ?_
      have hnone : Joined Makes Merges ([] : List (Flow σ ε β (Except ε (List β)))) [] [] :=
        ⟨[], .nil, .nil, rfl⟩
      have hnil := hgathered [] _ (.all hnone)
      rwa [List.append_nil, List.append_nil] at hnil
    · refine ⟨h, fun h' e hd => ?_, fun past => rfl⟩
      rcases does_gather hd with ⟨rfl, ht⟩ | ⟨h₁, h₂, r, rfl, ht, hk'⟩ | ⟨t, rfl, ht⟩
      · obtain ⟨xs, hx⟩ := together_unfinished (hgathered _ _ ht)
        exact .gathering hx.1 hx.2
      · rw [← List.append_assoc]
        exact (hgathered _ _ ht).goes hk'
      · exact (hgathered _ _ ht).breaks
    · exact hover (.error e) u hgathered
    · refine ⟨h, fun h' e hd => ?_, fun past => rfl⟩
      cases hd with
      | begins =>
        rw [List.append_nil]
        obtain ⟨xs, hx, -⟩ := together_break (b := .panic t) hgathered
        exact .gathering hx.1 hx.2
      | panicked =>
        rw [List.append_nil]
        exact hgathered.breaks

theorem poll_recorded (now : Nat) (f : Flow σ ε β α) (s : σ) (past : List (Event σ)) :
    poll now (recorded f) (s, past) =
      (recorded (poll now f s).1, (poll now f s).2, past ++ events now f s) := by
  obtain ⟨h, -, hrecord⟩ := poll_follows f now s
  rw [hrecord, events, hrecord, List.nil_append]

theorem events_leads (now : Nat) (f : Flow σ ε β α) (s : σ) :
    Leads f (events now f s) (poll now f s).1 := by
  obtain ⟨h, hlead, hrecord⟩ := poll_follows f now s
  rw [events, hrecord, List.nil_append]
  exact hlead

/-! ## Schedules -/

/-- For each poll its time and the state that it finds. -/
abbrev Schedule (σ : Type) := Nat → Nat × σ

/-- The clock passes every time and stays behind none. -/
def Schedule.Fair (p : Schedule σ) : Prop := ∀ t, ∃ n, ∀ m, n ≤ m → t ≤ (p m).1

/-- What is left of a flow after so many polls. -/
def after (p : Schedule σ) (f : Flow σ ε β α) : Nat → Flow σ ε β α
  | 0 => f
  | n + 1 => (poll (p n).1 (after p f n) (p n).2).1

/-- What the flow has done in so many polls. -/
def history (p : Schedule σ) (f : Flow σ ε β α) : Nat → List (Event σ)
  | 0 => []
  | n + 1 => history p f n ++ events (p n).1 (after p f n) (p n).2

/-- The end of a flow that has come to it. -/
def end? : Flow σ ε β α → Option (End α)
  | .done a => some (.done a)
  | .panicked t => some (.panicked t)
  | _ => none

theorem history_leads (p : Schedule σ) (f : Flow σ ε β α) (n : Nat) :
    Leads f (history p f n) (after p f n) := by
  induction n with
  | zero => exact .refl f
  | succ n ih => exact ih.trans (events_leads (p n).1 (after p f n) (p n).2)

theorem does_of_end {f : Flow σ ε β α} {e : End α} (h : f.end? = some e) : Does f [] e := by
  unfold end? at h
  split at h <;> cases h
  · exact .done _
  · exact .panicked _

theorem finished_of_end {f : Flow σ ε β α} {e : End α} (h : f.end? = some e) : e ≠ .unfinished := by
  unfold end? at h
  split at h <;> cases h <;> exact nofun

/-! ### Every flow ends -/

def EndsOn (p : Schedule σ) (f : Flow σ ε β α) : Prop := ∃ n e, (after p f n).end? = some e

/-- The flow comes to its end whatever happens between its polls. -/
def Ends (f : Flow σ ε β α) : Prop := ∀ p : Schedule σ, p.Fair → EndsOn p f

/-- The schedule from the second poll on. -/
def Schedule.rest (p : Schedule σ) : Schedule σ := fun n => p (n + 1)

theorem Schedule.Fair.rest {p : Schedule σ} (hp : p.Fair) : p.rest.Fair := by
  intro t
  obtain ⟨n, hn⟩ := hp t
  exact ⟨n, fun m hm => hn (m + 1) (Nat.le_succ_of_le hm)⟩

theorem after_rest (p : Schedule σ) (f : Flow σ ε β α) (n : Nat) :
    after p f (n + 1) = after p.rest (poll (p 0).1 f (p 0).2).1 n := by
  induction n with
  | zero => rfl
  | succ n ih => rw [after, ih]; rfl

theorem EndsOn.of_rest {p : Schedule σ} {f : Flow σ ε β α}
    (h : EndsOn p.rest (poll (p 0).1 f (p 0).2).1) : EndsOn p f := by
  obtain ⟨n, e, h⟩ := h
  exact ⟨n + 1, e, by rw [after_rest]; exact h⟩

theorem poll_end {f : Flow σ ε β α} {e : End α} (h : f.end? = some e) (now : Nat) (s : σ) :
    (poll now f s).1 = f := by
  unfold end? at h
  split at h <;> cases h <;> rfl

/-- A flow of a gather that has come to its end does not stay if no other is held before it. -/
theorem fate_end {eager : Bool} {f : Flow σ ε β (Except ε (List β))}
    {e : End (Except ε (List β))} (h : f.end? = some e) : fate eager 0 f ≠ .stays := by
  rcases f with r | _ | _ | _ | _ | _
  · cases r <;> simp [fate]
  all_goals simp [fate, end?] at h ⊢

theorem Ends.poll {f : Flow σ ε β α} (h : Ends f) (now : Nat) (s : σ) : Ends (poll now f s).1 := by
  intro p hp
  let before : Schedule σ := fun n => Nat.casesOn n (now, s) p
  have hfair : before.Fair := by
    intro t
    obtain ⟨n, hn⟩ := hp t
    refine ⟨n + 1, fun m hm => ?_⟩
    cases m with
    | zero => exact absurd hm (Nat.not_succ_le_zero n)
    | succ m => exact hn m (Nat.le_of_succ_le_succ hm)
  obtain ⟨n, e, he⟩ := h before hfair
  cases n with
  | zero =>
    have hend : f.end? = some e := he
    exact ⟨0, e, by rw [after, poll_end hend]; exact hend⟩
  | succ n => exact ⟨n, e, by rw [after_rest] at he; exact he⟩

theorem Ends.of_poll {f : Flow σ ε β α} (h : ∀ now s, Ends (Flow.poll now f s).1) : Ends f :=
  fun _ hp => .of_rest (h _ _ _ hp.rest)

/-- The induction is on the poll at which the time has come. -/
theorem Ends.wait {k : Flow σ ε β α} (hk : Ends k) (t : Nat) : Ends (.wait t k) := by
  intro p hp
  obtain ⟨n, hn⟩ : ∃ n, t ≤ (p n).1 := (hp t).imp fun n hn => hn n (Nat.le_refl n)
  induction n generalizing p with
  | zero =>
    refine .of_rest ?_
    rw [Flow.poll, if_pos hn]
    exact hk.poll _ _ _ hp.rest
  | succ n ih =>
    refine .of_rest ?_
    unfold Flow.poll
    split
    · exact hk.poll _ _ _ hp.rest
    · exact ih p.rest hp.rest hn

/-- At most so many flows are left, all of which end. -/
def Turn.Within (n : Nat) : Turn σ ε β → Prop
  | .left _ flows => flows.length ≤ n ∧ ∀ f ∈ flows, Ends f
  | _ => True

section
variable {flows : List (Flow σ ε β (Except ε (List β)))}

theorem Turn.Within.hold {n : Nat} {turn : Turn σ ε β} (ht : turn.Within n)
    {f : Flow σ ε β (Except ε (List β))} (hf : Ends f) : (turn.hold f).Within (n + 1) := by
  cases turn with
  | left taken flows =>
    refine ⟨Nat.succ_le_succ ht.1, fun g hg => ?_⟩
    rcases List.mem_cons.mp hg with rfl | hg
    · exact hf
    · exact ht.2 g hg
  | failed e => trivial
  | panicked t => trivial

theorem Turn.Within.mono {m n : Nat} {turn : Turn σ ε β} (ht : turn.Within m) (hle : m ≤ n) :
    turn.Within n := by
  cases turn with
  | left taken flows => exact ⟨Nat.le_trans ht.1 hle, ht.2⟩
  | failed e => trivial
  | panicked t => trivial

theorem pollEach_within (now limit : Nat) (eager : Bool) (hf : ∀ f ∈ flows, Ends f) (held : Nat)
    (taken : List β) (s : σ) :
    (pollEach now limit eager held taken flows s).1.Within flows.length := by
  induction flows generalizing held taken s with
  | nil => exact ⟨Nat.le_refl 0, nofun⟩
  | cons f fs ih =>
    have ih := ih fun g hg => hf g (List.mem_cons_of_mem _ hg)
    by_cases hheld : held < max 1 limit
    · rw [pollEach_cons hheld]
      split
      · trivial
      · trivial
      · exact (ih _ _ _).mono (Nat.le_succ _)
      · exact (ih _ _ _).hold ((hf f List.mem_cons_self).poll now s)
    · rw [pollEach_full hheld]
      exact ⟨Nat.le_refl _, hf⟩

variable {limit : Nat} {eager : Bool} {k : Except ε (List β) → Flow σ ε β α} {n : Nat}

theorem Turn.Within.proceed {turn : Turn σ ε β} (ht : turn.Within n) (hk : ∀ r, Ends (k r))
    (hfew : ∀ (taken : List β) (flows : List (Flow σ ε β (Except ε (List β)))), flows.length ≤ n →
      (∀ f ∈ flows, Ends f) → Ends (.gather limit eager taken flows k)) (now : Nat) (s : σ) :
    Ends (proceed now limit eager k (turn, s)).1 := by
  rcases turn with ⟨taken, _ | ⟨f, fs⟩⟩ | e | t
  · exact (hk _).poll now s
  · exact hfew taken (f :: fs) ht.1 ht.2
  · exact (hk _).poll now s
  · exact fun p hp => ⟨0, _, rfl⟩

/-- The first flow of a gather is polled whenever the gather is: it is taken, and fewer flows are
left, or it stops the gather, or it stays the first. -/
theorem EndsOn.gather_cons (hk : ∀ r, Ends (k r))
    (hfew : ∀ (taken : List β) (flows : List (Flow σ ε β (Except ε (List β)))), flows.length ≤ n →
      (∀ f ∈ flows, Ends f) → Ends (.gather limit eager taken flows k))
    {p : Schedule σ} (hp : p.Fair) {f : Flow σ ε β (Except ε (List β))} (taken : List β)
    (hlen : flows.length ≤ n) (hends : ∀ g ∈ flows, Ends g)
    (hstays : fate eager 0 (poll (p 0).1 f (p 0).2).1 = .stays → ∀ (taken : List β) (flows),
      flows.length ≤ n → (∀ g ∈ flows, Ends g) →
        EndsOn p.rest (.gather limit eager taken ((poll (p 0).1 f (p 0).2).1 :: flows) k)) :
    EndsOn p (.gather limit eager taken (f :: flows) k) := by
  have hstart : 0 < max 1 limit := by omega
  refine .of_rest ?_
  rw [poll_gather, pollEach_cons hstart]
  generalize poll (p 0).1 f (p 0).2 = polled at hstays
  obtain ⟨g, u⟩ := polled
  dsimp only at hstays ⊢
  cases hfate : fate eager 0 g with
  | panics t => exact ⟨0, _, rfl⟩
  | fails x => exact (hk _).poll _ _ _ hp.rest
  | taken bs =>
    have hturn := pollEach_within (p 0).1 limit eager hends 0 (taken ++ bs) u
    exact (hturn.mono hlen).proceed hk hfew _ _ _ hp.rest
  | stays =>
    have hturn := pollEach_within (p 0).1 limit eager hends 1 taken u
    dsimp only
    generalize pollEach (p 0).1 limit eager 1 taken flows u = r at hturn
    obtain ⟨turn, v⟩ := r
    cases turn with
    | left taken' rest => exact hstays hfate taken' rest (Nat.le_trans hturn.1 hlen) hturn.2
    | failed x => exact (hk _).poll _ _ _ hp.rest
    | panicked t => exact ⟨0, _, rfl⟩

/-- The induction is on the poll that ends the first flow. -/
theorem EndsOn.gather (hk : ∀ r, Ends (k r))
    (hfew : ∀ (taken : List β) (flows : List (Flow σ ε β (Except ε (List β)))), flows.length ≤ n →
      (∀ f ∈ flows, Ends f) → Ends (.gather limit eager taken flows k))
    {p : Schedule σ} (hp : p.Fair) {f : Flow σ ε β (Except ε (List β))} (hf : EndsOn p f)
    (taken : List β) (hlen : flows.length ≤ n) (hends : ∀ g ∈ flows, Ends g) :
    EndsOn p (.gather limit eager taken (f :: flows) k) := by
  obtain ⟨polls, e, he⟩ := hf
  induction polls generalizing p f taken flows with
  | zero =>
    have hend : f.end? = some e := he
    refine .gather_cons hk hfew hp taken hlen hends fun hstays => ?_
    rw [poll_end hend] at hstays
    exact absurd hstays (fate_end hend)
  | succ polls ih =>
    rw [after_rest] at he
    exact .gather_cons hk hfew hp taken hlen hends fun _ taken rest hlen hends =>
      ih hp.rest taken hlen hends he

theorem Ends.gather (hf : ∀ f ∈ flows, Ends f) (hk : ∀ r, Ends (k r)) (taken : List β) :
    Ends (.gather limit eager taken flows k) := by
  have hnil : ∀ taken, Ends (.gather limit eager taken [] k) := fun taken =>
    .of_poll fun now s => (hk (.ok taken)).poll now s
  have hall : ∀ n (taken : List β) (flows : List (Flow σ ε β (Except ε (List β)))),
      flows.length ≤ n → (∀ f ∈ flows, Ends f) → Ends (.gather limit eager taken flows k) := by
    intro n
    induction n with
    | zero =>
      intro taken flows hlen _
      cases List.eq_nil_of_length_eq_zero (Nat.le_zero.mp hlen)
      exact hnil taken
    | succ n ihn =>
      intro taken flows hlen hf p hp
      cases flows with
      | nil => exact hnil taken p hp
      | cons f fs =>
        exact .gather hk ihn hp (hf f List.mem_cons_self p hp) taken
          (Nat.le_of_succ_le_succ hlen) fun g hg => hf g (List.mem_cons_of_mem _ hg)
  exact hall flows.length taken flows (Nat.le_refl _) hf

end

theorem ends (f : Flow σ ε β α) : Ends f := by
  induction keeps_anything f with
  | done a => exact fun p hp => ⟨0, _, rfl⟩
  | panicked t => exact fun p hp => ⟨0, _, rfl⟩
  | act hf hk ih => exact .of_poll fun now s => (ih _).poll now _
  | clock hk ih => exact .of_poll fun now s => (ih now).poll now s
  | wait hk ih => exact ih.wait _
  | gather hf hk ihf ihk => exact .gather ihf ihk _

/-! ### Flows that break off -/

section
variable {m : Flow σ ε β α} {f : α → Flow σ ε β γ}

theorem recorded_bind (m : Flow σ ε β α) (f : α → Flow σ ε β γ) :
    recorded (m.bind f) = (recorded m).bind fun a => recorded (f a) := by
  induction keeps_anything m with
  | done a => rfl
  | panicked t => rfl
  | act _ _ ih => simp only [bind, recorded, ih]
  | clock _ ih => simp only [bind, recorded, ih]
  | wait _ ih => simp only [bind, recorded, ih]
  | gather _ _ _ ih => simp only [bind, recorded, ih]

/-- What follows a flow is not polled before the flow is over, nor has it anything to do after one
that breaks off. -/
theorem poll_bind {now : Nat} {s : σ}
    (h : ∀ a, (poll now m s).1 = .done a → ∀ u, poll now (f a) u = (f a, u)) :
    poll now (m.bind f) s = ((poll now m s).1.bind f, (poll now m s).2) := by
  induction keeps_anything m generalizing s with
  | done a => exact h a rfl s
  | panicked t => rfl
  | act _ _ ih => exact ih _ h
  | clock _ ih => exact ih now h
  | wait _ ih =>
    simp only [poll] at h
    simp only [bind, poll]
    split
    · next hnow =>
      rw [if_pos hnow] at h
      exact ih h
    · rfl
  | gather _ _ _ ih =>
    rw [poll_gather] at h
    rw [bind, poll_gather, poll_gather]
    generalize pollEach now _ _ 0 _ _ s = polled at h
    rcases polled with ⟨⟨taken, _ | ⟨g, gs⟩⟩ | e | t, u⟩
    · exact ih _ h
    · rfl
    · exact ih _ h
    · rfl

end

section
variable {δ : Type} {m : Flow σ ε β (Except δ α)} {f : α → Flow σ ε β (Except δ γ)}

theorem recorded_andThen : recorded (m.andThen f) = (recorded m).andThen fun a => recorded (f a) := by
  unfold andThen
  rw [recorded_bind]
  congr 1
  funext r
  cases r <;> rfl

theorem end?_recorded (g : Flow σ ε β α) : (recorded g).end? = g.end? := by
  cases g <;> rfl

/-- As long as a flow has no result, what follows it is not polled. -/
theorem poll_andThen {now : Nat} {s : σ}
    (h : ∀ a, (poll now m s).1.end? ≠ some (.done (.ok a))) :
    poll now (m.andThen f) s = ((poll now m s).1.andThen f, (poll now m s).2) := by
  refine poll_bind fun r hr u => ?_
  cases r with
  | ok a =>
    rw [hr] at h
    exact absurd rfl (h a)
  | error e => rfl

theorem events_andThen {now : Nat} {s : σ}
    (h : ∀ a, (poll now m s).1.end? ≠ some (.done (.ok a))) :
    events now (m.andThen f) s = events now m s := by
  unfold events
  rw [recorded_andThen, poll_andThen]
  rw [poll_recorded]
  simpa only [end?_recorded] using h

theorem after_andThen {p : Schedule σ} {n : Nat}
    (h : ∀ a, (after p m n).end? ≠ some (.done (.ok a))) :
    after p (m.andThen f) n = (after p m n).andThen f ∧
      history p (m.andThen f) n = history p m n := by
  induction n with
  | zero => exact ⟨rfl, rfl⟩
  | succ n ih =>
    -- a flow that had a result would have kept it
    have hbefore : ∀ a, (after p m n).end? ≠ some (.done (.ok a)) := by
      intro a ha
      have hstays := poll_end ha (p n).1 (p n).2
      refine h a ?_
      rw [after, hstays, ha]
    obtain ⟨hafter, hhistory⟩ := ih hbefore
    rw [after, history, history, hafter, hhistory, poll_andThen h, events_andThen h]
    exact ⟨rfl, rfl⟩

/-- **A flow that breaks off breaks off what would follow it**, at the same poll and with nothing
else done. -/
theorem breaks_andThen {p : Schedule σ} {n : Nat} {b : Break δ}
    (h : (after p m n).end? = some b.end) :
    (after p (m.andThen f) n).end? = some b.end ∧
      history p (m.andThen f) n = history p m n := by
  obtain ⟨hafter, hhistory⟩ := after_andThen (f := f) fun a ha => by
    rw [h] at ha
    exact b.fails a (Option.some.inj ha)
  refine ⟨?_, hhistory⟩
  rw [hafter]
  generalize after p m n = g at h
  unfold end? at h
  cases b <;> split at h <;> cases h <;> rfl

end

/-- What a flow has done that is over. -/
theorem history_does {p : Schedule σ} {f : Flow σ ε β α} {n : Nat} {e : End α}
    (h : (after p f n).end? = some e) : Does f (history p f n) e :=
  (history_leads p f n).does (does_of_end h)

/-- **A flow that is polled for long enough is over**, and this is exactly what it has done. -/
theorem ends_does {p : Schedule σ} (hp : p.Fair) (f : Flow σ ε β α) :
    ∃ n e, (after p f n).end? = some e ∧ e ≠ .unfinished ∧ Does f (history p f n) e := by
  obtain ⟨n, e, he⟩ := ends f p hp
  exact ⟨n, e, he, finished_of_end he, history_does he⟩

/-- **A flow that is polled for long enough is over, and has made one of its runs.** -/
theorem ends_runs {p : Schedule σ} (hp : p.Fair) (f : Flow σ ε β α) :
    ∃ n e, (after p f n).end? = some e ∧ Runs f (history p f n) e := by
  obtain ⟨n, e, he, hfinished, hd⟩ := ends_does hp f
  exact ⟨n, e, he, hd.runs hfinished⟩

end Flow

end Relay
