import Relay.Proofs.Runs
/-!
# How far flows have come

`Does f h e` says what a flow may have done so far: exactly the events `h`, in order, and the end `e`
that it has come to, if it has come to one. Flows that run side by side have each done a part, and
their events are merged, nothing left out and nothing added, also where one of them has failed and
the others were dropped (`Together`).

What a built flow has done comes apart into what its parts have done (`does_bind`, `does_andThen`). Of
flows in turn either all have come to their results, or those before one that broke off have, and
those behind it have done nothing (`does_inTurn`).
-/
namespace Relay

namespace Flow

variable {σ ε β α γ : Type}

/-! ## Ends without a result -/

/-- Why a flow has come to no result. -/
inductive Break (ε : Type)
  | error (e : ε)
  | panic (text : String)
  deriving DecidableEq, Repr

/-- The end of a flow that broke off. -/
def Break.end : Break ε → End (Except ε α)
  | .error e => .done (.error e)
  | .panic t => .panicked t

theorem Break.fails (b : Break ε) : End.Fails (b.end : End (Except ε α)) := by
  cases b <;> exact nofun

theorem Break.finished (b : Break ε) : (b.end : End (Except ε α)) ≠ .unfinished := by
  cases b <;> exact nofun

theorem Break.end_inj {b b' : Break ε} (h : (b.end : End (Except ε α)) = b'.end) : b = b' := by
  cases b <;> cases b' <;> cases h <;> rfl

section
variable {P : α → Prop} {Q : Break ε → Prop}

/-- A flow that has a result did not break off. -/
theorem result_of_cases {a : α} (h : (∃ a', (.done (.ok a) : End (Except ε α)) = .done (.ok a') ∧ P a') ∨
    ∃ b : Break ε, (.done (.ok a) : End (Except ε α)) = b.end ∧ Q b) : P a := by
  rcases h with ⟨_, heq, ha⟩ | ⟨b, heq, -⟩
  · cases heq
    exact ha
  · exact absurd heq.symm (b.fails a)

/-- A flow that broke off has no result. -/
theorem break_of_cases {b : Break ε} (h : (∃ a, (b.end : End (Except ε α)) = .done (.ok a) ∧ P a) ∨
    ∃ b' : Break ε, (b.end : End (Except ε α)) = b'.end ∧ Q b') : Q b := by
  rcases h with ⟨a, heq, -⟩ | ⟨b', heq, hb⟩
  · exact absurd heq (b.fails a)
  · cases Break.end_inj heq
    exact hb

end

/-! ## Deeds -/

/-- What a flow may have done: its events so far, in order, and its end, which is `unfinished` while
the flow goes on. A change may find the state in any way, and the clock may show any time. -/
inductive Does : {α : Type} → Flow σ ε β α → List (Event σ) → End α → Prop
  | begins {α : Type} (f : Flow σ ε β α) : Does f [] .unfinished
  | done {α : Type} (a : α) : Does (.done a) [] (.done a)
  | panicked {α : Type} (t : String) : Does (.panicked t : Flow σ ε β α) [] (.panicked t)
  | act {α γ : Type} {f : σ → γ × σ} {k : γ → Flow σ ε β α} {h : List (Event σ)} {e : End α} (s : σ)
    (hk : Does (k (f s).1) h e) : Does (.act f k) (.change s (f s).2 :: h) e
  | clock {α : Type} {k : Nat → Flow σ ε β α} {h : List (Event σ)} {e : End α} (now : Nat)
    (hk : Does (k now) h e) : Does (.clock k) (.reading now :: h) e
  | wait {α : Type} {t : Nat} {k : Flow σ ε β α} {h : List (Event σ)} {e : End α}
    (hk : Does k h e) : Does (.wait t k) h e
  /-- Flows side by side have each done a part, -/
  | gathering {α : Type} {limit : Nat} {eager : Bool} {taken : List β}
    {flows : List (Flow σ ε β (Except ε (List β)))} {k : Except ε (List β) → Flow σ ε β α}
    {xs : List (List (Event σ) × End (Except ε (List β)))} {h : List (Event σ)}
    (hf : List.Forall₂ (fun f x => Does f x.1 x.2) flows xs) (hm : Merges (xs.map Prod.fst) h) :
    Does (.gather limit eager taken flows k) h .unfinished
  /-- or all have come to their results, -/
  | gathered {α : Type} {limit : Nat} {eager : Bool} {taken : List β}
    {flows : List (Flow σ ε β (Except ε (List β)))} {k : Except ε (List β) → Flow σ ε β α}
    {xs : List (List (Event σ) × List β)} {h h' : List (Event σ)} {e : End α}
    (hf : List.Forall₂ (fun f x => Does f x.1 (.done (.ok x.2))) flows xs)
    (hm : Merges (xs.map Prod.fst) h) (hk : Does (k (.ok (taken ++ xs.flatMap Prod.snd))) h' e) :
    Does (.gather limit eager taken flows k) (h ++ h') e
  /-- or one has failed, and the others do no more, -/
  | failed {α : Type} {limit : Nat} {eager : Bool} {taken : List β}
    {flows : List (Flow σ ε β (Except ε (List β)))} {k : Except ε (List β) → Flow σ ε β α}
    {xs : List (List (Event σ) × End (Except ε (List β)))} {x : ε} {h h' : List (Event σ)} {e : End α}
    (hf : List.Forall₂ (fun f x => Does f x.1 x.2) flows xs) (hm : Merges (xs.map Prod.fst) h)
    (hx : .done (.error x) ∈ xs.map Prod.snd) (hk : Does (k (.error x)) h' e) :
    Does (.gather limit eager taken flows k) (h ++ h') e
  /-- or has panicked. -/
  | broken {α : Type} {limit : Nat} {eager : Bool} {taken : List β}
    {flows : List (Flow σ ε β (Except ε (List β)))} {k : Except ε (List β) → Flow σ ε β α}
    {xs : List (List (Event σ) × End (Except ε (List β)))} {t : String} {h : List (Event σ)}
    (hf : List.Forall₂ (fun f x => Does f x.1 x.2) flows xs) (hm : Merges (xs.map Prod.fst) h)
    (hx : .panicked t ∈ xs.map Prod.snd) : Does (.gather limit eager taken flows k) h (.panicked t)

/-- The flow has come to the results. -/
def Makes (f : Flow σ ε β (Except ε (List β))) (h : List (Event σ)) (bs : List β) : Prop :=
  Does f h (.done (.ok bs))

/-- Each of the flows has done a part, whose events are merged. -/
def Apart (flows : List (Flow σ ε β (Except ε (List β))))
    (xs : List (List (Event σ) × End (Except ε (List β)))) (h : List (Event σ)) : Prop :=
  List.Forall₂ (fun f x => Does f x.1 x.2) flows xs ∧ Merges (xs.map Prod.fst) h

theorem Apart.cons {f : Flow σ ε β (Except ε (List β))} {flows : List (Flow σ ε β (Except ε (List β)))}
    {xs : List (List (Event σ) × End (Except ε (List β)))} {h h' h'' : List (Event σ)}
    {e : End (Except ε (List β))} (hf : Does f h e) (hx : Apart flows xs h')
    (hm : Merge h h' h'') : Apart (f :: flows) ((h, e) :: xs) h'' :=
  ⟨.cons hf hx.1, .cons hm hx.2⟩

/-- What the flows of a gather have done together, and what has come of it: they go on, or all have
come to their results, or one of them broke off. -/
inductive Together (taken : List β) (flows : List (Flow σ ε β (Except ε (List β))))
    (h : List (Event σ)) : End (Except ε (List β)) → Prop
  | going {xs} (hx : Apart flows xs h) : Together taken flows h .unfinished
  | all {bs : List β} (hj : Joined Makes Merges flows h bs) :
    Together taken flows h (.done (.ok (taken ++ bs)))
  | stopped {xs} (hx : Apart flows xs h) (b : Break ε) (hb : b.end ∈ xs.map Prod.snd) :
    Together taken flows h b.end

section
variable {limit : Nat} {eager : Bool} {taken : List β}
  {flows : List (Flow σ ε β (Except ε (List β)))} {k : Except ε (List β) → Flow σ ε β α}
  {h h' : List (Event σ)} {e : End α}

theorem together_unfinished (ht : Together taken flows h .unfinished) :
    ∃ xs, Apart flows xs h := by
  generalize he : (.unfinished : End (Except ε (List β))) = e at ht
  cases ht with
  | going hx => exact ⟨_, hx⟩
  | all => cases he
  | stopped _ b => exact absurd he.symm b.finished

theorem together_ok {bs : List β} (ht : Together taken flows h (.done (.ok bs))) :
    ∃ cs, Joined Makes Merges flows h cs ∧ bs = taken ++ cs := by
  generalize he : (.done (.ok bs) : End (Except ε (List β))) = e at ht
  cases ht with
  | going => cases he
  | all hj => cases he; exact ⟨_, hj, rfl⟩
  | stopped _ b => exact absurd he.symm (b.fails bs)

theorem together_break {b : Break ε} (ht : Together taken flows h b.end) :
    ∃ xs, Apart flows xs h ∧ b.end ∈ xs.map Prod.snd := by
  generalize he : (b.end : End (Except ε (List β))) = e at ht
  cases ht with
  | going => exact absurd he b.finished
  | all => exact absurd he (b.fails _)
  | stopped hx b' hb => exact ⟨_, hx, he ▸ hb⟩

theorem Together.goes {r : Except ε (List β)} (ht : Together taken flows h (.done r))
    (hk : Does (k r) h' e) : Does (.gather limit eager taken flows k) (h ++ h') e := by
  cases r with
  | ok bs =>
    obtain ⟨_, ⟨xs, hf, hm, rfl⟩, rfl⟩ := together_ok ht
    exact .gathered hf hm hk
  | error x =>
    obtain ⟨xs, ⟨hf, hm⟩, hx⟩ := together_break (b := .error x) ht
    exact .failed hf hm hx hk

theorem Together.breaks {t : String} (ht : Together taken flows h (.panicked t)) :
    Does (.gather limit eager taken flows k) h (.panicked t) := by
  obtain ⟨xs, ⟨hf, hm⟩, hx⟩ := together_break (b := .panic t) ht
  exact .broken hf hm hx

/-- Flows that have done nothing yet. -/
theorem apart_begins (flows : List (Flow σ ε β (Except ε (List β)))) :
    Apart flows (flows.map fun _ => ([], .unfinished)) [] := by
  induction flows with
  | nil => exact ⟨.nil, .nil⟩
  | cons f fs ih => exact .cons (.begins f) ih .nil

theorem does_done {a : α} {h : List (Event σ)} {e : End α}
    (hd : Does (.done a : Flow σ ε β α) h e) (he : e ≠ .unfinished) : h = [] ∧ e = .done a := by
  cases hd with
  | begins => exact absurd rfl he
  | done => exact ⟨rfl, rfl⟩

/-- What a gather has done is what its flows have, and then what follows them. -/
theorem does_gather (hd : Does (.gather limit eager taken flows k) h e) :
    (e = .unfinished ∧ Together taken flows h .unfinished) ∨
    (∃ h₁ h₂ r, h = h₁ ++ h₂ ∧ Together taken flows h₁ (.done r) ∧ Does (k r) h₂ e) ∨
    ∃ t, e = .panicked t ∧ Together taken flows h (.panicked t) := by
  cases hd with
  | begins => exact .inl ⟨rfl, .going (apart_begins flows)⟩
  | gathering hf hm => exact .inl ⟨rfl, .going ⟨hf, hm⟩⟩
  | gathered hf hm hk => exact .inr (.inl ⟨_, _, .ok _, rfl, .all ⟨_, hf, hm, rfl⟩, hk⟩)
  | failed hf hm hx hk =>
    exact .inr (.inl ⟨_, _, .error _, rfl, .stopped ⟨hf, hm⟩ (.error _) hx, hk⟩)
  | broken hf hm hx => exact .inr (.inr ⟨_, rfl, .stopped ⟨hf, hm⟩ (.panic _) hx⟩)

end

/-! ## Built flows -/

/-- A flow and what follows it, unless the flow panics. -/
theorem does_bind {m : Flow σ ε β α} {f : α → Flow σ ε β γ} {h : List (Event σ)} {e : End γ}
    (hd : Does (m.bind f) h e) (he : e ≠ .unfinished) :
    (∃ h₁ h₂ a, h = h₁ ++ h₂ ∧ Does m h₁ (.done a) ∧ Does (f a) h₂ e) ∨
    ∃ t, e = .panicked t ∧ Does m h (.panicked t) := by
  induction keeps_anything m generalizing h with
  | done a => exact .inl ⟨[], h, a, rfl, .done a, hd⟩
  | panicked t =>
    cases hd with
    | begins => exact absurd rfl he
    | panicked => exact .inr ⟨t, rfl, .panicked t⟩
  | act _ _ ih =>
    cases hd with
    | begins => exact absurd rfl he
    | act s hk =>
      rcases ih _ hk with ⟨h₁, h₂, a, rfl, hm, hf⟩ | ⟨t, rfl, hm⟩
      · exact .inl ⟨_ :: h₁, h₂, a, rfl, .act s hm, hf⟩
      · exact .inr ⟨t, rfl, .act s hm⟩
  | clock _ ih =>
    cases hd with
    | begins => exact absurd rfl he
    | clock now hk =>
      rcases ih now hk with ⟨h₁, h₂, a, rfl, hm, hf⟩ | ⟨t, rfl, hm⟩
      · exact .inl ⟨_ :: h₁, h₂, a, rfl, .clock now hm, hf⟩
      · exact .inr ⟨t, rfl, .clock now hm⟩
  | wait _ ih =>
    cases hd with
    | begins => exact absurd rfl he
    | wait hk =>
      rcases ih hk with ⟨h₁, h₂, a, rfl, hm, hf⟩ | ⟨t, rfl, hm⟩
      · exact .inl ⟨h₁, h₂, a, rfl, .wait hm, hf⟩
      · exact .inr ⟨t, rfl, .wait hm⟩
  | gather _ _ _ ih =>
    rcases does_gather hd with ⟨rfl, -⟩ | ⟨h₁, h₂, r, rfl, ht, hk⟩ | ⟨t, rfl, ht⟩
    · exact absurd rfl he
    · rcases ih r hk with ⟨h₃, h₄, a, rfl, hm, hf⟩ | ⟨t, rfl, hm⟩
      · exact .inl ⟨h₁ ++ h₃, h₄, a, (List.append_assoc ..).symm, ht.goes hm, hf⟩
      · exact .inr ⟨t, rfl, ht.goes hm⟩
    · exact .inr ⟨t, rfl, ht.breaks⟩

/-- A flow up to its result and what follows that, unless the flow breaks off. -/
theorem does_andThen {δ δ' : Type} {m : Flow σ ε β (Except δ α)}
    {f : α → Flow σ ε β (Except δ δ')} {h : List (Event σ)} {e : End (Except δ δ')}
    (hd : Does (m.andThen f) h e) (he : e ≠ .unfinished) :
    (∃ h₁ h₂ a, h = h₁ ++ h₂ ∧ Does m h₁ (.done (.ok a)) ∧ Does (f a) h₂ e) ∨
    ∃ b : Break δ, e = b.end ∧ Does m h b.end := by
  rcases does_bind hd he with ⟨h₁, h₂, r, rfl, hm, hf⟩ | ⟨t, rfl, hm⟩
  · cases r with
    | ok a => exact .inl ⟨h₁, h₂, a, rfl, hm, hf⟩
    | error x =>
      obtain ⟨rfl, rfl⟩ := does_done hf he
      rw [List.append_nil]
      exact .inr ⟨.error x, rfl, hm⟩
  · exact .inr ⟨.panic t, rfl, hm⟩

/-- A flow in turn broke off: those before it have come to their results, and those behind it have
done nothing. -/
def Stopped {ι : Type*} (Did : ι → List (Event σ) → List β → Prop)
    (Broke : ι → List (Event σ) → Break ε → Prop) (is : List ι) (h : List (Event σ))
    (b : Break ε) : Prop :=
  ∃ before i after h₁ h₂ bs, is = before ++ i :: after ∧ h = h₁ ++ h₂ ∧
    Joined Did InOrder before h₁ bs ∧ Broke i h₂ b

/-- One of those side by side broke off, after each has done a part of its own. -/
def CutShort {ι : Type*} (Part : ι → List (Event σ) → End (Except ε (List β)) → Prop)
    (Broke : ι → List (Event σ) → Break ε → Prop) (is : List ι) (h : List (Event σ))
    (b : Break ε) : Prop :=
  ∃ xs, List.Forall₂ (fun i x => Part i x.1 x.2) is xs ∧ Merges (xs.map Prod.fst) h ∧
    ∃ i ∈ is, ∃ h', (h', b.end) ∈ xs ∧ Broke i h' b

/-- The flow broke off. -/
def Breaks (f : Flow σ ε β (Except ε (List β))) (h : List (Event σ)) (b : Break ε) : Prop :=
  Does f h b.end

theorem Joined.nil {ι : Type*} {Did : ι → List (Event σ) → List β → Prop} :
    Joined Did InOrder [] [] [] :=
  ⟨[], .nil, rfl, rfl⟩

theorem Joined.cons {ι : Type*} {Did : ι → List (Event σ) → List β → Prop} {i : ι} {is : List ι}
    {h h' : List (Event σ)} {bs bs' : List β} (hi : Did i h bs) (hj : Joined Did InOrder is h' bs') :
    Joined Did InOrder (i :: is) (h ++ h') (bs ++ bs') := by
  obtain ⟨xs, hxs, rfl, rfl⟩ := hj
  exact ⟨(h, bs) :: xs, .cons hi hxs, rfl, rfl⟩

section
variable {ι κ : Type*} {Did : ι → List (Event σ) → List β → Prop}
  {Part : ι → List (Event σ) → End (Except ε (List β)) → Prop}
  {Broke : ι → List (Event σ) → Break ε → Prop} {Did' : κ → List (Event σ) → List β → Prop}
  {Part' : κ → List (Event σ) → End (Except ε (List β)) → Prop}
  {Broke' : κ → List (Event σ) → Break ε → Prop} {g : ι → κ} {is : List ι}
  {h : List (Event σ)} {b : Break ε}

theorem Stopped.of_map (hs : Stopped Did' Broke' (is.map g) h b)
    (hdid : ∀ i h bs, Did' (g i) h bs → Did i h bs)
    (hbroke : ∀ i h, Broke' (g i) h b → Broke i h b) : Stopped Did Broke is h b := by
  obtain ⟨_, _, _, h₁, h₂, bs, his, rfl, hj, hb⟩ := hs
  obtain ⟨before, others, rfl, rfl, hothers⟩ := List.map_eq_append_iff.mp his
  obtain ⟨i, after, rfl, rfl, rfl⟩ := List.map_eq_cons_iff.mp hothers
  exact ⟨before, i, after, h₁, h₂, bs, rfl, rfl, hj.of_map hdid, hbroke i h₂ hb⟩

theorem CutShort.of_map (hs : CutShort Part' Broke' (is.map g) h b)
    (hpart : ∀ i h e, Part' (g i) h e → Part i h e)
    (hbroke : ∀ i h, Broke' (g i) h b → Broke i h b) : CutShort Part Broke is h b := by
  obtain ⟨xs, hxs, hm, _, hmem, h', hx, hb⟩ := hs
  obtain ⟨i, hi, rfl⟩ := List.mem_map.mp hmem
  exact ⟨xs, (List.forall₂_map_left_iff.mp hxs).imp fun i x hd => hpart i x.1 x.2 hd, hm, i, hi,
    h', hx, hbroke i h' hb⟩

end

section
variable {flows : List (Flow σ ε β (Except ε (List β)))} {h : List (Event σ)}
  {e : End (Except ε (List β))}

/-- **Flows in turn stop at the first that breaks off.** -/
theorem does_inTurn (hd : Does (inTurn flows) h e) (he : e ≠ .unfinished) :
    (∃ bs, e = .done (.ok bs) ∧ Joined Makes InOrder flows h bs) ∨
    ∃ b : Break ε, e = b.end ∧ Stopped Makes Breaks flows h b := by
  induction flows generalizing h e with
  | nil =>
    obtain ⟨rfl, rfl⟩ := does_done hd he
    exact .inl ⟨[], rfl, .nil⟩
  | cons f fs ih =>
    rcases does_andThen hd he with ⟨h₁, h₂, bs, rfl, hf, hd⟩ | ⟨b, rfl, hf⟩
    · rcases does_andThen hd he with ⟨h₃, h₄, cs, rfl, hfs, hdone⟩ | ⟨b, rfl, hfs⟩
      · have hj := result_of_cases (ih hfs nofun)
        obtain ⟨rfl, rfl⟩ := does_done hdone he
        rw [List.append_nil]
        exact .inl ⟨_, rfl, .cons hf hj⟩
      · obtain ⟨before, g, after, h₃, h₄, cs, rfl, rfl, hj, hg⟩ :=
          break_of_cases (ih hfs b.finished)
        exact .inr ⟨b, rfl, f :: before, g, after, h₁ ++ h₃, h₄, bs ++ cs, rfl,
          (List.append_assoc ..).symm, .cons hf hj, hg⟩
    · exact .inr ⟨b, rfl, [], f, fs, [], h, [], rfl, rfl, .nil, hf⟩

/-- **Flows side by side stop when one of them breaks off.** -/
theorem does_sideBySide {limit : Nat} {eager : Bool} (hd : Does (sideBySide limit eager flows) h e)
    (he : e ≠ .unfinished) :
    (∃ bs, e = .done (.ok bs) ∧ Joined Makes Merges flows h bs) ∨
    ∃ b : Break ε, e = b.end ∧ CutShort Does Breaks flows h b := by
  have ht : Together [] flows h e := by
    rcases does_gather hd with ⟨rfl, -⟩ | ⟨h₁, h₂, r, rfl, ht, hk⟩ | ⟨t, rfl, ht⟩
    · exact absurd rfl he
    · obtain ⟨rfl, rfl⟩ := does_done hk he
      rwa [List.append_nil]
    · exact ht
  cases ht with
  | going => exact absurd rfl he
  | all hj => exact .inl ⟨_, rfl, hj⟩
  | stopped hx b hb =>
    obtain ⟨⟨h', _⟩, hmem, rfl⟩ := List.mem_map.mp hb
    obtain ⟨f, hf, hd⟩ := exists_of_forall₂ hx.1 hmem
    exact .inr ⟨b, rfl, _, hx.1, hx.2, f, hf, h', hmem, hd⟩

end

/-! ## Deeds and runs -/

/-- What flows have done together that are over: all of them have made runs up to their results, or
one has made a run in which it broke off. -/
theorem Together.gathers {taken : List β} {flows : List (Flow σ ε β (Except ε (List β)))}
    {h : List (Event σ)} {e : End (Except ε (List β))} (ht : Together taken flows h e)
    (he : e ≠ .unfinished)
    (hruns : ∀ f ∈ flows, ∀ h e, Does f h e → e ≠ .unfinished → Runs f h e) :
    Gathers taken flows h e := by
  cases ht with
  | going => exact absurd rfl he
  | all hj =>
    obtain ⟨xs, hf, hm, rfl⟩ := hj
    exact .all (forall₂_mono_of_mem hf fun f hmem x hd => hruns f hmem _ _ hd nofun) hm
  | stopped hx b hb =>
    obtain ⟨x, hmem, heq⟩ := List.mem_map.mp hb
    obtain ⟨f, hf, hd⟩ := exists_of_forall₂ hx.1 hmem
    rw [heq] at hd
    exact .one hf b.fails (hruns f hf _ _ hd b.finished) (hx.2.sublist (List.mem_map_of_mem hmem))

/-- **A flow that is over has made one of its runs.** -/
theorem Does.runs {f : Flow σ ε β α} {h : List (Event σ)} {e : End α} (hd : Does f h e)
    (he : e ≠ .unfinished) : Runs f h e := by
  induction keeps_anything f generalizing h with
  | done a =>
    obtain ⟨rfl, rfl⟩ := does_done hd he
    exact .done a
  | panicked t =>
    cases hd with
    | begins => exact absurd rfl he
    | panicked => exact .panicked t
  | act _ _ ih =>
    cases hd with
    | begins => exact absurd rfl he
    | act s hk => exact .act s (ih _ hk he)
  | clock _ ih =>
    cases hd with
    | begins => exact absurd rfl he
    | clock now hk => exact .clock now (ih now hk he)
  | wait _ ih =>
    cases hd with
    | begins => exact absurd rfl he
    | wait hk => exact .wait (ih hk he)
  | gather _ _ ihf ihk =>
    have hruns := fun f hf h e (hd : Does f h e) he => ihf f hf hd he
    rcases does_gather hd with ⟨rfl, -⟩ | ⟨h₁, h₂, r, rfl, ht, hk⟩ | ⟨t, rfl, ht⟩
    · exact absurd rfl he
    · exact (ht.gathers nofun hruns).runs (ihk r hk he)
    · exact (ht.gathers nofun hruns).broken

end Flow

end Relay
