import Relay.Proofs.Acceptance
import Relay.Proofs.Consumer.Batching
/-!
# Endpoints that share the stores

The consumers of a broker share its log and its chunk store. An entry of the log names the endpoint
that its message was received on. A chunk does not: a set goes by the message id alone. So consumers
keep out of each other's way as long as no chunk of a message that is new to its endpoint comes to
one of them while another would, if it were alone, have chunks of that id (`Uncontested`).

Then the ledger that they share is made up of those that they would have alone (`Ledger.Parted`), a
message is decided about as it would be there, and so is a batch, whoever comes before or between.
`Visit.independent` says so of whole runs. Where chunks of one id come to two endpoints, a set may be
joined of the chunks of both (`Visit.independent_joined`).
-/
namespace Relay

variable {κ : Type}

/-! ## Receipts -/

/-- A message that is received on an endpoint. -/
structure Receipt where
  endpoint : Endpoint
  message : RawMessage

/-- The ledger of the endpoint if the others received nothing. -/
def Receipt.alone (receipts : List Receipt) (name : String) : Ledger :=
  (receipts.filter fun a => a.endpoint.name = name).foldl
    (fun L a => L.next a.endpoint a.message) ⟨[], []⟩

/-- If it is a chunk of a message that is new to its endpoint, no other endpoint alone would have
chunks of that id. -/
def Receipt.Unclaimed (before : List Receipt) (a : Receipt) : Prop :=
  ∀ raw ∈ (RawEnvelope.ofMessage a.endpoint a.message).toOption,
    Settlement.isChunk raw.headers = true →
    ⟨raw.messageId, a.endpoint.name⟩ ∉ (alone before a.endpoint.name).logged →
    ∀ b ∈ before, b.endpoint.name ≠ a.endpoint.name →
      ∀ c ∈ (alone before b.endpoint.name).parked, c.messageId ≠ raw.messageId

instance (before : List Receipt) (a : Receipt) : Decidable (a.Unclaimed before) := by
  unfold Receipt.Unclaimed
  infer_instance

/-- Each of the receipts is unclaimed after those before it. -/
def Receipt.Uncontested (before : List Receipt) : List Receipt → Prop
  | [] => True
  | a :: later => a.Unclaimed before ∧ Uncontested (before ++ [a]) later

instance Receipt.decidableUncontested : (before receipts : List Receipt) →
    Decidable (Uncontested before receipts)
  | _, [] => inferInstanceAs (Decidable True)
  | before, a :: later =>
    have := decidableUncontested (before ++ [a]) later
    inferInstanceAs (Decidable (_ ∧ _))

namespace Receipt

variable {before : List Receipt} {a : Receipt}

theorem alone_append (before : List Receipt) (a : Receipt) :
    alone (before ++ [a]) = Function.update (alone before) a.endpoint.name
      ((alone before a.endpoint.name).next a.endpoint a.message) := by
  funext name
  unfold alone
  rw [List.filter_append, List.foldl_append, Function.update_apply]
  by_cases h : a.endpoint.name = name
  · subst h
    simp
  · simp [h, Ne.symm h]

/-- An endpoint that has received nothing has nothing. -/
theorem alone_absent {name : String} (h : ∀ b ∈ before, b.endpoint.name ≠ name) :
    alone before name = ⟨[], []⟩ := by
  unfold alone
  rw [List.filter_eq_nil_iff.mpr fun b hb => by simpa using h b hb]
  rfl

end Receipt

/-- A batch is one more in what its endpoint has received. -/
theorem Receipt.alone_batch (before : List Receipt) (endpoint : Endpoint) (ms : List RawMessage) :
    alone (before ++ ms.map (Receipt.mk endpoint)) = Function.update (alone before) endpoint.name
      ((alone before endpoint.name).after endpoint ms) := by
  induction ms generalizing before with
  | nil => simp [Ledger.after]
  | cons m ms ih =>
    rw [List.map_cons, List.append_cons, ih, alone_append, Function.update_idem,
      Function.update_self]
    rfl

/-! ## A ledger in parts -/

namespace Ledger

variable {L : Ledger} {own : String → Ledger} {raw : RawEnvelope}

/-- The ledger is made up of those of the endpoints: of each the entries of the log that name it, and
each set of chunks as a whole of one of them. -/
structure Parted (L : Ledger) (own : String → Ledger) : Prop where
  logged : ∀ name, (own name).logged = L.logged.filter fun e => e.endpoint = name
  parked : ∀ id, ∃ owner, ∀ name, Chunks.ofMessage (own name).parked id =
    if name = owner then Chunks.ofMessage L.parked id else []

/-- If the message is a chunk and new to its endpoint, no other endpoint has chunks of its id. -/
def Unclaimed (own : String → Ledger) (raw : RawEnvelope) : Prop :=
  Settlement.isChunk raw.headers = true →
    ⟨raw.messageId, raw.endpoint.name⟩ ∉ (own raw.endpoint.name).logged →
    ∀ name ≠ raw.endpoint.name, Chunks.ofMessage (own name).parked raw.messageId = []

end Ledger

/-- What is unclaimed on receipt is so by the ledgers that the endpoints would have alone. -/
theorem Receipt.Unclaimed.ledger {before : List Receipt} {endpoint : Endpoint} {m : RawMessage}
    (h : (Receipt.mk endpoint m).Unclaimed before) (raw : RawEnvelope)
    (hraw : RawEnvelope.ofMessage endpoint m = .ok raw) : Ledger.Unclaimed (alone before) raw := by
  intro hchunk hnew name hname
  obtain ⟨id, -, rfl⟩ := Settlement.ofMessage_ok hraw
  by_cases hb : ∃ b ∈ before, b.endpoint.name = name
  · obtain ⟨b, hb, rfl⟩ := hb
    refine List.filter_eq_nil_iff.mpr fun c hc => ?_
    have hne := h _ (by rw [hraw]; rfl) hchunk hnew b hb hname c hc
    simpa using hne
  · push Not at hb
    rw [alone_absent hb]
    rfl

namespace Ledger.Parted

variable {L : Ledger} {own : String → Ledger} {raw : RawEnvelope}

theorem contains (h : L.Parted own) (id name : String) :
    (own name).logged.contains ⟨id, name⟩ = L.logged.contains ⟨id, name⟩ := by
  rw [h.logged, Bool.eq_iff_iff, List.contains_iff_mem, List.contains_iff_mem, List.mem_filter]
  simp

/-- What no other endpoint has is the endpoint's own. -/
theorem own_chunks (h : L.Parted own) {id name : String}
    (hfree : ∀ other ≠ name, Chunks.ofMessage (own other).parked id = []) :
    Chunks.ofMessage (own name).parked id = Chunks.ofMessage L.parked id := by
  obtain ⟨owner, ho⟩ := h.parked id
  by_cases hn : name = owner
  · rw [ho name, if_pos hn]
  · have hnone := hfree owner (Ne.symm hn)
    rw [ho owner, if_pos rfl] at hnone
    rw [ho name, if_neg hn, hnone]

/-- **The message is decided about as it would be alone.** -/
theorem decide (h : L.Parted own) (hfree : Unclaimed own raw) :
    (own raw.endpoint.name).decide raw = L.decide raw := by
  unfold Ledger.decide
  rw [h.contains]
  cases hknown : L.logged.contains ⟨raw.messageId, raw.endpoint.name⟩ with
  | true => rfl
  | false =>
    cases hchunk : Settlement.isChunk raw.headers with
    | false => rw [Decision.about_plain hchunk, Decision.about_plain hchunk]
    | true =>
      rw [← h.contains] at hknown
      rw [h.own_chunks (hfree hchunk fun hin => ?_)]
      rw [List.contains_iff_mem.mpr hin] at hknown
      cases hknown

/-- What the decision makes of the whole it makes of the endpoint's part. -/
theorem carry (h : L.Parted own) (hfree : Unclaimed own raw) :
    (L.carry raw (L.decide raw)).Parted (Function.update own raw.endpoint.name
      ((own raw.endpoint.name).carry raw (L.decide raw))) := by
  refine ⟨fun name => ?_, fun id => ?_⟩
  · rw [carry_logged, List.filter_append, ← h.logged, Function.update_apply]
    by_cases hn : name = raw.endpoint.name
    · rw [if_pos hn, carry_logged, hn, List.filter_eq_self.mpr]
      exact fun e he => decide_eq_true (Decision.entries_endpoint he)
    · rw [if_neg hn, List.filter_eq_nil_iff.mpr, List.append_nil]
      intro e he
      rw [Decision.entries_endpoint he]
      exact fun heq => hn (of_decide_eq_true heq).symm
  · -- only the set of the message can change, and then it is the endpoint's
    have hchunks : ∀ name, Chunks.ofMessage (Function.update own raw.endpoint.name
        ((own raw.endpoint.name).carry raw (L.decide raw)) name).parked id =
          if name = raw.endpoint.name ∧ id = raw.messageId then
            (L.decide raw).left (Chunks.ofMessage (own name).parked id)
          else Chunks.ofMessage (own name).parked id := by
      intro name
      rw [Function.update_apply]
      by_cases hn : name = raw.endpoint.name
      · subst hn
        rw [if_pos rfl, carry_chunks fun c hc => decide_park hc]
        simp
      · simp [hn]
    simp only [hchunks, carry_chunks fun c hc => decide_park hc]
    obtain ⟨owner, ho⟩ := h.parked id
    by_cases hid : id = raw.messageId
    · subst hid
      by_cases hleft : ∀ cs, (L.decide raw).left cs = cs
      · exact ⟨owner, fun name => by simp [hleft, ho name]⟩
      · refine ⟨raw.endpoint.name, fun name => ?_⟩
        have hothers : ∀ name ≠ raw.endpoint.name,
            Chunks.ofMessage (own name).parked raw.messageId = [] := by
          obtain ⟨hchunk, hnew⟩ := decide_chunk hleft
          refine hfree hchunk fun hin => hnew ?_
          rw [h.logged] at hin
          exact (List.mem_filter.mp hin).1
        by_cases hn : name = raw.endpoint.name
        · subst hn
          simp [h.own_chunks hothers]
        · simp [hn, hothers name hn]
    · exact ⟨owner, fun name => by simp [hid, ho name]⟩

variable {endpoint : Endpoint} {m : RawMessage} {ms : List RawMessage}

/-- **A message does on an endpoint what it would do there alone.** -/
theorem next (h : L.Parted own) (wire : Wire)
    (hfree : ∀ raw, RawEnvelope.ofMessage endpoint m = .ok raw → Unclaimed own raw) :
    (own endpoint.name).acceptOne wire endpoint m = L.acceptOne wire endpoint m ∧
      (own endpoint.name).settledOne endpoint m = L.settledOne endpoint m ∧
      (L.next endpoint m).Parted
        (Function.update own endpoint.name ((own endpoint.name).next endpoint m)) := by
  unfold acceptOne settledOne Ledger.next
  cases hraw : RawEnvelope.ofMessage endpoint m with
  | error e =>
    refine ⟨rfl, rfl, ?_⟩
    rw [Function.update_eq_self]
    exact h
  | ok raw =>
    have hdecide := h.decide (hfree raw hraw)
    have hcarry := h.carry (hfree raw hraw)
    obtain ⟨id, -, rfl⟩ := Settlement.ofMessage_ok hraw
    dsimp only at hdecide hcarry ⊢
    refine ⟨?_, ?_, ?_⟩
    · unfold acceptRaw
      rw [hdecide]
    · rw [hdecide]
    · rw [hdecide]
      exact hcarry

open Receipt (alone Uncontested)

/-- So do the messages of a batch. -/
theorem batch {before later : List Receipt} (h : L.Parted (alone before)) (wire : Wire)
    (hu : Uncontested before (ms.map (Receipt.mk endpoint) ++ later)) :
    (alone before endpoint.name).accept wire endpoint ms = L.accept wire endpoint ms ∧
      (alone before endpoint.name).settled endpoint ms = L.settled endpoint ms ∧
      (L.after endpoint ms).Parted (alone (before ++ ms.map (Receipt.mk endpoint))) ∧
      Uncontested (before ++ ms.map (Receipt.mk endpoint)) later := by
  induction ms generalizing L before with
  | nil =>
    rw [List.map_nil, List.append_nil]
    exact ⟨rfl, rfl, h, hu⟩
  | cons m ms ih =>
    obtain ⟨hfree, hu⟩ := hu
    obtain ⟨haccept, hsettled, hnext⟩ := h.next wire hfree.ledger
    have halone := Receipt.alone_append before ⟨endpoint, m⟩
    rw [← halone] at hnext
    obtain ⟨hothers, hrest, hafter, hu⟩ := ih hnext hu
    rw [halone, Function.update_self] at hothers hrest
    refine ⟨?_, ?_, ?_, ?_⟩
    · unfold accept
      rw [haccept, hothers]
    · unfold settled
      rw [hsettled, hrest]
    · rw [List.map_cons, List.append_cons]
      exact hafter
    · rw [List.map_cons, List.append_cons]
      exact hu

end Ledger.Parted

/-! ## Consumers in turn -/

/-- A batch that a consumer deals with, in a transaction of its own that is committed. -/
structure Visit where
  endpoint : Endpoint
  handling : Handling

namespace Visit

open Receipt (alone Uncontested)

/-- What the consumer receives. -/
def receipts (v : Visit) : List Receipt := v.handling.messages.map (Receipt.mk v.endpoint)

/-- The batches of any number of consumers, one after the other; what comes of each beside the name
of its endpoint. -/
def runAll (wire : Wire) : List Visit → Op κ InboundError (List (String × Handled))
  | [] => return []
  | v :: vs => do
    let first ← v.handling.run wire v.endpoint
    let rest ← runAll wire vs
    return (v.endpoint.name, first) :: rest

/-- The batches of one endpoint. -/
def on (name : String) (vs : List Visit) : List Visit := vs.filter fun v => v.endpoint.name = name

variable {wire : Wire} {before : List Receipt} {vs : List Visit} {w w' : World κ}
  {rs : List (String × Handled)}

theorem handle_alone {v : Visit} {L : Ledger} (wire : Wire) (h : L.Parted (alone before))
    {later : List Receipt} (hu : Uncontested before (v.receipts ++ later)) :
    (alone before v.endpoint.name).handle wire v.endpoint v.handling =
        L.handle wire v.endpoint v.handling ∧
      (L.after v.endpoint v.handling.messages).Parted (alone (before ++ v.receipts)) ∧
      Uncontested (before ++ v.receipts) later := by
  obtain ⟨endpoint, handling⟩ := v
  obtain ⟨haccept, hsettled, hafter, hu⟩ := h.batch wire hu
  refine ⟨?_, hafter, hu⟩
  cases handling with
  | process ms => exact congrArg (Except.map Handled.accepted) haccept
  | settle ms => exact congrArg (fun ms => Except.ok (Handled.settled ms)) hsettled

/-- **Every batch keeps the endpoints apart**: what has come of those of an endpoint is what comes of
them alone, and with reliable stores they get through. -/
theorem runAll_parted (h : w.ledger.Parted (alone before))
    (hu : Uncontested before (vs.flatMap receipts)) (hr : runAll wire vs w = .ok rs w') :
    w'.ledger.Parted (alone (before ++ vs.flatMap receipts)) ∧
      ∀ (name : String) (u : World κ), u.ledger = alone before name →
        Ensures (runAll wire (on name vs)) u
          (fun rs' u' => rs' = rs.filter (fun r => r.1 = name) ∧
            u'.ledger = alone (before ++ vs.flatMap receipts) name)
          fun _ => ¬ u.Reliable := by
  induction vs generalizing before w rs with
  | nil =>
    cases hr
    rw [List.flatMap_nil, List.append_nil]
    exact ⟨h, fun name u hledger => ensures_pure ⟨rfl, hledger⟩⟩
  | cons v vs ih =>
    obtain ⟨first, x, hfirst, h1⟩ := bind_ok hr
    obtain ⟨rest, y, hrest, h2⟩ := bind_ok h1
    cases h2
    rw [List.flatMap_cons] at hu
    obtain ⟨hsame, hafter, hu⟩ := handle_alone wire h hu
    obtain ⟨hhandle, hx⟩ := Handling.run_ok hfirst
    rw [← hx] at hafter
    obtain ⟨hparted, hall⟩ := ih hafter hu hrest
    rw [List.flatMap_cons, ← List.append_assoc]
    refine ⟨hparted, fun name u hledger => ?_⟩
    have halone := congrFun (Receipt.alone_batch before v.endpoint v.handling.messages) name
    rw [Function.update_apply] at halone
    unfold on at hall ⊢
    by_cases hname : v.endpoint.name = name
    · -- it is a batch of the endpoint: alone it comes to the same
      subst hname
      rw [← hledger, hhandle] at hsame
      rw [if_pos rfl, ← hledger] at halone
      rw [List.filter_cons_of_pos (by simp), List.filter_cons_of_pos (by simp)]
      refine (Handling.run_ensures hsame).bind fun r x' hx' => ?_
      obtain ⟨rfl, hx', hsure⟩ := hx'
      have hothers := hall _ x' (hx'.trans halone.symm)
      refine (hothers.mono fun _ hno hu => hno (hsure hu)).bind fun rs' u' hu' => ?_
      obtain ⟨rfl, hu'⟩ := hu'
      exact ensures_pure ⟨rfl, hu'⟩
    · rw [if_neg (Ne.symm hname), ← hledger] at halone
      rw [List.filter_cons_of_neg (by simpa using hname),
        List.filter_cons_of_neg (by simpa using hname)]
      exact hall name u halone.symm

/-- **Endpoints are independent.** Consumers that share a log and a chunk store, both empty at first,
deal with their batches in turn, and no chunk of a message that is new to its endpoint comes to one
of them while another, alone, would have chunks of its id. Then what comes of the batches of an
endpoint is what comes of them alone over empty stores: the same messages are let through, and the
batches are settled into the same. What is in the stores at the end is what the endpoints would leave
alone, each entry of the log and each set of chunks in one of them. -/
theorem independent (hempty : w.ledger = ⟨[], []⟩)
    (hu : Uncontested [] (vs.flatMap receipts)) (hr : runAll wire vs w = .ok rs w') :
    ∃ own, w'.ledger.Parted own ∧ ∀ (name : String) (u : World κ), u.ledger = ⟨[], []⟩ →
      (u.Reliable → ∃ u', runAll wire (on name vs) u = .ok (rs.filter fun r => r.1 = name) u') ∧
      ∀ rs' u', runAll wire (on name vs) u = .ok rs' u' →
        rs' = rs.filter (fun r => r.1 = name) ∧ u'.ledger = own name := by
  have hstart : w.ledger.Parted (alone []) := by
    rw [hempty]
    exact ⟨fun _ => rfl, fun _ => ⟨"", fun name => by simp [alone, Chunks.ofMessage]⟩⟩
  obtain ⟨hparted, hall⟩ := runAll_parted hstart hu hr
  refine ⟨_, hparted, fun name u hledger => ⟨fun hsure => ?_, fun rs' u' hr' => ?_⟩⟩
  · have hrun := hall name u hledger
    cases hr' : runAll wire (on name vs) u with
    | ok rs' u' =>
      obtain ⟨rfl, -⟩ := hrun.ok hr'
      exact ⟨u', rfl⟩
    | error e u' => exact absurd hsure (hrun.error hr')
  · exact (hall name u hledger).ok hr'

/-! ### Pings on two endpoints -/

open Course (emptyWorld)
open Worker (ping pinged)

/-- Two consumers receive a ping with the same id, and then one of them another one in two chunks,
of which the other has a duplicate. -/
def pings : List Visit :=
  [⟨⟨"orders", none, []⟩, .process [ping "a" none [0x7B, 0x7D] "0", ping "s" (some ("1", "2")) [0x7D] "1"]⟩,
    ⟨⟨"payments", none, []⟩, .process [ping "a" none [0x7B, 0x7D] "0"]⟩,
    ⟨⟨"orders", none, []⟩, .process [ping "s" (some ("0", "2")) [0x7B] "2"]⟩,
    ⟨⟨"payments", none, []⟩, .process [ping "s" (some ("0", "2")) [0x7B] "1"]⟩]

theorem independent_pings :
    ∃ rs w', runAll pinged.service.wire pings emptyWorld = .ok rs w' ∧
      rs.map (fun r => (r.1, r.2.ids)) =
        [("orders", ["a"]), ("payments", ["a"]), ("orders", ["s"]), ("payments", [])] ∧
      ∃ u', runAll pinged.service.wire (on "payments" pings) emptyWorld =
        .ok (rs.filter fun r => r.1 = "payments") u' := by
  have hrun : ∃ rs w', runAll pinged.service.wire pings emptyWorld = .ok rs w' ∧
      rs.map (fun r => (r.1, r.2.ids)) =
        [("orders", ["a"]), ("payments", ["a"]), ("orders", ["s"]), ("payments", [])] :=
    ⟨_, _, by cbv, by cbv⟩
  obtain ⟨rs, w', hr, hids⟩ := hrun
  have hu : Uncontested [] (pings.flatMap receipts) := by decide +kernel
  obtain ⟨own, -, hall⟩ := independent rfl hu hr
  exact ⟨rs, w', hr, hids, (hall "payments" emptyWorld rfl).1 ⟨⟨[], rfl⟩, ⟨[], rfl⟩, rfl⟩⟩

/-- Two consumers receive a chunk each of one set. -/
def halves : List Visit :=
  [⟨⟨"orders", none, []⟩, .process [ping "s" (some ("0", "2")) [0x7B] "0"]⟩,
    ⟨⟨"payments", none, []⟩, .process [ping "s" (some ("1", "2")) [0x7D] "0"]⟩]

/-- The second joins the set of both, and nothing is left for the first. Alone it parks its chunk. -/
theorem independent_joined :
    (∃ rs w', runAll pinged.service.wire halves emptyWorld = .ok rs w' ∧
      rs.map (fun r => (r.1, r.2.ids)) = [("orders", []), ("payments", ["s"])] ∧
      w'.ledger = ⟨[⟨"s", "payments"⟩], []⟩) ∧
    ∃ rs u', runAll pinged.service.wire (on "payments" halves) emptyWorld = .ok rs u' ∧
      rs.map (fun r => (r.1, r.2.ids)) = [("payments", [])] ∧
      u'.ledger = ⟨[], [⟨"s", 1, 2, [0x7D]⟩]⟩ := by
  refine ⟨⟨_, _, by cbv, by cbv, by cbv⟩, ⟨_, _, by cbv, by cbv, by cbv⟩⟩

end Visit

end Relay
