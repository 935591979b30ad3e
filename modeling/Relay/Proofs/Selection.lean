import Relay.Invocation
/-!
# Envelopes and selection

A publish may hold records as they are or in envelopes, some to be unwrapped and some not. A method
that does not ask for envelopes is given what the former carry and nothing of the latter.

Filters are asked about the message as it was published, before it is taken out of its envelope. So
envelopes are transparent to a method as long as its filters let each of them through exactly if
they let through what it carries (`Enveloped.transparent`); a filter that looks for records of a
type takes everything away that comes in an envelope (`Enveloped.filtered`).
-/
namespace Relay

namespace Message

/-- What a message that is published carries: itself, or the record in its envelope, if that is to be
unwrapped. -/
inductive Carries : Message → Record → Prop
  | bare (r : Record) : Carries (.record r) r
  | inbound (raw : RawEnvelope) (r : Record) : Carries (.inbound raw (some (.record r)) true) r
  | outbound (r : Record) (headers : Headers) (endpoint : Endpoint) :
    Carries (.outbound (.record r) headers endpoint true) r

/-- Whether the message is an envelope that is not to be unwrapped. -/
def isSealed : Message → Bool
  | .record _ => false
  | .inbound _ _ autoUnwrap => !autoUnwrap
  | .outbound _ _ _ autoUnwrap => !autoUnwrap

theorem Carries.unwrap {m : Message} {r : Record} (h : m.Carries r) :
    m.unwrap = some (.record r) ∧ m.isSealed = false := by
  cases h <;> exact ⟨rfl, rfl⟩

theorem unwrap_sealed {m : Message} (h : m.isSealed = true) : m.unwrap = none := by
  cases m with
  | record r => cases h
  | inbound raw m u => cases u <;> simp_all [isSealed, Message.unwrap]
  | outbound m hs e u => cases u <;> simp_all [isSealed, Message.unwrap]

end Message

/-- A publish of records, each as it is or in an envelope that is to be unwrapped, with any envelopes
between them that are not. -/
inductive Enveloped : List Record → List Message → Prop
  | nil : Enveloped [] []
  | carried {r : Record} {rs : List Record} {p : Message} {ps : List Message} (hp : p.Carries r)
    (h : Enveloped rs ps) : Enveloped (r :: rs) (p :: ps)
  | sealed {rs : List Record} {p : Message} {ps : List Message} (hp : p.isSealed = true)
    (h : Enveloped rs ps) : Enveloped rs (p :: ps)

variable {σ : Type} {method : Method σ} {t : MessageType}

/-! ## One message -/

/-- What a method that accepts the type is given of one message. -/
def given (method : Method σ) (t : MessageType) (p : Message) : Option Message :=
  if method.accepts p then (unwrapFor t p).filter t.matchesMessage else none

theorem select_eq (ms : List Message) : select method t ms = ms.filterMap (given method t) := by
  unfold select given
  rw [List.filterMap_filter, List.filter_filterMap]
  congr 1
  funext p
  split <;> simp

/-- What a method that takes messages of the type sees of one: if it takes envelopes, the message as it
is, and else a record, or what an envelope carries that is to be unwrapped. -/
inductive MessageType.Sees (t : MessageType) : Message → Message → Prop
  | asItIs (p : Message) (ht : t.isEnvelope = true) : Sees t p p
  | record (r : Record) (ht : t.isEnvelope = false) : Sees t (.record r) (.record r)
  | inbound (raw : RawEnvelope) (p : Message) (ht : t.isEnvelope = false) :
    Sees t (.inbound raw (some p) true) p
  | outbound (p : Message) (headers : Headers) (endpoint : Endpoint) (ht : t.isEnvelope = false) :
    Sees t (.outbound p headers endpoint true) p

/-- What a method that takes messages of the type selects of a publish: of the messages that its filters
all let through, in their order, what it sees of them, if that is of the type. -/
inductive Method.Selects (method : Method σ) (t : MessageType) : List Message → List Message → Prop
  | nil : Selects method t [] []
  | selected {p q : Message} {ps qs : List Message} (hf : ∀ f ∈ method.filters, f p = true)
    (hs : t.Sees p q) (ht : t.matchesMessage q = true) (h : Selects method t ps qs) :
    Selects method t (p :: ps) (q :: qs)
  | passed {p : Message} {ps qs : List Message}
    (hn : (∀ f ∈ method.filters, f p = true) → ∀ q, t.Sees p q → t.matchesMessage q = false)
    (h : Selects method t ps qs) : Selects method t (p :: ps) qs

theorem sees_iff {p q : Message} : t.Sees p q ↔ unwrapFor t p = some q := by
  unfold unwrapFor
  constructor
  · intro h
    cases h with
    | asItIs _ ht => rw [if_pos ht]
    | record r ht => rw [ht]; rfl
    | inbound raw _ ht => rw [ht]; rfl
    | outbound _ headers endpoint ht => rw [ht]; rfl
  · cases ht : t.isEnvelope with
    | true =>
      intro h
      cases h
      exact .asItIs p ht
    | false =>
      intro h
      cases p with
      | record r => cases h; exact .record r ht
      | inbound raw m u =>
        cases u with
        | false => cases h
        | true => cases h; exact .inbound raw q ht
      | outbound m headers endpoint u =>
        cases u with
        | false => cases h
        | true => cases h; exact .outbound q headers endpoint ht

theorem given_iff {p q : Message} : given method t p = some q ↔
    (∀ f ∈ method.filters, f p = true) ∧ t.Sees p q ∧ t.matchesMessage q = true := by
  have ha : method.accepts p = true ↔ ∀ f ∈ method.filters, f p = true := List.all_eq_true
  rw [← ha, sees_iff]
  unfold given
  split
  · next h => rw [Option.filter_eq_some_iff, h]; simp
  · next h => simp [h]

theorem given_none {p : Message} : given method t p = none ↔
    ((∀ f ∈ method.filters, f p = true) → ∀ q, t.Sees p q → t.matchesMessage q = false) := by
  rw [Option.eq_none_iff_forall_ne_some]
  constructor
  · intro h hf q hs
    exact Bool.eq_false_iff.mpr fun ht => h q (given_iff.mpr ⟨hf, hs, ht⟩)
  · intro h q hq
    obtain ⟨hf, hs, ht⟩ := given_iff.mp hq
    rw [h hf q hs] at ht
    cases ht

/-- **A method selects what the rules above say.** -/
theorem selects_iff {ps qs : List Message} : method.Selects t ps qs ↔ select method t ps = qs := by
  rw [select_eq]
  constructor
  · intro h
    induction h with
    | nil => rfl
    | selected hf hs ht _ ih => rw [List.filterMap_cons, given_iff.mpr ⟨hf, hs, ht⟩, ih]
    | passed hn _ ih => rw [List.filterMap_cons, given_none.mpr hn, ih]
  · rintro rfl
    induction ps with
    | nil => exact .nil
    | cons p ps ih =>
      rw [List.filterMap_cons]
      cases hg : given method t p with
      | none => exact .passed (given_none.mp hg) ih
      | some q =>
        obtain ⟨hf, hs, ht⟩ := given_iff.mp hg
        exact .selected hf hs ht ih

theorem unwrapFor_contents (ht : t.isEnvelope = false) (p : Message) :
    unwrapFor t p = p.unwrap := by
  simp [unwrapFor, ht]

theorem given_sealed (ht : t.isEnvelope = false) {p : Message} (hp : p.isSealed = true) :
    given method t p = none := by
  simp [given, unwrapFor_contents ht, Message.unwrap_sealed hp]

theorem given_carried (ht : t.isEnvelope = false) {p : Message} {r : Record} (hp : p.Carries r)
    (ha : method.accepts p = method.accepts (.record r)) :
    given method t p = given method t (.record r) := by
  have hr : (Message.record r).unwrap = some (.record r) := rfl
  simp only [given, unwrapFor_contents ht, hp.unwrap.1, hr, ha]

/-! ## Whole publishes -/

/-- The method asks for what envelopes carry, not for envelopes. -/
def Method.WantsContents (r : Resolvers) (m : Method σ) : Prop :=
  ∀ x, r.messageResolver m.name m.parameter = .ok x → (x.messageType m.parameter).isEnvelope = false

/-- A method is called alike for two publishes of which it is given the same. -/
theorem calls_congr {r : Resolvers} {cs : Components} {ms ps : List Message}
    (hm : method.WantsContents r)
    (h : ∀ t, t.isEnvelope = false → select method t ms = select method t ps) :
    calls r cs method ms = calls r cs method ps := by
  unfold calls
  cases hx : r.messageResolver method.name method.parameter with
  | error e => rfl
  | ok x =>
    show (if (select method _ ms).isEmpty then _ else _) = _
    rw [h _ (hm x hx)]
    rfl

namespace Enveloped

variable {rs : List Record} {ps : List Message}

/-- Envelopes that are not to be unwrapped make no difference, whatever the filters. -/
theorem select_unsealed (ht : t.isEnvelope = false) (ps : List Message) :
    select method t ps = select method t (ps.filter fun p => !p.isSealed) := by
  rw [select_eq, select_eq, List.filterMap_filter]
  congr 1
  funext p
  by_cases hp : p.isSealed = true
  · simp [hp, given_sealed ht hp]
  · simp [hp]

theorem select_records (h : Enveloped rs ps) (ht : t.isEnvelope = false)
    (hf : ∀ p ∈ ps, ∀ r, p.Carries r → method.accepts p = method.accepts (.record r)) :
    select method t ps = select method t (rs.map .record) := by
  rw [select_eq, select_eq]
  induction h with
  | nil => rfl
  | @carried r rs p ps hp h ih =>
    have ih := ih fun q hq => hf q (List.mem_cons_of_mem _ hq)
    have hgiven := given_carried ht hp (hf p List.mem_cons_self r hp)
    rw [List.map_cons, List.filterMap_cons, List.filterMap_cons, hgiven, ih]
  | @sealed rs p ps hp h ih =>
    rw [List.filterMap_cons, given_sealed ht hp]
    exact ih fun q hq => hf q (List.mem_cons_of_mem _ hq)

/-- **Envelopes are transparent to methods that do not ask for them.** A method whose filters do not
tell the published messages from what they carry is given the records that it would be given of the
bare list, in order, and does the same. Whatever its filters, it is never given a message in an
envelope that is not to be unwrapped. -/
theorem transparent (method : Method σ) (h : Enveloped rs ps) :
    (∀ t : MessageType, t.isEnvelope = false →
      select method t ps = select method t (ps.filter fun p => !p.isSealed)) ∧
    ((∀ p ∈ ps, ∀ r, p.Carries r → method.accepts p = method.accepts (.record r)) →
      (∀ t : MessageType, t.isEnvelope = false →
        select method t ps = select method t (rs.map .record)) ∧
      ∀ (r : Resolvers) (cs : Components), method.WantsContents r →
        calls r cs method ps = calls r cs method (rs.map .record) ∧
        ∀ [TaskState σ] (mode : Mode) (self : Republish σ),
          invoke r cs mode self ps method = invoke r cs mode self (rs.map .record) method) := by
  refine ⟨fun t ht => select_unsealed ht ps, fun hf => ⟨fun t ht => h.select_records ht hf, ?_⟩⟩
  intro r cs hm
  have hcalls : calls r cs method ps = calls r cs method (rs.map .record) :=
    calls_congr hm fun t ht => h.select_records ht hf
  refine ⟨hcalls, ?_⟩
  intro _ mode self
  unfold invoke
  rw [hcalls]

/-! ### Filters that look for records of a type -/

/-- A record without fields. -/
def ping : Record := ⟨⟨"Ping", [.event], []⟩, ()⟩

/-- What an envelope around it was received as. -/
def received : RawEnvelope := ⟨[], .empty, ⟨"orders", none, []⟩, none, "a"⟩

/-- A method for events that has a filter. -/
def filtering (f : Message → Bool) : Method Unit where
  name := "filtering"
  handler := .blocking fun _ _ _ s => (.answered (.ok none), s)
  parameter := .message (.kind .event)
  filters := [f]

/-- The filter looks through the envelopes that are to be unwrapped. -/
theorem transparent_through :
    select (filtering fun p => (p.unwrap.map Message.typeId).any (· == .record ping.type))
      (.kind .event) [.outbound (.record ping) .empty ⟨"payments", none, []⟩ true,
        .inbound received (some (.record ping)) false, .record ping,
        .inbound received (some (.record ping)) true] = [.record ping, .record ping, .record ping] := by
  have h : Enveloped [ping, ping, ping] [.outbound (.record ping) .empty ⟨"payments", none, []⟩ true,
      .inbound received (some (.record ping)) false, .record ping,
      .inbound received (some (.record ping)) true] :=
    .carried (.outbound _ _ _) (.sealed rfl (.carried (.bare _) (.carried (.inbound _ _) .nil)))
  have hf : ∀ (p : Message) (r : Record), p.Carries r →
      (filtering fun p => (p.unwrap.map Message.typeId).any (· == .record ping.type)).accepts p =
        (filtering fun p => (p.unwrap.map Message.typeId).any (· == .record ping.type)).accepts
          (.record r) := by
    intro p r hp
    cases hp <;> rfl
  exact ((transparent _ h).2 fun p _ => hf p).1 _ rfl

/-- A filter for records of a type lets the record through and does not let through the envelope that
carries it, though the method would be given the record. -/
theorem filtered :
    Enveloped [ping] [.inbound received (some (.record ping)) true] ∧
      (MessageType.kind .event).isEnvelope = false ∧
      select (filtering fun p => p.typeId == .record ping.type) (.kind .event)
        [.inbound received (some (.record ping)) true] = [] ∧
      select (filtering fun p => p.typeId == .record ping.type) (.kind .event)
        [.record ping] = [.record ping] :=
  ⟨.carried (.inbound _ _) .nil, rfl, rfl, rfl⟩

end Enveloped

end Relay
