import Relay.Proofs.World
/-!
# What a subscription yields

A transport keeps a log for every topic, a channel with the latest messages of it, and what was
acknowledged; a subscription is a queue and a position in the log. `Exchange` is a transport with
its subscriptions, and `Deed`s are what was done on it: the log of a topic, what of it is pending and
what is due to a subscription are functions of these alone.

A call is one step: a message enters the log and the channel together, and what a reader has missed
is a range of the log, which only grows, so it does not matter when the range is read.

* `pull_rest`: a read yields the first message of the queue and of what is left of the log behind the
  position, in whatever state the channel is, and leaves the others.
* `Exchange.Sound.step`: what a subscription has yielded and what is left of it are, together, what
  is due to it, and stay so through every call.
* `Exchange.misses_nothing`: after any calls a subscription has yielded a beginning of what is due to
  it, and the next message it yields is the next one due.
-/
namespace Relay

/-! ## Channels -/

/-- The channel of a topic holds the end of its log. -/
structure Topic.Live (t : Topic) : Prop where
  sent : t.channel.sent = t.log.length
  kept : t.channel.kept <:+ t.log

namespace Topic.Live

variable {t : Topic}

theorem produce (h : t.Live) (capacity : Nat) (payload : Bytes) (headers : Headers) :
    (t.produce capacity payload headers).Live where
  sent := by simp [Topic.produce, Channel.send, h.sent]
  kept := by
    obtain ⟨before, hbefore⟩ := h.kept
    simp only [Topic.produce, Channel.send]
    refine (List.drop_suffix _ _).trans ⟨before, ?_⟩
    rw [← List.append_assoc, hbefore]

/-- What a reader gets at a position is what the log holds there, unless the channel has dropped it. -/
theorem receive_cases (h : t.Live) {position : Nat} (hp : position ≤ t.log.length) :
    (t.channel.receive position = .nothing ∧ position = t.log.length) ∨
    (∃ m, t.channel.receive position = .message m ∧ t.log[position]? = some m) ∨
    ∃ count, t.channel.receive position = .missed count ∧ 0 < count ∧
      position + count ≤ t.log.length := by
  have hkept : t.channel.kept.length ≤ t.log.length := h.kept.length_le
  have hsuffix : t.channel.kept = t.log.drop (t.log.length - t.channel.kept.length) :=
    List.suffix_iff_eq_drop.mp h.kept
  have holdest : t.channel.oldest = t.log.length - t.channel.kept.length := by
    rw [Channel.oldest, h.sent]
  unfold Channel.receive
  split
  · refine .inr (.inr ⟨_, rfl, ?_, ?_⟩) <;> omega
  · have hget : t.channel.kept[position - t.channel.oldest]? = t.log[position]? := by
      have hat : t.log.length - t.channel.kept.length + (position - t.channel.oldest) = position := by
        omega
      rw [hsuffix, List.getElem?_drop, hat]
    rw [hget]
    by_cases hlast : position < t.log.length
    · rw [List.getElem?_eq_getElem hlast]
      exact .inr (.inl ⟨_, rfl, rfl⟩)
    · rw [List.getElem?_eq_none (by omega)]
      exact .inl ⟨rfl, by omega⟩

end Topic.Live

/-! ## Reads -/

namespace Transport

/-- What is left of a subscription: its queue and the log from its position on. -/
def rest (t : Transport) (s : Subscription) : List RawMessage :=
  s.queue ++ (t.topic s.topic).log.drop s.position

/-- A subscription to a topic that can go on. -/
structure Readable (t : Transport) (s : Subscription) : Prop where
  live : (t.topic s.topic).Live
  position : s.position ≤ (t.topic s.topic).log.length
  isOpen : s.closed = false

variable {t : Transport} {s : Subscription}

/-- **A read yields the first message that is left**, and leaves the others. -/
theorem pull_rest (h : t.Readable s) :
    (t.pull s).1 = (t.rest s).head? ∧ t.rest (t.pull s).2 = (t.rest s).tail ∧
      t.Readable (t.pull s).2 ∧ (t.pull s).2.topic = s.topic := by
  obtain ⟨hlive, hp, hopen⟩ := h
  unfold pull
  split
  · next m queue hq => simpa [rest, hq] using ⟨hlive, hp, hopen⟩
  · next hq =>
    -- the queue is empty, so the channel is asked
    rcases hlive.receive_cases hp with ⟨hr, hlast⟩ | ⟨m, hr, hm⟩ | ⟨count, hr, hcount, hle⟩
    · rw [hr]
      simpa [rest, hq, hlast] using ⟨hlive, hp, hopen⟩
    · rw [hr]
      obtain ⟨hlt, hm⟩ := List.getElem?_eq_some_iff.mp hm
      have hdrop := List.drop_eq_getElem_cons hlt
      rw [hm] at hdrop
      simpa [rest, hq, hdrop] using ⟨hlive, hlt, hopen⟩
    · rw [hr]
      obtain ⟨n, rfl⟩ : ∃ n, count = n + 1 := ⟨count - 1, by omega⟩
      have hlt : s.position < (t.topic s.topic).log.length := by omega
      have hreplay : t.replay s.topic s.position (n + 1) = (t.topic s.topic).log[s.position] ::
          ((t.topic s.topic).log.drop (s.position + 1)).take n := by
        rw [replay, List.drop_eq_getElem_cons hlt, List.take_succ_cons]
      -- what the channel has dropped is caught up from the log, up to the position behind it
      have hbehind : ((t.topic s.topic).log.drop (s.position + 1)).take n ++
          (t.topic s.topic).log.drop (s.position + (n + 1)) =
            (t.topic s.topic).log.drop (s.position + 1) := by
        have hat : s.position + (n + 1) = s.position + 1 + n := by omega
        have hdrop := List.drop_drop (i := n) (j := s.position + 1) (l := (t.topic s.topic).log)
        rw [hat, ← hdrop, List.take_append_drop]
      dsimp only
      rw [hreplay]
      have hrest : t.rest s = (t.topic s.topic).log[s.position] ::
          (t.topic s.topic).log.drop (s.position + 1) := by
        rw [rest, hq, List.nil_append, List.drop_eq_getElem_cons hlt]
      rw [hrest]
      exact ⟨rfl, hbehind, ⟨hlive, hle, hopen⟩, rfl⟩

/-- What the stream of the subscription yields next, if nothing is set to end or to change it. -/
theorem next_rest (h : t.Readable s) (hd : t.delivery = {}) :
    (t.next s).1 = (t.rest s).head?.map .message ∧ t.rest (t.next s).2 = (t.rest s).tail ∧
      t.Readable (t.next s).2 ∧ (t.next s).2.topic = s.topic := by
  obtain ⟨hhead, htail, hreadable, htopic⟩ := pull_rest h
  rcases hpull : t.pull s with ⟨_ | m, s'⟩ <;> rw [hpull] at hhead htail hreadable htopic
  · have hnext : t.next s = (none, s') := by
      unfold next
      simp only [h.isOpen, hd, hpull]
      rfl
    rw [hnext]
    exact ⟨by rw [← hhead]; rfl, htail, hreadable, htopic⟩
  · have hnext : t.next s = (some (.message m), { s' with delivered := s'.delivered + 1 }) := by
      unfold next
      simp only [h.isOpen, hd, strip, hpull]
      rfl
    rw [hnext]
    refine ⟨by rw [← hhead]; rfl, htail, ?_, htopic⟩
    exact ⟨hreadable.live, hreadable.position, hreadable.isOpen⟩

/-! ### Other calls -/

/-- Producing appends to the log of the topic, under its length as the offset. -/
theorem produce_ok {t t' : Transport} {name : String} {payload : Bytes} {headers : Headers}
    (h : t.produce name payload headers = .ok t') :
    t'.delivery = t.delivery ∧ ∀ other, t'.topic other =
      if name = other then (t.topic name).produce t.capacity payload headers else t.topic other := by
  unfold produce at h
  split at h
  · cases h
  · cases h
    refine ⟨rfl, fun other => ?_⟩
    exact topic_setTopic t name other _

theorem acknowledge_ok {t t' : Transport} {name : String} {offsets : List String}
    (h : t.acknowledge name offsets = .ok t') :
    t'.delivery = t.delivery ∧ ∀ other,
      (t'.topic other).log = (t.topic other).log ∧ (t'.topic other).channel = (t.topic other).channel ∧
        ∀ o, o ∈ (t'.topic other).acknowledged ↔
          o ∈ (t.topic other).acknowledged ∨ name = other ∧ o ∈ offsets := by
  have hmarked := acknowledge_acknowledged h
  unfold acknowledge at h
  cases hv : t.topic? name with
  | none => rw [hv] at h; cases h
  | some v =>
    rw [hv] at h
    cases h
    have ht : t.topic name = v := by rw [topic, hv]; rfl
    refine ⟨rfl, fun other => ?_⟩
    by_cases hn : name = other
    · subst hn
      rw [topic_setTopic, if_pos rfl, ht]
      refine ⟨rfl, rfl, fun o => ?_⟩
      have hmarked := hmarked o
      rw [topic_setTopic, if_pos rfl, ht] at hmarked
      simpa using hmarked
    · rw [topic_setTopic, if_neg hn]
      simp [hn]

/-- A subscription that is taken begins with the messages that are not acknowledged, at the end of
the log. -/
theorem subscribe_topics (t : Transport) (name : String) :
    (t.subscribe name).2.delivery = t.delivery ∧
      ∀ other, (t.subscribe name).2.topic other = t.topic other := by
  unfold subscribe
  split
  · exact ⟨rfl, fun _ => rfl⟩
  · refine ⟨rfl, fun other => ?_⟩
    rw [topic_setTopic]
    split
    · next h => rw [h]
    · rfl

theorem subscribe_ok {t : Transport} {name : String} {s : Subscription}
    (h : (t.subscribe name).1 = .ok s) :
    s = { topic := name, queue := (t.topic name).backlog, position := (t.topic name).channel.sent } := by
  unfold subscribe at h
  split at h
  · cases h
  · exact (Except.ok.inj h).symm

end Transport

/-! ## Deeds -/

/-- What was done on a transport. -/
inductive Deed
  | produced (topic : String) (payload : Bytes) (headers : Headers)
  | acknowledged (topic : String) (offsets : List String)

namespace Deed

/-- What was produced to a topic. -/
def produced? (name : String) : Deed → Option (Bytes × Headers)
  | .produced topic payload headers => if topic = name then some (payload, headers) else none
  | .acknowledged _ _ => none

/-- The offsets that were acknowledged on a topic. -/
def marks (name : String) : Deed → List String
  | .produced _ _ _ => []
  | .acknowledged topic offsets => if topic = name then offsets else []

/-- The messages produced to a topic, in order, under their positions as offsets. -/
def log (name : String) (ds : List Deed) : List RawMessage :=
  (ds.filterMap (produced? name)).mapIdx fun i m => ⟨m.1, m.2, some (toString i)⟩

/-- The offsets acknowledged on a topic. -/
def acknowledgedOn (name : String) (ds : List Deed) : List String := ds.flatMap (marks name)

/-- The messages of a topic that are not acknowledged, in log order. -/
def pending (name : String) (ds : List Deed) : List RawMessage :=
  (log name ds).filter fun m => m.offset.all fun o => !(acknowledgedOn name ds).contains o

/-- What is due to a subscription to a topic: what was pending when it began, and what was produced
since. -/
def due (name : String) (before now : List Deed) : List RawMessage :=
  pending name before ++ (log name now).drop (log name before).length

variable {name : String} {ds ds' : List Deed}

theorem log_produced (topic : String) (payload : Bytes) (headers : Headers) :
    log name (ds ++ [.produced topic payload headers]) =
      if topic = name then
        log name ds ++ [⟨payload, headers, some (toString (log name ds).length)⟩]
      else log name ds := by
  unfold log
  by_cases h : topic = name
  · simp [produced?, h, List.mapIdx_concat]
  · simp [produced?, h]

theorem log_acknowledged (topic : String) (offsets : List String) :
    log name (ds ++ [.acknowledged topic offsets]) = log name ds := by
  have hnone : [acknowledged topic offsets].filterMap (produced? name) = [] := rfl
  unfold log
  rw [List.filterMap_append, hnone, List.append_nil]

theorem acknowledgedOn_produced (topic : String) (payload : Bytes) (headers : Headers) :
    acknowledgedOn name (ds ++ [.produced topic payload headers]) = acknowledgedOn name ds := by
  simp [acknowledgedOn, marks]

theorem mem_acknowledgedOn (topic : String) (offsets : List String) (o : String) :
    o ∈ acknowledgedOn name (ds ++ [.acknowledged topic offsets]) ↔
      o ∈ acknowledgedOn name ds ∨ topic = name ∧ o ∈ offsets := by
  unfold acknowledgedOn
  by_cases h : topic = name <;> simp [marks, h]

theorem offset_inj {i j : Nat} (h : toString i = toString j) : i = j := by
  have hread := congrArg (fun s => Nat.ofDigitChars 10 s.toList 0) h
  simpa only [Nat.toString_eq_repr, Nat.toList_repr, Nat.ofDigitChars_ten_toDigits] using hread

/-- The offset of a message is its position in the log. -/
theorem log_offset {i : Nat} {m : RawMessage} (h : (log name ds)[i]? = some m) :
    m.offset = some (toString i) := by
  unfold log at h
  rw [List.getElem?_mapIdx] at h
  obtain ⟨_, -, rfl⟩ := Option.map_eq_some_iff.mp h
  rfl

theorem log_prefix (h : ds <+: ds') : log name ds <+: log name ds' := by
  obtain ⟨later, rfl⟩ := h
  unfold log
  rw [List.filterMap_append, List.mapIdx_append]
  exact List.prefix_append _ _

/-- All messages of a log have offsets of their own. -/
theorem log_nodup : ((log name ds).map RawMessage.offset).Nodup := by
  rw [List.Nodup, List.pairwise_map, List.pairwise_iff_getElem]
  intro i j hi hj hij heq
  have hat := log_offset (List.getElem?_eq_getElem hi)
  rw [heq, log_offset (List.getElem?_eq_getElem hj)] at hat
  have hsame : j = i := offset_inj (Option.some.inj hat)
  omega

/-- What is due is some of the log, in its order. -/
theorem due_sublist (h : ds <+: ds') : (due name ds ds').Sublist (log name ds') := by
  obtain ⟨later, hlater⟩ : log name ds <+: log name ds' := log_prefix h
  have hpending : (pending name ds).Sublist (log name ds) := List.filter_sublist
  have hdrop : (log name ds').drop (log name ds).length = later := by
    rw [← hlater, List.drop_left]
  unfold due
  rw [hdrop, ← hlater]
  exact hpending.append (List.Sublist.refl later)

end Deed

/-! ## Exchanges -/

/-- A subscription with its history. -/
structure Reader where
  subscription : Subscription
  /-- What had been done when it began. -/
  before : List Deed
  yielded : List RawMessage := []

/-- A transport with its subscriptions and what was done on it. -/
structure Exchange where
  transport : Transport
  deeds : List Deed := []
  readers : List Reader := []

/-- Calls of a transport and of its subscriptions. -/
inductive Act
  | produce (topic : String) (payload : Bytes) (headers : Headers)
  | acknowledge (topic : String) (offsets : List String)
  | subscribe (topic : String)
  /-- Reads a subscription, counted in the order in which they were taken. -/
  | read (reader : Nat)
  /-- Makes calls that produce fail from now on, or not. -/
  | failProduce (on : Bool)
  /-- Makes so many calls that subscribe fail. -/
  | failSubscriptions (count : Nat)

/-- Reads the next item of the subscription. -/
def Reader.read (t : Transport) (r : Reader) : Reader :=
  match t.next r.subscription with
  | (some (.message m), s) => { r with subscription := s, yielded := r.yielded ++ [m] }
  | (_, s) => { r with subscription := s }

namespace Exchange

/-- An exchange on which nothing was done, whose channels hold so many messages. -/
def fresh (capacity : Nat) : Exchange := { transport := { capacity } }

def step (e : Exchange) : Act → Exchange
  | .produce topic payload headers =>
    match e.transport.produce topic payload headers with
    | .ok t => { e with transport := t, deeds := e.deeds ++ [.produced topic payload headers] }
    | .error _ => e
  | .acknowledge topic offsets =>
    match e.transport.acknowledge topic offsets with
    | .ok t => { e with transport := t, deeds := e.deeds ++ [.acknowledged topic offsets] }
    | .error _ => e
  | .subscribe topic =>
    match e.transport.subscribe topic with
    | (.ok s, t) =>
      { e with transport := t, readers := e.readers ++ [{ subscription := s, before := e.deeds }] }
    | (.error _, t) => { e with transport := t }
  | .read i =>
    match e.readers[i]? with
    | some r => { e with readers := e.readers.set i (r.read e.transport) }
    | none => e
  | .failProduce on => { e with transport := { e.transport with failOnProduce := on } }
  | .failSubscriptions count =>
    { e with transport := { e.transport with failingSubscriptions := count } }

def run (e : Exchange) (acts : List Act) : Exchange := acts.foldl step e

/-- The transport is as the deeds make it. -/
structure Kept (t : Transport) (ds : List Deed) : Prop where
  delivery : t.delivery = {}
  live : ∀ name, (t.topic name).Live
  log : ∀ name, (t.topic name).log = Deed.log name ds
  acknowledged : ∀ name o, o ∈ (t.topic name).acknowledged ↔ o ∈ Deed.acknowledgedOn name ds

/-- What a reader has yielded and what is left of it are together what is due to it. -/
structure Follows (t : Transport) (ds : List Deed) (r : Reader) : Prop where
  before : r.before <+: ds
  position : r.subscription.position ≤ (t.topic r.subscription.topic).log.length
  isOpen : r.subscription.closed = false
  due : r.yielded ++ t.rest r.subscription = Deed.due r.subscription.topic r.before ds

structure Sound (e : Exchange) : Prop where
  kept : Kept e.transport e.deeds
  readers : ∀ r ∈ e.readers, Follows e.transport e.deeds r

/-! ### One call -/

variable {t t' : Transport} {ds : List Deed} {r : Reader}

theorem Follows.readable (h : Follows t ds r) (hk : Kept t ds) : t.Readable r.subscription :=
  ⟨hk.live _, h.position, h.isOpen⟩

/-- A call that leaves the topics leaves the readers. -/
theorem Kept.congr (h : Kept t ds) (hd : t'.delivery = t.delivery)
    (ht : ∀ name, t'.topic name = t.topic name) : Kept t' ds where
  delivery := hd.trans h.delivery
  live name := by rw [ht]; exact h.live name
  log name := by rw [ht]; exact h.log name
  acknowledged name := by rw [ht]; exact h.acknowledged name

theorem Follows.congr (h : Follows t ds r) (ht : ∀ name, t'.topic name = t.topic name) :
    Follows t' ds r where
  before := h.before
  position := by rw [ht]; exact h.position
  isOpen := h.isOpen
  due := by
    rw [← h.due]
    simp only [Transport.rest, ht]

/-- **A produced message is left to every reader of its topic**, after all the others. -/
theorem Follows.produce {name : String} {payload : Bytes} {headers : Headers} (h : Follows t ds r)
    (hk : Kept t ds) (hp : t.produce name payload headers = .ok t') :
    Follows t' (ds ++ [.produced name payload headers]) r := by
  have htopic := (Transport.produce_ok hp).2 r.subscription.topic
  have hbefore : (Deed.log r.subscription.topic r.before).length ≤
      (Deed.log r.subscription.topic ds).length := (Deed.log_prefix h.before).length_le
  have hdue := h.due
  have hlog := hk.log r.subscription.topic
  refine ⟨h.before.trans (List.prefix_append _ _), ?_, h.isOpen, ?_⟩
  · rw [htopic]
    split
    · next hn =>
      simp only [Topic.produce, List.length_append, hn]
      exact Nat.le_add_right_of_le h.position
    · exact h.position
  · unfold Transport.rest Deed.due at hdue ⊢
    rw [htopic, Deed.log_produced]
    by_cases hn : name = r.subscription.topic
    · rw [if_pos hn, if_pos hn, hn]
      simp only [Topic.produce]
      rw [List.drop_append_of_le_length h.position, List.drop_append_of_le_length hbefore, hlog]
      rw [hlog] at hdue
      rw [← List.append_assoc, ← List.append_assoc, ← List.append_assoc, List.append_assoc r.yielded,
        hdue, List.append_assoc]
    · rw [if_neg hn, if_neg hn]
      exact hdue

theorem Kept.produce {name : String} {payload : Bytes} {headers : Headers} (h : Kept t ds)
    (hp : t.produce name payload headers = .ok t') :
    Kept t' (ds ++ [.produced name payload headers]) := by
  obtain ⟨hd, htopic⟩ := Transport.produce_ok hp
  refine ⟨hd.trans h.delivery, fun other => ?_, fun other => ?_, fun other o => ?_⟩
  · rw [htopic]
    split
    · exact (h.live name).produce _ _ _
    · exact h.live other
  · rw [htopic, Deed.log_produced]
    split
    · next hn => rw [← hn, ← h.log name]; rfl
    · exact h.log other
  · rw [Transport.produce_acknowledged hp, Deed.acknowledgedOn_produced]
    exact h.acknowledged other o

theorem Kept.acknowledge {name : String} {offsets : List String} (h : Kept t ds)
    (ha : t.acknowledge name offsets = .ok t') : Kept t' (ds ++ [.acknowledged name offsets]) := by
  obtain ⟨hd, htopic⟩ := Transport.acknowledge_ok ha
  refine ⟨hd.trans h.delivery, fun other => ?_, fun other => ?_, fun other o => ?_⟩
  · obtain ⟨hlog, hchannel, -⟩ := htopic other
    exact ⟨by rw [hlog, hchannel]; exact (h.live other).sent,
      by rw [hlog, hchannel]; exact (h.live other).kept⟩
  · rw [(htopic other).1, Deed.log_acknowledged]
    exact h.log other
  · rw [(htopic other).2.2, Deed.mem_acknowledgedOn, h.acknowledged]

theorem Follows.acknowledge {name : String} {offsets : List String} (h : Follows t ds r)
    (ha : t.acknowledge name offsets = .ok t') :
    Follows t' (ds ++ [.acknowledged name offsets]) r := by
  have hlog := ((Transport.acknowledge_ok ha).2 r.subscription.topic).1
  refine ⟨h.before.trans (List.prefix_append _ _), by rw [hlog]; exact h.position, h.isOpen, ?_⟩
  have hdue := h.due
  unfold Transport.rest Deed.due at hdue ⊢
  rw [hlog, Deed.log_acknowledged]
  exact hdue

/-- **A new subscription has everything due to it left**: what is pending. -/
theorem Follows.subscribe {name : String} {s : Subscription} (hk : Kept t ds)
    (hs : (t.subscribe name).1 = .ok s) : Follows t ds { subscription := s, before := ds } := by
  rw [Transport.subscribe_ok hs]
  have hsent : (t.topic name).channel.sent = (t.topic name).log.length := (hk.live name).sent
  have hbacklog : (t.topic name).backlog = Deed.pending name ds := by
    unfold Topic.backlog Deed.pending
    rw [hk.log name]
    refine List.filter_congr fun m _ => ?_
    have hmarked : ∀ o, (t.topic name).acknowledged.contains o =
        (Deed.acknowledgedOn name ds).contains o := by
      intro o
      rw [Bool.eq_iff_iff, List.contains_iff_mem, List.contains_iff_mem]
      exact hk.acknowledged name o
    unfold Topic.isAcknowledged
    cases m.offset with
    | none => rfl
    | some o =>
      rw [Option.all_some, ← hmarked]
  refine ⟨List.prefix_refl ds, Nat.le_of_eq hsent, rfl, ?_⟩
  simp [Transport.rest, Deed.due, hbacklog, hsent, ← hk.log name]

/-- **A read takes what is left first.** -/
theorem Follows.read (h : Follows t ds r) (hk : Kept t ds) : Follows t ds (r.read t) := by
  obtain ⟨hnext, hrest, hreadable, htopic⟩ := Transport.next_rest (h.readable hk) hk.delivery
  have hdue := h.due
  rw [← htopic] at hdue
  rcases hread : t.next r.subscription with ⟨item, s⟩
  rw [hread] at hnext hrest hreadable hdue
  dsimp only at hnext hrest hreadable hdue
  cases hleft : t.rest r.subscription with
  | nil =>
    rw [hleft] at hnext hrest hdue
    have hr : r.read t = { r with subscription := s } := by
      unfold Reader.read
      rw [hread, hnext]
      rfl
    rw [hr]
    refine ⟨h.before, hreadable.position, hreadable.isOpen, ?_⟩
    rw [hrest]
    exact hdue
  | cons m left =>
    rw [hleft] at hnext hrest hdue
    have hr : r.read t = { r with subscription := s, yielded := r.yielded ++ [m] } := by
      unfold Reader.read
      rw [hread, hnext]
      rfl
    rw [hr]
    refine ⟨h.before, hreadable.position, hreadable.isOpen, ?_⟩
    rw [hrest, List.append_assoc]
    exact hdue

/-- **Every call keeps what is due to a reader.** -/
theorem Sound.step {e : Exchange} (h : e.Sound) (a : Act) : (e.step a).Sound := by
  obtain ⟨hk, hr⟩ := h
  cases a with
  | produce name payload headers =>
    simp only [Exchange.step]
    cases hp : e.transport.produce name payload headers with
    | error _ => exact ⟨hk, hr⟩
    | ok t => exact ⟨hk.produce hp, fun r hmem => (hr r hmem).produce hk hp⟩
  | acknowledge name offsets =>
    simp only [Exchange.step]
    cases ha : e.transport.acknowledge name offsets with
    | error _ => exact ⟨hk, hr⟩
    | ok t => exact ⟨hk.acknowledge ha, fun r hmem => (hr r hmem).acknowledge ha⟩
  | subscribe name =>
    obtain ⟨hd, ht⟩ := e.transport.subscribe_topics name
    have hnew : ∀ s, (e.transport.subscribe name).1 = .ok s → Follows e.transport e.deeds _ :=
      fun s => Follows.subscribe hk
    simp only [Exchange.step]
    rcases hs : e.transport.subscribe name with ⟨_ | s, t⟩ <;> rw [hs] at hd ht hnew
    · exact ⟨hk.congr hd ht, fun r hmem => (hr r hmem).congr ht⟩
    · refine ⟨hk.congr hd ht, fun r hmem => ?_⟩
      rcases List.mem_append.mp hmem with hold | hlast
      · exact (hr r hold).congr ht
      · rw [List.mem_singleton.mp hlast]
        exact (hnew s rfl).congr ht
  | read i =>
    simp only [Exchange.step]
    cases hi : e.readers[i]? with
    | none => exact ⟨hk, hr⟩
    | some r =>
      refine ⟨hk, fun r' hmem => ?_⟩
      rcases List.mem_or_eq_of_mem_set hmem with hold | rfl
      · exact hr r' hold
      · exact (hr r (List.mem_of_getElem? hi)).read hk
  | failProduce on => exact ⟨hk.congr rfl fun _ => rfl, fun r hmem => (hr r hmem).congr fun _ => rfl⟩
  | failSubscriptions count =>
    exact ⟨hk.congr rfl fun _ => rfl, fun r hmem => (hr r hmem).congr fun _ => rfl⟩

/-! ### Any calls -/

theorem sound_fresh (capacity : Nat) : (fresh capacity).Sound where
  kept := by
    refine ⟨rfl, fun name => ⟨rfl, List.nil_suffix⟩, fun name => rfl, fun name o => ?_⟩
    simp [fresh, Transport.topic, Transport.topic?, Deed.acknowledgedOn]
  readers := by simp [fresh]

theorem Sound.run {e : Exchange} (h : e.Sound) (acts : List Act) : (e.run acts).Sound := by
  induction acts generalizing e with
  | nil => exact h
  | cons a acts ih => exact ih (h.step a)

/-- **A subscription misses nothing and doubles nothing.** Whatever is produced, acknowledged,
subscribed and read, and however little the channels hold: a subscription has yielded a beginning of
what is due to it, that is, what was pending in the topic's log when it began and then what was
produced to the topic since, in log order and each message once under its position as the offset. If
it is read it yields the next message due, and nothing only if there is none. -/
theorem misses_nothing (capacity : Nat) (acts : List Act) {r : Reader}
    (hr : r ∈ ((fresh capacity).run acts).readers) :
    let e := (fresh capacity).run acts
    let topic := r.subscription.topic
    let due := Deed.due topic r.before e.deeds
    r.before <+: e.deeds ∧ r.yielded <+: due ∧
      (e.transport.next r.subscription).1 = due[r.yielded.length]?.map .message ∧
      (due.map RawMessage.offset).Nodup ∧ due.Sublist (e.transport.produced topic) ∧
      e.transport.produced topic = Deed.log topic e.deeds ∧
      ∀ (i : Nat) (m : RawMessage), (Deed.log topic e.deeds)[i]? = some m → m.offset = some (toString i) := by
  intro e topic due
  have hsound : e.Sound := (sound_fresh capacity).run acts
  have hfollows : Follows e.transport e.deeds r := hsound.readers r hr
  have hdue : r.yielded ++ e.transport.rest r.subscription = due := hfollows.due
  have hlog : e.transport.produced topic = Deed.log topic e.deeds := hsound.kept.log topic
  have hsub : due.Sublist (Deed.log topic e.deeds) := Deed.due_sublist hfollows.before
  obtain ⟨hnext, -⟩ := Transport.next_rest (hfollows.readable hsound.kept) hsound.kept.delivery
  refine ⟨hfollows.before, ⟨_, hdue⟩, ?_, ?_, ?_, hlog, fun i m => Deed.log_offset⟩
  · rw [hnext, ← hdue, List.getElem?_append_right (Nat.le_refl _), Nat.sub_self, List.head?_eq_getElem?]
  · exact List.Nodup.sublist (hsub.map RawMessage.offset) Deed.log_nodup
  · rw [hlog]
    exact hsub

/-- A reader that falls behind a channel of two messages, and one that subscribes later, while a
message is acknowledged in between. -/
def laggingActs : List Act :=
  [.produce "orders" [0] .empty, .subscribe "orders", .produce "orders" [1] .empty,
    .produce "orders" [2] .empty, .produce "orders" [3] .empty, .produce "orders" [4] .empty,
    .read 0, .read 0, .acknowledge "orders" ["1"], .subscribe "orders", .read 1, .read 1, .read 0]

/-- The first reader has been handed the first three messages in order, the other one the two that
are not acknowledged. -/
theorem misses_nothing_lagging :
    ∃ r ∈ ((fresh 2).run laggingActs).readers, ∃ r' ∈ ((fresh 2).run laggingActs).readers,
      r.yielded.map RawMessage.offset = [some "0", some "1", some "2"] ∧
      r'.yielded.map RawMessage.offset = [some "0", some "2"] ∧
      r.yielded <+: Deed.due "orders" r.before ((fresh 2).run laggingActs).deeds ∧
      r'.yielded <+: Deed.due "orders" r'.before ((fresh 2).run laggingActs).deeds := by
  have hreaders : ((fresh 2).run laggingActs).readers.map
      (fun r => (r.subscription.topic, r.yielded.map RawMessage.offset)) =
        [("orders", [some "0", some "1", some "2"]), ("orders", [some "0", some "2"])] := by
    decide +kernel
  obtain ⟨r, rest, hrs, hr, hrest⟩ := List.map_eq_cons_iff.mp hreaders
  obtain ⟨r', rest', hrs', hr', -⟩ := List.map_eq_cons_iff.mp hrest
  obtain ⟨htopic, hyielded⟩ := Prod.mk.inj hr
  obtain ⟨htopic', hyielded'⟩ := Prod.mk.inj hr'
  have hmem : r ∈ ((fresh 2).run laggingActs).readers := by rw [hrs]; exact List.mem_cons_self
  have hmem' : r' ∈ ((fresh 2).run laggingActs).readers := by rw [hrs, hrs']; simp
  refine ⟨r, hmem, r', hmem', hyielded, hyielded', ?_, ?_⟩
  · rw [← htopic]
    exact (misses_nothing 2 laggingActs hmem).2.1
  · rw [← htopic']
    exact (misses_nothing 2 laggingActs hmem').2.1

end Exchange

end Relay
