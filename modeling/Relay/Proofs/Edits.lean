import Mathlib.Data.List.Induction
import Relay.Proofs.Headers
/-!
# Headers under edits

An `Edit` is any change that headers offer. What it comes down to is a list of `Deed`s: values
written and names removed, of which it depends on the headers whether an insertion of a missing name
is one. Headers that were collected from pairs and edited any number of times are what the deeds since
then have made of none (`run_collected`).

Results:
- `perform_distinct`: no two entries ever have the same name up to case. Removal, which takes the first
  entry of a name, takes every one for that reason (`remove_entries`).
- `get?_performed`: the value found under a name is the one last written under it (`Stands`).
- `edited`: what an edit makes of the entries, one case for each (`Edited`).
- `ordered_map`: all of this for headers reached by any edits.
-/
namespace Relay.Headers

/-! ## Deeds -/

/-- What is done to a name. -/
inductive Deed
  | wrote (name value : String)
  | removed (name : String)

namespace Deed

/-- The name that it is done to. -/
def name : Deed → String
  | .wrote n _ => n
  | .removed n => n

def perform (h : Headers) : Deed → Headers
  | .wrote n v => h.insert n v
  | .removed n => h.remove n

end Deed

/-- The headers that the deeds make of none. -/
def performed (ds : List Deed) : Headers := ds.foldl Deed.perform empty

theorem performed_concat (ds : List Deed) (d : Deed) :
    performed (ds ++ [d]) = d.perform (performed ds) := List.foldl_append

/-- The value is the last one written under the name, in any spelling, and the name has not been
removed since. -/
def Stands (name value : String) (ds : List Deed) : Prop :=
  ∃ before spelling after, ds = before ++ .wrote spelling value :: after ∧
    sameName spelling name = true ∧ ∀ d ∈ after, sameName d.name name = false

/-- Only the last deed about a name counts. -/
theorem stands_concat (name value : String) (ds : List Deed) (d : Deed) :
    Stands name value (ds ++ [d]) ↔
      if sameName d.name name then ∃ spelling, d = .wrote spelling value else Stands name value ds := by
  constructor
  · rintro ⟨before, spelling, after, hds, hsame, hafter⟩
    rcases List.eq_nil_or_concat after with rfl | ⟨after, d', rfl⟩
    · obtain ⟨-, rfl⟩ := List.append_singleton_inj.mp hds
      have hlast : sameName (Deed.wrote spelling value).name name = true := hsame
      rw [if_pos hlast]
      exact ⟨spelling, rfl⟩
    · rw [List.concat_eq_append] at hds hafter
      rw [← List.cons_append, ← List.append_assoc] at hds
      obtain ⟨rfl, rfl⟩ := List.append_singleton_inj.mp hds
      have hlast : sameName d.name name = false := hafter d (by simp)
      rw [hlast]
      exact ⟨before, spelling, after, rfl, hsame, fun e he =>
        hafter e (List.mem_append_left _ he)⟩
  · intro h
    by_cases hd : sameName d.name name = true
    · rw [if_pos hd] at h
      obtain ⟨spelling, rfl⟩ := h
      exact ⟨ds, spelling, [], rfl, hd, fun _ he => by cases he⟩
    · rw [if_neg hd] at h
      obtain ⟨before, spelling, after, rfl, hsame, hafter⟩ := h
      refine ⟨before, spelling, after ++ [d], by simp, hsame, fun e he => ?_⟩
      rcases List.mem_append.mp he with he | he
      · exact hafter e he
      · rw [List.mem_singleton.mp he]
        simpa using hd

/-! ## One entry for each name -/

/-- No two entries have the same name up to case. -/
def Distinct (h : Headers) : Prop := h.entries.Pairwise fun a b => sameName a.1 b.1 = false

/-- An entry takes the value in its place, or the pair is appended where no entry has the name. -/
inductive Written (name value : String) : List (String × String) → List (String × String) → Prop
  | replaced {before after : List (String × String)} {spelling old : String}
      (same : sameName spelling name = true) :
      Written name value (before ++ (spelling, old) :: after) (before ++ (spelling, value) :: after)
  | appended {es : List (String × String)} (absent : ∀ e ∈ es, sameName e.1 name = false) :
      Written name value es (es ++ [(name, value)])

theorem put_written (name value : String) (es : List (String × String)) :
    Written name value es (put name value es) := by
  induction es with
  | nil => exact .appended fun _ he => by cases he
  | cons e es ih =>
    by_cases he : sameName e.1 name = true
    · rw [put, if_pos he]
      exact @Written.replaced name value [] es e.1 e.2 he
    · rw [put, if_neg he]
      generalize put name value es = es' at ih
      cases ih with
      | replaced same => exact @Written.replaced name value (e :: _) _ _ _ same
      | appended absent =>
        refine @Written.appended name value (e :: es) fun x hx => ?_
        rcases List.mem_cons.mp hx with rfl | hx
        · simpa using he
        · exact absent x hx

theorem Written.distinct {name value : String} {es es' : List (String × String)}
    (hw : Written name value es es') (hd : Distinct ⟨es⟩) : Distinct ⟨es'⟩ := by
  unfold Distinct at hd ⊢
  cases hw with
  | replaced same =>
    -- the names are those they were
    rw [← List.pairwise_map (f := Prod.fst) (R := fun a b => sameName a b = false)] at hd ⊢
    rw [List.map_append, List.map_cons] at hd ⊢
    exact hd
  | appended absent =>
    refine List.pairwise_append.mpr ⟨hd, List.pairwise_singleton _ _, fun e he e' he' => ?_⟩
    rw [List.mem_singleton.mp he']
    exact absent e he

/-- What goes is the only entry of the name. -/
theorem remove_entries {h : Headers} (hd : h.Distinct) (name : String) :
    (h.remove name).entries = h.entries.filter fun e => !sameName e.1 name := by
  obtain ⟨es⟩ := h
  unfold Distinct at hd
  unfold remove
  dsimp only at hd ⊢
  induction es with
  | nil => rfl
  | cons e es ih =>
    obtain ⟨hothers, hd⟩ := List.pairwise_cons.mp hd
    rw [List.eraseP_cons, List.filter_cons]
    cases he : sameName e.1 name with
    | false => exact congrArg (e :: ·) (ih hd)
    | true =>
      refine (List.filter_eq_self.mpr fun e' he' => ?_).symm
      have hother : sameName name e'.1 = false := sameName_left he e'.1 ▸ hothers e' he'
      rw [sameName_comm, hother]
      rfl

theorem remove_distinct {h : Headers} (hd : h.Distinct) (name : String) :
    (h.remove name).Distinct := by
  unfold Distinct
  rw [remove_entries hd]
  exact hd.filter _

theorem perform_distinct {h : Headers} (hd : h.Distinct) (d : Deed) : (d.perform h).Distinct := by
  cases d with
  | wrote n v => exact (put_written n v h.entries).distinct hd
  | removed n => exact remove_distinct hd n

theorem performed_distinct (ds : List Deed) : (performed ds).Distinct := by
  induction ds using List.reverseRecOn with
  | nil => exact List.Pairwise.nil
  | append_singleton ds d ih =>
    rw [performed_concat]
    exact perform_distinct ih d

/-! ## What is found under a name -/

theorem get?_remove {h : Headers} (hd : h.Distinct) (name other : String) :
    (h.remove name).get? other = if sameName name other then none else h.get? other := by
  cases hs : sameName name other with
  | false => exact get?_remove_of_ne h hs
  | true =>
    rw [if_pos rfl, get?_eq_none]
    unfold contains
    rw [remove_entries hd, List.any_eq_false]
    intro e he
    have hne := (List.mem_filter.mp he).2
    rw [Bool.not_eq_true', sameName_comm, sameName_left hs] at hne
    rw [sameName_comm, hne]
    exact Bool.false_ne_true

/-- **The value found under a name is the one last written under it**, if it was not removed
since. -/
theorem get?_performed (ds : List Deed) (name value : String) :
    (performed ds).get? name = some value ↔ Stands name value ds := by
  induction ds using List.reverseRecOn with
  | nil =>
    refine ⟨fun h => (nomatch h), ?_⟩
    rintro ⟨before, spelling, after, hds, -⟩
    simp at hds
  | append_singleton ds d ih =>
    rw [performed_concat, stands_concat]
    cases d with
    | wrote n v =>
      change ((performed ds).insert n v).get? name = _ ↔ if sameName n name then _ else _
      rw [get?_insert]
      cases sameName n name with
      | false => exact ih
      | true => simp
    | removed n =>
      change ((performed ds).remove n).get? name = _ ↔ if sameName n name then _ else _
      rw [get?_remove (performed_distinct ds)]
      cases sameName n name with
      | false => exact ih
      | true => simp

/-! ## Edits -/

/-- A change of headers. Building them up value by value is insertion. -/
inductive Edit
  | insert (name value : String)
  | insertIfMissing (name value : String)
  | remove (name : String)
  | writeChunk (c : ChunkHeaders)
  | removeChunk

namespace Edit

def apply (h : Headers) : Edit → Headers
  | .insert n v => h.insert n v
  | .insertIfMissing n v => h.insertIfMissing n v
  | .remove n => h.remove n
  | .writeChunk c => c.write h
  | .removeChunk => ChunkHeaders.remove h

/-- The names that it is about. -/
def names : Edit → List String
  | .insert n _ => [n]
  | .insertIfMissing n _ => [n]
  | .remove n => [n]
  | .writeChunk _ => [chunkIndex, chunksCount]
  | .removeChunk => [chunkIndex, chunksCount]

/-- It is about other names. -/
def Spares (e : Edit) (name : String) : Prop := ∀ n ∈ e.names, sameName n name = false

/-- What it does to the headers, in order. -/
def deeds (h : Headers) : Edit → List Deed
  | .insert n v => [.wrote n v]
  | .insertIfMissing n v => if h.contains n then [] else [.wrote n v]
  | .remove n => [.removed n]
  | .writeChunk c =>
    [.wrote chunkIndex (toString c.index.toNat), .wrote chunksCount (toString c.count.toNat)]
  | .removeChunk => [.removed chunkIndex, .removed chunksCount]

theorem apply_eq (h : Headers) (e : Edit) : e.apply h = (e.deeds h).foldl Deed.perform h := by
  cases e with
  | insertIfMissing n v =>
    change h.insertIfMissing n v = List.foldl _ h (if h.contains n then [] else [Deed.wrote n v])
    unfold Headers.insertIfMissing
    by_cases hc : h.contains n = true
    · rw [if_pos hc, if_pos hc]
      rfl
    · rw [if_neg hc, if_neg hc, ← insert_of_absent (by simpa using hc)]
      rfl
  | insert => rfl
  | remove => rfl
  | writeChunk => rfl
  | removeChunk => rfl

end Edit

/-- Makes the edits one after the other. -/
def run (h : Headers) (es : List Edit) : Headers := es.foldl Edit.apply h

/-- All that the edits do, in order. -/
def history (h : Headers) : List Edit → List Deed
  | [] => []
  | e :: es => e.deeds h ++ history (e.apply h) es

theorem run_eq (h : Headers) (es : List Edit) : run h es = (history h es).foldl Deed.perform h := by
  unfold run
  induction es generalizing h with
  | nil => rfl
  | cons e es ih => rw [List.foldl_cons, ih, history, List.foldl_append, ← Edit.apply_eq]

/-- Collecting pairs writes them. -/
def collected (pairs : List (String × String)) : List Deed := pairs.map fun p => .wrote p.1 p.2

theorem ofList_eq (pairs : List (String × String)) : ofList pairs = performed (collected pairs) := by
  unfold ofList performed collected
  rw [List.foldl_map]
  rfl

/-- Headers are what has been done since there were none. -/
theorem run_collected (pairs : List (String × String)) (es : List Edit) :
    run (ofList pairs) es = performed (collected pairs ++ history (ofList pairs) es) := by
  rw [run_eq]
  unfold performed
  rw [List.foldl_append]
  exact congrArg (List.foldl Deed.perform · _) (ofList_eq pairs)

/-! ## The map -/

/-- What an edit makes of the entries: the headers other than those it is about stay as they are, in
their order. -/
inductive Edited : List (String × String) → Edit → List (String × String) → Prop
  | inserted {name value : String} {es es' : List (String × String)}
      (written : Written name value es es') : Edited es (.insert name value) es'
  | missing {name value : String} {es : List (String × String)}
      (absent : ∀ e ∈ es, sameName e.1 name = false) :
      Edited es (.insertIfMissing name value) (es ++ [(name, value)])
  | present {name value : String} {es : List (String × String)} {e : String × String}
      (mem : e ∈ es) (same : sameName e.1 name = true) : Edited es (.insertIfMissing name value) es
  | removed {name : String} {es : List (String × String)} :
      Edited es (.remove name) (es.filter fun e => !sameName e.1 name)
  | chunkWritten {c : ChunkHeaders} {es es₁ es₂ : List (String × String)}
      (index : Written chunkIndex (toString c.index.toNat) es es₁)
      (count : Written chunksCount (toString c.count.toNat) es₁ es₂) : Edited es (.writeChunk c) es₂
  | chunkRemoved {es : List (String × String)} :
      Edited es .removeChunk
        ((es.filter fun e => !sameName e.1 chunkIndex).filter fun e => !sameName e.1 chunksCount)

theorem edited {h : Headers} (hd : h.Distinct) (e : Edit) : Edited h.entries e (e.apply h).entries := by
  cases e with
  | insert n v => exact .inserted (put_written n v h.entries)
  | insertIfMissing n v =>
    change Edited _ _ (h.insertIfMissing n v).entries
    unfold insertIfMissing
    by_cases hc : h.contains n = true
    · rw [if_pos hc]
      obtain ⟨e, he, hs⟩ := List.any_eq_true.mp hc
      exact .present he hs
    · rw [if_neg hc]
      refine .missing fun e he => ?_
      simpa using List.any_eq_false.mp (Bool.not_eq_true _ ▸ hc) e he
  | remove n =>
    have hentries : (Edit.apply h (.remove n)).entries = _ := remove_entries hd n
    rw [hentries]
    exact .removed
  | writeChunk c => exact .chunkWritten (put_written _ _ _) (put_written _ _ _)
  | removeChunk =>
    have hentries : (Edit.apply h .removeChunk).entries = _ :=
      remove_entries (remove_distinct hd chunkIndex) chunksCount
    rw [hentries, remove_entries hd]
    exact .chunkRemoved

/-- **Headers are an ordered map with names up to case.** Two names are the same if they differ in
nothing but the case of ASCII letters. For headers that were collected from any pairs and edited any
number of times: no two entries have the same name; what is found under a name, in whatever spelling, is
the value last written under it, in whatever spelling, since it was last removed, and nothing if there is
none; an edit changes the entries as `Edited` says; and under a name that is removed nothing is found. -/
theorem ordered_map (pairs : List (String × String)) (es : List Edit) :
    let h := run (ofList pairs) es
    (∀ a b, sameName a b = true ↔ Respelled a b) ∧
      h.Distinct ∧
      (∀ name value, h.get? name = some value ↔
        Stands name value (collected pairs ++ history (ofList pairs) es)) ∧
      (∀ e : Edit, Edited h.entries e (e.apply h).entries) ∧
      (∀ name spelling, (h.remove name).get? spelling =
        if sameName name spelling then none else h.get? spelling) ∧
      ∀ spelling, (ChunkHeaders.remove h).get? spelling =
        if sameName chunkIndex spelling || sameName chunksCount spelling then none
        else h.get? spelling := by
  intro h
  have hh : h = performed _ := run_collected pairs es
  have hd : h.Distinct := hh ▸ performed_distinct _
  refine ⟨fun _ _ => sameName_respelled, hd, fun name value => ?_, edited hd, get?_remove hd,
    fun spelling => ?_⟩
  · rw [hh]
    exact get?_performed _ name value
  · unfold ChunkHeaders.remove
    rw [get?_remove (remove_distinct hd chunkIndex), get?_remove hd]
    cases sameName chunkIndex spelling <;> cases sameName chunksCount spelling <;> rfl

end Relay.Headers
