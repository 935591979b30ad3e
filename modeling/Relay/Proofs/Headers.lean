import Mathlib.Data.List.Forall2
import Relay.Chunk
/-!
# Headers as a map

What `get?` answers after an insertion or a removal, and what the chunk headers of a message are
after either. Names are compared up to case, so every statement is up to `sameName`, which holds of
two names that differ in the case of ASCII letters only (`sameName_respelled`).
-/
namespace Relay

/-! ## Names -/

theorem sameName_iff {a b : String} : sameName a b = true ↔ foldName a = foldName b := by
  simp [sameName]

theorem sameName_refl (a : String) : sameName a a = true := sameName_iff.mpr rfl

theorem sameName_comm (a b : String) : sameName a b = sameName b a := Bool.beq_comm

/-- Names that are the same are the same as the same names. -/
theorem sameName_left {a b : String} (h : sameName a b = true) (c : String) :
    sameName a c = sameName b c := by
  unfold sameName
  rw [sameName_iff.mp h]

/-- The capital and the small form of one letter from A to Z. -/
def CapitalOf (c d : Char) : Prop := 'A' ≤ c ∧ c ≤ 'Z' ∧ d.toNat = c.toNat + 32

/-- Two spellings that differ in the case of ASCII letters only. -/
def Respelled (a b : String) : Prop :=
  List.Forall₂ (fun c d => c = d ∨ CapitalOf c d ∨ CapitalOf d c) a.toList b.toList

theorem capitalOf_iff {c d : Char} :
    CapitalOf c d ↔ 65 ≤ c.toNat ∧ c.toNat ≤ 90 ∧ d.toNat = c.toNat + 32 := by
  unfold CapitalOf
  rw [Char.le_def, Char.le_def, UInt32.le_iff_toNat_le, UInt32.le_iff_toNat_le]
  rfl

theorem toNat_toLower (c : Char) :
    c.toLower.toNat = if 65 ≤ c.toNat ∧ c.toNat ≤ 90 then c.toNat + 32 else c.toNat := by
  unfold Char.toLower
  by_cases hc : c.val ≥ 'A'.val ∧ c.val ≤ 'Z'.val
  · have hz : c.toNat ≤ 90 := UInt32.le_iff_toNat_le.mp hc.2
    rw [dif_pos hc, if_pos ⟨UInt32.le_iff_toNat_le.mp hc.1, hz⟩]
    exact Nat.mod_eq_of_lt (show c.toNat + 32 < 2 ^ 32 by omega)
  · have hout : ¬ (65 ≤ c.toNat ∧ c.toNat ≤ 90) := fun h =>
      hc ⟨UInt32.le_iff_toNat_le.mpr h.1, UInt32.le_iff_toNat_le.mpr h.2⟩
    rw [dif_neg hc, if_neg hout]

theorem toLower_eq_iff {c d : Char} :
    c.toLower = d.toLower ↔ c = d ∨ CapitalOf c d ∨ CapitalOf d c := by
  rw [← Char.toNat_inj, ← Char.toNat_inj, toNat_toLower, toNat_toLower, capitalOf_iff, capitalOf_iff]
  split <;> split <;> omega

theorem sameName_respelled {a b : String} : sameName a b = true ↔ Respelled a b := by
  unfold sameName foldName Respelled
  rw [beq_iff_eq, ← List.forall₂_eq_eq_eq, List.forall₂_map_left_iff, List.forall₂_map_right_iff]
  simp only [toLower_eq_iff]

/-- Letters outside ASCII have no case. -/
example : sameName "X-Tenant" "x-TENANT" = true ∧ sameName "É" "é" = false := by decide

namespace Headers

variable {h : Headers} {name other value : String}

theorem contains_iff : h.contains name = true ↔ ∃ v, h.get? name = some v := by
  unfold contains get?
  constructor
  · intro hc
    cases hf : h.entries.find? fun e => sameName e.1 name with
    | some e => exact ⟨e.2, rfl⟩
    | none =>
      rw [List.find?_eq_none] at hf
      obtain ⟨e, he, hn⟩ := List.any_eq_true.mp hc
      exact absurd hn (hf e he)
  · rintro ⟨v, hv⟩
    obtain ⟨e, he, -⟩ := Option.map_eq_some_iff.mp hv
    have hs := List.find?_some he
    exact List.any_eq_true.mpr ⟨e, List.mem_of_find?_eq_some he, hs⟩

theorem get?_eq_none : h.get? name = none ↔ h.contains name = false := by
  rw [← Bool.not_eq_true, contains_iff, Option.eq_none_iff_forall_ne_some]
  simp

/-! ## Insertion -/

theorem find?_put (es : List (String × String)) :
    ((put name value es).find? fun e => sameName e.1 other).map Prod.snd =
      if sameName name other then some value
      else (es.find? fun e => sameName e.1 other).map Prod.snd := by
  induction es with
  | nil =>
    unfold put
    rw [List.find?_cons]
    cases sameName name other <;> rfl
  | cons e es ih =>
    unfold put
    by_cases he : sameName e.1 name = true
    · rw [if_pos he, List.find?_cons, List.find?_cons, sameName_left he other]
      cases sameName name other <;> rfl
    · rw [if_neg he, List.find?_cons, List.find?_cons]
      cases heo : sameName e.1 other with
      | false => exact ih
      | true =>
        have hno : ¬ sameName name other = true := by
          rw [sameName_iff] at *
          exact fun hn => he (heo.trans hn.symm)
        rw [if_neg hno]

theorem get?_insert (h : Headers) (name value other : String) :
    (h.insert name value).get? other = if sameName name other then some value else h.get? other :=
  find?_put h.entries

theorem get?_insert_self (h : Headers) (name value : String) :
    (h.insert name value).get? name = some value := by
  rw [get?_insert, sameName_refl, if_pos rfl]

theorem get?_insert_of_ne (h : Headers) (value : String) (hn : sameName name other = false) :
    (h.insert name value).get? other = h.get? other := by
  rw [get?_insert, hn]
  rfl

theorem put_put (name first second : String) (es : List (String × String)) :
    put name second (put name first es) = put name second es := by
  induction es with
  | nil => simp only [put, if_pos (sameName_refl name)]
  | cons e es ih =>
    by_cases he : sameName e.1 name = true
    · simp only [put, if_pos he]
    · simp only [put, if_neg he, ih]

/-- The second value takes the place of the first. -/
theorem insert_insert (h : Headers) (name first second : String) :
    (h.insert name first).insert name second = h.insert name second :=
  congrArg Headers.mk (put_put name first second h.entries)

/-- The entries of the other names stay as they are. -/
theorem others_put (name value : String) (es : List (String × String)) :
    (put name value es).filter (fun e => !sameName e.1 name) =
      es.filter fun e => !sameName e.1 name := by
  induction es with
  | nil =>
    unfold put
    rw [List.filter_cons, sameName_refl]
    rfl
  | cons e es ih =>
    unfold put
    by_cases he : sameName e.1 name = true
    · rw [if_pos he, List.filter_cons, List.filter_cons, he]
      rfl
    · rw [if_neg he, List.filter_cons, List.filter_cons, ih]

theorem put_of_absent {es : List (String × String)}
    (h : es.any (fun e => sameName e.1 name) = false) : put name value es = es ++ [(name, value)] := by
  induction es with
  | nil => rfl
  | cons e es ih =>
    rw [List.any_cons, Bool.or_eq_false_iff] at h
    unfold put
    rw [h.1, ih h.2]
    rfl

theorem insert_of_absent (hn : h.contains name = false) :
    h.insert name value = ⟨h.entries ++ [(name, value)]⟩ :=
  congrArg Headers.mk (put_of_absent hn)

theorem get?_insertIfMissing (h : Headers) (value : String) (hn : sameName name other = false) :
    (h.insertIfMissing name value).get? other = h.get? other := by
  unfold insertIfMissing
  by_cases hc : h.contains name = true
  · rw [if_pos hc]
  · rw [if_neg hc, ← insert_of_absent (by simpa using hc), get?_insert_of_ne _ _ hn]

/-! ## Removal -/

theorem get?_remove_of_ne (h : Headers) (hn : sameName name other = false) :
    (h.remove name).get? other = h.get? other := by
  obtain ⟨es⟩ := h
  unfold get? remove
  congr 1
  induction es with
  | nil => rfl
  | cons e es ih =>
    rw [List.eraseP_cons]
    cases he : sameName e.1 name with
    | true => rw [cond_true, List.find?_cons, sameName_left he, hn]
    | false =>
      rw [cond_false, List.find?_cons, List.find?_cons]
      cases sameName e.1 other with
      | true => rfl
      | false => exact ih

theorem eraseP_put (value : String) (hn : sameName name other = false)
    (es : List (String × String)) :
    (put name value es).eraseP (fun e => sameName e.1 other) =
      put name value (es.eraseP fun e => sameName e.1 other) := by
  induction es with
  | nil =>
    unfold put
    rw [List.eraseP_cons, hn]
    rfl
  | cons e es ih =>
    by_cases he : sameName e.1 name = true
    · have heo : sameName e.1 other = false := by rw [sameName_left he, hn]
      simp only [put, if_pos he, heo, List.eraseP_cons, cond_false]
    · cases heo : sameName e.1 other with
      | true => simp only [put, if_neg he, heo, List.eraseP_cons, cond_true]
      | false => simp only [put, if_neg he, heo, List.eraseP_cons, cond_false, ih]

/-- Insertion and removal of different names change places. -/
theorem remove_insert (h : Headers) (value : String) (hn : sameName name other = false) :
    (h.insert name value).remove other = (h.remove other).insert name value :=
  congrArg Headers.mk (eraseP_put value hn h.entries)

/-- What was added is removed again. -/
theorem remove_append (hn : h.contains name = false) (rest : List (String × String)) :
    Headers.remove ⟨h.entries ++ (name, value) :: rest⟩ name = ⟨h.entries ++ rest⟩ := by
  unfold contains at hn
  unfold remove
  rw [List.eraseP_append_right _ fun e he => (List.any_eq_false.mp hn) e he, List.eraseP_cons,
    sameName_refl, cond_true]

end Headers

/-! ## The two chunk headers -/

namespace ChunkHeaders

open Headers

/-- A name that is neither of the two chunk headers. -/
def Foreign (name : String) : Prop :=
  sameName name chunkIndex = false ∧ sameName name chunksCount = false

theorem foreign_failedAttempts : Foreign failedAttempts := ⟨by decide, by decide⟩

theorem read_insert (h : Headers) {name : String} (hn : Foreign name) (value : String) :
    read (h.insert name value) = read h := by
  unfold read parse
  rw [get?_insert_of_ne h value hn.1, get?_insert_of_ne h value hn.2]

theorem remove_insert (h : Headers) {name : String} (hn : Foreign name) (value : String) :
    remove (h.insert name value) = (remove h).insert name value := by
  unfold remove
  rw [Headers.remove_insert _ _ hn.1, Headers.remove_insert _ _ hn.2]

theorem get?_remove (h : Headers) {name : String} (hi : sameName chunkIndex name = false)
    (hc : sameName chunksCount name = false) : (remove h).get? name = h.get? name := by
  unfold remove
  rw [get?_remove_of_ne _ hc, get?_remove_of_ne _ hi]

/-- Joining leaves the message id alone. -/
theorem messageId_remove (h : Headers) : (remove h).get? messageId = h.get? messageId :=
  get?_remove h (by decide) (by decide)

/-- No chunk headers are read as the refusal of a store. -/
theorem read_error {h : Headers} {e : ChunkError} (hr : read h = .error e)
    (e' : StoreError) : e ≠ .store e' := by
  have hparse : ∀ name, parse h name = .error e → e ≠ .store e' := by
    intro name hp
    unfold parse at hp
    split at hp
    · cases hp
    · split at hp <;> cases hp
      simp
  unfold read at hr
  split at hr
  · next hp => cases hr; exact hparse _ hp
  · cases hr
  · split at hr
    · next hp => cases hr; exact hparse _ hp
    · cases hr; simp
    · split at hr <;> cases hr
      simp

end ChunkHeaders

end Relay
