import Mathlib.Algebra.Order.Floor.Div
import Relay.Chunk
/-!
# Cutting a payload

The pieces of a payload begin at `starts` and end at `stop`.

Results:
- `split_flatten`: the pieces joined again are the payload.
- `length_starts`: there are as many as it takes, the length over the size rounded up.
- `length_slice`, `piecesFrom_full`: each piece is as long as the size or what remains allows, so that only
  the last one can be shorter than the size.
- `split_exact`: all of this for `split`, and no piece reaches beyond the payload on the way. That the
  end of a piece is a machine word rests on the payload being held in memory (`Fits`): a size that cuts is
  less than the length, and so the sum is less than twice as much.
-/
namespace Relay

variable {size length start s : Nat} {payload : Bytes}

/-! ## Where the pieces begin and end -/

theorem starts_of_lt (hs : 0 < size) (h : start < length) :
    starts size length start = start :: starts size length (start + size) := by
  rw [starts, dif_pos ⟨hs, h⟩]

theorem starts_of_le (h : length ≤ start) : starts size length start = [] := by
  rw [starts, dif_neg (by omega)]

theorem mem_starts (h : s ∈ starts size length start) : start ≤ s ∧ s < length := by
  fun_induction starts size length start with
  | case1 start hlt ih =>
    rcases List.mem_cons.mp h with rfl | h
    · exact ⟨Nat.le_refl s, hlt.2⟩
    · obtain ⟨hle, hs⟩ := ih h
      exact ⟨by omega, hs⟩
  | case2 => cases h

/-- The length over the size, rounded up. -/
theorem length_starts (hs : 0 < size) (length start : Nat) :
    (starts size length start).length = (length - start) ⌈/⌉ size := by
  rw [Nat.ceilDiv_eq_add_pred_div]
  fun_induction starts size length start with
  | case1 start h ih =>
    have hstep : length - start + size - 1 = (length - start - 1) + size := by omega
    rw [List.length_cons, ih, hstep, Nat.add_div_right _ hs]
    congr 1
    by_cases hfull : size ≤ length - start
    · congr 1
      omega
    · rw [Nat.div_eq_of_lt (by omega), Nat.div_eq_of_lt (by omega)]
  | case2 start h =>
    have hnone : length - start = 0 := by omega
    rw [hnone, List.length_nil, Nat.div_eq_of_lt (by omega)]

/-! ## The pieces -/

theorem slice_stop (payload : Bytes) (size start : Nat) :
    slice payload start (stop size payload.length start) = (payload.drop start).take size := by
  unfold slice stop
  rw [List.drop_take, List.take_eq_take_iff, List.length_drop]
  omega

theorem length_slice (payload : Bytes) (size start : Nat) :
    (slice payload start (stop size payload.length start)).length =
      min size (payload.length - start) := by
  rw [slice_stop, List.length_take, List.length_drop]

/-- The pieces of a payload from `start` on. -/
def piecesFrom (payload : Bytes) (size start : Nat) : List Bytes :=
  (starts size payload.length start).map fun start =>
    slice payload start (stop size payload.length start)

theorem piecesFrom_flatten (hs : 0 < size) (payload : Bytes) (start : Nat) :
    (piecesFrom payload size start).flatten = payload.drop start := by
  unfold piecesFrom
  fun_induction starts size payload.length start with
  | case1 start h ih =>
    rw [List.map_cons, List.flatten_cons, ih, slice_stop, ← List.drop_drop, List.take_append_drop]
  | case2 start h => exact (List.drop_of_length_le (by omega)).symm

/-- Every piece behind which another one begins has the full size. -/
theorem piecesFrom_full (payload : Bytes) (size start : Nat) :
    ∀ c ∈ (piecesFrom payload size start).dropLast, c.length = size := by
  unfold piecesFrom
  fun_induction starts size payload.length start with
  | case1 start h ih =>
    by_cases hnext : start + size < payload.length
    · rw [starts_of_lt h.1 hnext] at ih ⊢
      intro c hc
      rcases List.mem_cons.mp hc with rfl | hc
      · rw [length_slice]
        omega
      · exact ih c hc
    · rw [starts_of_le (by omega)]
      exact fun c hc => by cases hc
  | case2 => exact fun c hc => by cases hc

theorem split_of_lt (hs : 0 < size) (h : size < payload.length) :
    split payload size = piecesFrom payload size 0 := if_neg (by omega)

theorem split_whole (h : size = 0 ∨ payload.length ≤ size) : split payload size = [payload] :=
  if_pos h

theorem split_flatten (payload : Bytes) (size : Nat) : (split payload size).flatten = payload := by
  by_cases h : size = 0 ∨ payload.length ≤ size
  · rw [split_whole h, List.flatten_singleton]
  · rw [split_of_lt (by omega) (by omega), piecesFrom_flatten (by omega), List.drop_zero]

theorem split_ne_nil (payload : Bytes) (size : Nat) : split payload size ≠ [] := by
  by_cases h : size = 0 ∨ payload.length ≤ size
  · rw [split_whole h]
    exact List.cons_ne_nil _ _
  · rw [split_of_lt (by omega) (by omega), piecesFrom, starts_of_lt (by omega) (by omega)]
    exact List.cons_ne_nil _ _

/-! ## Exactness -/

/-- The payload fits into memory: no allocation takes more than half of the address space. -/
def Fits (payload : Bytes) : Prop := payload.length < USize.size / 2

/-- **Splitting is exact.** The chunks joined are the payload. A size of zero or one that is not less
than the length leaves the payload whole; any other gives the length over the size rounded up, all
chunks but the last of exactly the size, the last not longer, none empty. The bounds of a chunk lie
within the payload, and the sum that its end is computed from is a machine word. -/
theorem split_exact (payload : Bytes) (size : Nat) :
    (split payload size).flatten = payload ∧
      (size = 0 ∨ payload.length ≤ size → (split payload size).length = 1) ∧
      (0 < size → size < payload.length →
        (split payload size).length = payload.length ⌈/⌉ size ∧
        (∀ c ∈ split payload size, 0 < c.length ∧ c.length ≤ size) ∧
        (∀ c ∈ (split payload size).dropLast, c.length = size) ∧
        ∀ start ∈ starts size payload.length 0,
          start ≤ stop size payload.length start ∧
          stop size payload.length start ≤ payload.length ∧
          (Fits payload → start + size < USize.size)) := by
  refine ⟨split_flatten payload size, fun h => ?_, fun hs hlt => ?_⟩
  · rw [split_whole h, List.length_singleton]
  · rw [split_of_lt hs hlt]
    refine ⟨?_, fun c hc => ?_, piecesFrom_full payload size 0, fun start hstart => ?_⟩
    · rw [piecesFrom, List.length_map, length_starts hs, Nat.sub_zero]
    · obtain ⟨start, hstart, rfl⟩ := List.mem_map.mp hc
      have hin := (mem_starts hstart).2
      rw [length_slice]
      omega
    · have hin := (mem_starts hstart).2
      unfold stop Fits
      omega

/-- Five bytes in twos, and the end of the last piece beyond them is a word still. -/
theorem split_exact_odd :
    Fits [1, 2, 3, 4, 5] ∧ split [1, 2, 3, 4, 5] 2 = [[1, 2], [3, 4], [5]] ∧
      (split [1, 2, 3, 4, 5] 2).length = 5 ⌈/⌉ 2 ∧ 4 + 2 < USize.size := by
  have hfits : Fits [1, 2, 3, 4, 5] := by
    unfold Fits
    rcases USize.size_eq with h | h <;> rw [h] <;> decide
  obtain ⟨-, -, hcut⟩ := split_exact [1, 2, 3, 4, 5] 2
  obtain ⟨hcount, -, -, hwithin⟩ := hcut (by decide) (by decide)
  have hlast : 4 ∈ starts 2 5 0 := by decide +kernel
  exact ⟨hfits, by decide +kernel, hcount, (hwithin 4 hlast).2.2 hfits⟩

end Relay
