import Relay.Proofs.Chunk
import Relay.Proofs.Edits
/-!
# Positions on their way

The sender of a chunk writes its position into two headers, and whoever receives it reads them and
takes them away again. Headers may come from anywhere, so it is settled here too what is read from
arbitrary ones.

Results:
- `read_iff`: what headers are read as, a case each (`Reads`), with the error that they are refused
  with (`Refused`).
- `read_remove`: after a removal there is no position. Headers that are built up by their own
  operations have one entry for each name (`run_distinct`), and it is that one which goes.
- `positions_exact`: what was written is read, whatever was there before, and removed without a trace;
  what is read from any headers is a position in its set; and they are refused for what is wrong with
  their values.
-/
namespace Relay

/-- Headers that are built up by their own operations have one entry for each name. -/
theorem Headers.run_distinct (pairs : List (String × String)) (es : List Edit) :
    (run (ofList pairs) es).Distinct := by
  rw [run_collected]
  exact performed_distinct _

namespace ChunkHeaders

open Headers

variable {h : Headers} {c : ChunkHeaders} {name value index : String} {count : Option String}
  {e : ChunkError} {i n : UInt32}

/-! ## One header -/

/-- A decimal numeral of a word of 32 bits. -/
def IsWord (s : String) : Prop := ∃ n : UInt32, Numeral.Denotes s n.toNat

theorem parse_absent (hg : h.get? name = none) : parse h name = .ok none := by
  unfold parse
  rw [hg]

theorem parse_word (hg : h.get? name = some value) (hn : Numeral.Denotes value n.toNat) :
    parse h name = .ok (some n) := by
  unfold parse
  rw [hg]
  dsimp only
  rw [Numeral.readUInt32_ok_iff.mpr hn]

theorem parse_invalid (hg : h.get? name = some value) (hv : ¬ IsWord value) :
    parse h name = .error (.invalidHeader name value) := by
  unfold parse
  rw [hg]
  dsimp only
  cases hr : Numeral.readUInt32 value with
  | ok n => exact absurd ⟨n, Numeral.readUInt32_ok_iff.mp hr⟩ hv
  | error _ => rfl

/-! ## Both headers -/

/-- What is wrong with the value of an index header and the count header beside it. The index is looked
at first, then whether there is a count, then the count, and last whether it is above the index. -/
inductive Refused (index : String) : Option String → ChunkError → Prop
  | index {count : Option String} (invalid : ¬ IsWord index) :
    Refused index count (.invalidHeader chunkIndex index)
  | missing (valid : IsWord index) : Refused index none (.missingHeader chunksCount)
  | count {count : String} (valid : IsWord index) (invalid : ¬ IsWord count) :
    Refused index (some count) (.invalidHeader chunksCount count)
  | range {count : String} {i n : UInt32} (hi : Numeral.Denotes index i.toNat)
      (hn : Numeral.Denotes count n.toNat) (outside : n ≤ i) :
    Refused index (some count) (.indexOutOfRange i n)

/-- What headers are read as. -/
inductive Reads (h : Headers) : Except ChunkError (Option ChunkHeaders) → Prop
  | whole (absent : h.get? chunkIndex = none) : Reads h (.ok none)
  | refused {index : String} {count : Option String} {e : ChunkError}
      (present : h.get? chunkIndex = some index) (beside : h.get? chunksCount = count)
      (why : Refused index count e) : Reads h (.error e)
  | position {index count : String} {c : ChunkHeaders} (present : h.get? chunkIndex = some index)
      (beside : h.get? chunksCount = some count) (hi : Numeral.Denotes index c.index.toNat)
      (hn : Numeral.Denotes count c.count.toNat) (inside : c.index < c.count) : Reads h (.ok (some c))

theorem read_refused (hg : h.get? chunkIndex = some index) (hc : h.get? chunksCount = count)
    (hr : Refused index count e) : read h = .error e := by
  unfold read
  cases hr with
  | index invalid => rw [parse_invalid hg invalid]
  | missing valid =>
    obtain ⟨i, hi⟩ := valid
    rw [parse_word hg hi, parse_absent hc]
  | count valid invalid =>
    obtain ⟨i, hi⟩ := valid
    rw [parse_word hg hi, parse_invalid hc invalid]
  | range hi hn outside =>
    rw [parse_word hg hi, parse_word hc hn]
    dsimp only
    rw [if_pos outside]

theorem Reads.eq {r : Except ChunkError (Option ChunkHeaders)} (hr : Reads h r) : read h = r := by
  cases hr with
  | whole absent => exact read_none absent
  | refused present beside why => exact read_refused present beside why
  | position present beside hi hn inside =>
    unfold read
    rw [parse_word present hi, parse_word beside hn]
    dsimp only
    rw [if_neg (UInt32.not_le.mpr inside)]

theorem exists_reads (h : Headers) : ∃ r, Reads h r := by
  cases hg : h.get? chunkIndex with
  | none => exact ⟨_, .whole hg⟩
  | some index =>
    by_cases valid : IsWord index
    · cases hc : h.get? chunksCount with
      | none => exact ⟨_, .refused hg hc (.missing valid)⟩
      | some count =>
        by_cases other : IsWord count
        · obtain ⟨i, hi⟩ := valid
          obtain ⟨n, hn⟩ := other
          by_cases outside : n ≤ i
          · exact ⟨_, .refused hg hc (.range hi hn outside)⟩
          · exact ⟨_, .position (c := ⟨i, n⟩) hg hc hi hn (UInt32.not_le.mp outside)⟩
        · exact ⟨_, .refused hg hc (.count valid other)⟩
    · exact ⟨_, .refused hg rfl (.index valid)⟩

/-- **What headers are read as is settled by the values of the two.** -/
theorem read_iff {r : Except ChunkError (Option ChunkHeaders)} : read h = r ↔ Reads h r := by
  refine ⟨fun hr => ?_, Reads.eq⟩
  obtain ⟨r', hr'⟩ := exists_reads h
  rw [← hr, hr'.eq]
  exact hr'

/-- A position that is read lies in its set. -/
theorem index_lt_of_read (hr : read h = .ok (some c)) : c.index < c.count := by
  cases read_iff.mp hr with
  | position _ _ _ _ inside => exact inside

/-- Without a word on which error it is. -/
theorem refused_iff : (∃ e, Refused index count e) ↔
    ¬ IsWord index ∨ count = none ∨ ∃ value, count = some value ∧
      (¬ IsWord value ∨ ∃ i n : UInt32, Numeral.Denotes index i.toNat ∧
        Numeral.Denotes value n.toNat ∧ n ≤ i) := by
  constructor
  · rintro ⟨e, hr⟩
    cases hr with
    | index invalid => exact .inl invalid
    | missing => exact .inr (.inl rfl)
    | count _ invalid => exact .inr (.inr ⟨_, rfl, .inl invalid⟩)
    | range hi hn outside => exact .inr (.inr ⟨_, rfl, .inr ⟨_, _, hi, hn, outside⟩⟩)
  · intro hr
    by_cases valid : IsWord index
    · rcases hr with invalid | rfl | ⟨value, rfl, invalid | ⟨i, n, hi, hn, outside⟩⟩
      · exact absurd valid invalid
      · exact ⟨_, .missing valid⟩
      · exact ⟨_, .count valid invalid⟩
      · exact ⟨_, .range hi hn outside⟩
    · exact ⟨_, .index valid⟩

theorem read_fails_iff : (∃ e, read h = .error e) ↔
    ∃ index, h.get? chunkIndex = some index ∧ ∃ e, Refused index (h.get? chunksCount) e := by
  constructor
  · rintro ⟨e, hr⟩
    cases read_iff.mp hr with
    | refused present beside why => exact ⟨_, present, e, beside ▸ why⟩
  · rintro ⟨index, present, e, why⟩
    exact ⟨e, read_refused present rfl why⟩

/-! ## Written, read and removed -/

/-- **What is removed is not read any more.** -/
theorem read_remove (hd : h.Distinct) : read (remove h) = .ok none := by
  apply read_none
  unfold remove
  rw [get?_remove_of_ne _ (by decide), Headers.get?_remove hd, sameName_refl, if_pos rfl]

/-- **Positions are kept exactly.** For headers that were collected from any pairs and edited any number
of times: a position in its set that is written into them is what is read, whatever the two headers held
before and however they were spelled; if there were none, removing the position gives the headers back
entry for entry; and after a removal no position is read. For arbitrary headers: a position that is read
lies in its set, and they are refused if and only if there is an index and it is not the decimal numeral
of a word, or the count is missing, or not the numeral of a word, or not above the index. -/
theorem positions_exact :
    (∀ (pairs : List (String × String)) (es : List Edit),
      let h := run (ofList pairs) es
      (∀ c : ChunkHeaders, c.index < c.count →
        read (c.write h) = .ok (some c) ∧
        (h.get? chunkIndex = none → h.get? chunksCount = none → remove (c.write h) = h)) ∧
      read (remove h) = .ok none) ∧
    ∀ h : Headers,
      (∀ c, read h = .ok (some c) → c.index < c.count) ∧
      ((∃ e, read h = .error e) ↔ ∃ index, h.get? chunkIndex = some index ∧
        (¬ IsWord index ∨ h.get? chunksCount = none ∨ ∃ count, h.get? chunksCount = some count ∧
          (¬ IsWord count ∨ ∃ i n : UInt32, Numeral.Denotes index i.toNat ∧
            Numeral.Denotes count n.toNat ∧ n ≤ i))) := by
  refine ⟨fun pairs es => ⟨fun c hc => ⟨read_write hc _, remove_write c⟩, ?_⟩, fun h => ⟨?_, ?_⟩⟩
  · exact read_remove (run_distinct pairs es)
  · intro c hr
    exact index_lt_of_read hr
  · rw [read_fails_iff]
    exact exists_congr fun index => and_congr_right' refused_iff

/-- What was there before is no position, in another spelling. -/
def respelled : Headers :=
  run (ofList [("X-Chunk-Index", "+007"), ("trace", "1")]) [.insert "x-chunks-COUNT" "seven"]

/-- The position takes the places of the two values, and where there are none it leaves nothing
behind. -/
theorem positions_exact_respelled :
    (∃ e, read respelled = .error e) ∧
    read (write ⟨6, 7⟩ respelled) = .ok (some ⟨6, 7⟩) ∧
    (write ⟨6, 7⟩ respelled).entries =
      [("X-Chunk-Index", "6"), ("trace", "1"), ("x-chunks-COUNT", "7")] ∧
    read (remove respelled) = .ok none ∧
    let plain := run (ofList [("trace", "1")]) []
    remove (write ⟨6, 7⟩ plain) = plain := by
  have hlt : (6 : UInt32) < 7 := by decide
  have hseven : ¬ IsWord "seven" := by
    rintro ⟨n, hn⟩
    cases Numeral.readUInt32_ok_iff.mpr hn
  refine ⟨?_, ?_, by decide, ?_, ?_⟩
  · exact (positions_exact.2 respelled).2.mpr
      ⟨"+007", by decide, .inr (.inr ⟨"seven", by decide, .inl hseven⟩)⟩
  · exact ((positions_exact.1 _ _).1 ⟨6, 7⟩ hlt).1
  · exact (positions_exact.1 _ _).2
  · exact ((positions_exact.1 _ _).1 ⟨6, 7⟩ hlt).2 (by decide) (by decide)

end ChunkHeaders

end Relay
