import Relay.Numeral
/-!
# What is read as a numeral

`Denotes` says of a text which number it is the decimal numeral of, if it is one.

Results:
- `readNat_ok_iff`, `readUInt32_ok_iff`: a number is read from its numerals and from no other text,
  if it is in the range.
- `readUInt32_toString`: the decimal form of an integer of the range reads back as the integer.
-/
namespace Relay

theorem isDigit_bounds {c : Char} (h : c.isDigit = true) : 48 ≤ c.toNat ∧ c.toNat ≤ 57 := by
  unfold Char.isDigit at h
  rw [Bool.and_eq_true, decide_eq_true_iff, decide_eq_true_iff] at h
  obtain ⟨hlo, hhi⟩ := h
  rw [ge_iff_le, UInt32.le_iff_toNat_le] at hlo
  rw [UInt32.le_iff_toNat_le] at hhi
  exact ⟨hlo, hhi⟩

theorem isDigit_of_toDigits {c : Char} {n : Nat} (h : c ∈ Nat.toDigits 10 n) : c.isDigit = true :=
  Nat.isDigit_of_mem_toDigits (by omega) (by omega) h

theorem le_ofDigitChars (cs : List Char) (acc : Nat) : acc ≤ Nat.ofDigitChars 10 cs acc := by
  induction cs generalizing acc with
  | nil => simp
  | cons c cs ih =>
    have hnext := ih (10 * acc + (c.toNat - '0'.toNat))
    rw [Nat.ofDigitChars_cons]
    omega

namespace Numeral

theorem digits_ok {limit : Nat} {excess : NumeralError} {cs : List Char} {acc : Nat}
    (hd : ∀ c ∈ cs, c.isDigit = true) (h : Nat.ofDigitChars 10 cs acc ≤ limit) :
    digits limit excess acc cs = .ok (Nat.ofDigitChars 10 cs acc) := by
  induction cs generalizing acc with
  | nil => simp [digits]
  | cons c cs ih =>
    rw [Nat.ofDigitChars_cons] at h ⊢
    have hnext := le_ofDigitChars cs (10 * acc + (c.toNat - '0'.toNat))
    unfold digits
    rw [if_pos (hd c List.mem_cons_self)]
    dsimp only
    rw [if_pos (by change 10 * acc + (c.toNat - '0'.toNat) ≤ limit; omega)]
    exact ih (fun d hm => hd d (List.mem_cons_of_mem _ hm)) h

/-- Only digits are read, and no number beyond the limit. -/
theorem digits_inv {limit : Nat} {excess : NumeralError} {cs : List Char} {acc n : Nat}
    (hacc : acc ≤ limit) (h : digits limit excess acc cs = .ok n) :
    (∀ c ∈ cs, c.isDigit = true) ∧ Nat.ofDigitChars 10 cs acc = n ∧ n ≤ limit := by
  induction cs generalizing acc with
  | nil =>
    cases h
    exact ⟨fun c hc => absurd hc List.not_mem_nil, Nat.ofDigitChars_nil, hacc⟩
  | cons c cs ih =>
    unfold digits at h
    split at h
    · next hdigit =>
      dsimp only at h
      split at h
      · next hnext =>
        obtain ⟨hd, hvalue, hlimit⟩ := ih hnext h
        refine ⟨?_, ?_, hlimit⟩
        · intro d hm
          rcases List.mem_cons.mp hm with rfl | hm
          · exact hdigit
          · exact hd d hm
        · rw [Nat.ofDigitChars_cons]
          exact hvalue
      · cases h
    · cases h

theorem positive_ok_iff {hi : Nat} {cs : List Char} {i : Int} :
    positive hi cs = .ok i ↔ cs ≠ [] ∧ (∀ c ∈ cs, c.isDigit = true) ∧
      Nat.ofDigitChars 10 cs 0 ≤ hi ∧ i = Int.ofNat (Nat.ofDigitChars 10 cs 0) := by
  cases cs with
  | nil => simp [positive]
  | cons c cs =>
    unfold positive
    dsimp only
    constructor
    · intro h
      cases hr : digits hi .tooLarge 0 (c :: cs) with
      | error e =>
        rw [hr] at h
        cases h
      | ok n =>
        obtain ⟨hd, hvalue, hle⟩ := digits_inv (Nat.zero_le hi) hr
        rw [hr] at h
        cases h
        rw [hvalue]
        exact ⟨by simp, hd, hle, rfl⟩
    · rintro ⟨-, hd, hle, rfl⟩
      rw [digits_ok hd hle]
      rfl

/-! ## Texts that are numerals -/

/-- The text is a decimal numeral of the number: digits, at least one, behind an optional plus sign.
There may be leading zeros. -/
def Denotes (s : String) (n : Nat) : Prop :=
  ∃ cs : List Char, (s.toList = cs ∨ s.toList = '+' :: cs) ∧ cs ≠ [] ∧
    (∀ c ∈ cs, c.isDigit = true) ∧ Nat.ofDigitChars 10 cs 0 = n

/-- A text that begins with a digit is read without looking for a sign. -/
theorem read_of_digit {hi : Nat} {s : String} {c : Char} {cs : List Char} (hs : s.toList = c :: cs)
    (hc : c.isDigit = true) : read 0 hi s = positive hi (c :: cs) := by
  unfold read
  rw [hs]
  split
  · cases ‹c :: cs = []›
  · cases ‹c :: cs = _›
    cases hc
  · cases ‹c :: cs = _›
    cases hc
  · rfl

theorem readNat_ok_iff {hi : Nat} {s : String} {n : Nat} :
    readNat hi s = .ok n ↔ Denotes s n ∧ n ≤ hi := by
  constructor
  · intro h
    unfold readNat read at h
    split at h
    · cases h
    · next cs hs =>
      cases hp : positive hi cs with
      | error e =>
        rw [hp] at h
        cases h
      | ok i =>
        obtain ⟨hne, hd, hle, rfl⟩ := positive_ok_iff.mp hp
        rw [hp] at h
        cases h
        exact ⟨⟨cs, .inr hs, hne, hd, rfl⟩, hle⟩
    · cases h
    · cases hp : positive hi s.toList with
      | error e =>
        rw [hp] at h
        cases h
      | ok i =>
        obtain ⟨hne, hd, hle, rfl⟩ := positive_ok_iff.mp hp
        rw [hp] at h
        cases h
        exact ⟨⟨s.toList, .inl rfl, hne, hd, rfl⟩, hle⟩
  · rintro ⟨⟨cs, hs, hne, hd, rfl⟩, hle⟩
    have hread : read 0 hi s = positive hi cs := by
      rcases hs with hs | hs
      · cases cs with
        | nil => exact absurd rfl hne
        | cons c cs => exact read_of_digit hs (hd c List.mem_cons_self)
      · unfold read
        rw [hs]
        rfl
    unfold readNat
    rw [hread, positive_ok_iff.mpr ⟨hne, hd, hle, rfl⟩]
    rfl

theorem denotes_toString (n : Nat) : Denotes (toString n) n := by
  refine ⟨Nat.toDigits 10 n, .inl ?_, Nat.toDigits_ne_nil, fun c => isDigit_of_toDigits,
    Nat.ofDigitChars_ten_toDigits⟩
  rw [Nat.toString_eq_repr, Nat.toList_repr]

theorem le_of_word (n : UInt32) : n.toNat ≤ UInt32.size - 1 := by
  have := n.toNat_lt
  unfold UInt32.size
  omega

/-- **A number of the range is read from its numerals and from no other text.** -/
theorem readUInt32_ok_iff {s : String} {n : UInt32} :
    readUInt32 s = .ok n ↔ Denotes s n.toNat := by
  unfold readUInt32
  constructor
  · intro h
    cases hr : readNat (UInt32.size - 1) s with
    | error e =>
      rw [hr] at h
      cases h
    | ok m =>
      obtain ⟨hm, hle⟩ := readNat_ok_iff.mp hr
      rw [hr] at h
      cases h
      rwa [UInt32.toNat_ofNat_of_lt' (by unfold UInt32.size at hle ⊢; omega)]
  · intro h
    rw [readNat_ok_iff.mpr ⟨h, le_of_word n⟩]
    exact congrArg Except.ok UInt32.ofNat_toNat

theorem readUInt32_toString (n : UInt32) : readUInt32 (toString n.toNat) = .ok n :=
  readUInt32_ok_iff.mpr (denotes_toString n.toNat)

end Numeral

end Relay
