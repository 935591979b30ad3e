import Mathlib.Data.List.TakeDrop
import Mathlib.Tactic.SplitIfs
import Relay.Json.Parser
import Relay.Proofs.Bytes
import Relay.Proofs.Numeral
/-!
# JSON texts read back

Integers and texts are written in a form that reads back (`int?_ofInt`, `decode?_encode`), and the
reader takes every tree made of such parts back out of its compact form (`parse?_render`), the
fuel it is given being enough.
-/
namespace Relay.Json

/-! ## Integers -/

theorem natOfDigits_toDigits (n : Nat) : natOfDigits (Nat.toDigits 10 n) = some n := by
  have hall : (Nat.toDigits 10 n).all Char.isDigit = true :=
    List.all_eq_true.mpr fun c => isDigit_of_toDigits
  unfold natOfDigits
  rw [if_pos hall]
  exact congrArg some Nat.ofDigitChars_ten_toDigits

theorem toList_toString_nat (n : Nat) : (toString n).toList = Nat.toDigits 10 n := by
  rw [Nat.toString_eq_repr, Nat.toList_repr]

theorem toList_toString_negSucc (n : Nat) :
    (toString (Int.negSucc n)).toList = '-' :: Nat.toDigits 10 (n + 1) := by
  change ("-" ++ toString (n + 1)).toList = _
  rw [String.toList_append, toList_toString_nat]
  rfl

/-- The digits of a number have no sign in front. -/
theorem toDigits_ne_minus (n : Nat) (cs : List Char) : Nat.toDigits 10 n ≠ '-' :: cs := by
  intro h
  have hd : '-'.isDigit = true := isDigit_of_toDigits (n := n) (by rw [h]; exact List.mem_cons_self)
  cases hd

theorem int?_digits (n : Nat) : int? (.number (Nat.toDigits 10 n)) = some (Int.ofNat n) := by
  unfold int?
  split
  · next h => exact absurd (Json.number.inj h) (toDigits_ne_minus n _)
  · next h => exact absurd (Json.number.inj h) (toDigits_ne_minus n _)
  · next h =>
    rw [← Json.number.inj h, natOfDigits_toDigits]
    rfl
  · next h => exact absurd rfl (h _)

/-- **An integer reads back.** -/
theorem int?_ofInt (n : Int) : (ofInt n).int? = some n := by
  cases n with
  | ofNat n =>
    change int? (.number (toString n).toList) = _
    rw [toList_toString_nat]
    exact int?_digits n
  | negSucc n =>
    unfold ofInt
    rw [toList_toString_negSucc]
    unfold int?
    split
    · next h =>
      -- only zero is written as the digit zero
      have hzero : Nat.toDigits 10 (n + 1) = ['0'] := (List.cons.inj (Json.number.inj h)).2
      have hn := Nat.ofDigitChars_ten_toDigits (n := n + 1)
      rw [hzero] at hn
      cases hn
    · next h =>
      rw [← (List.cons.inj (Json.number.inj h)).2, natOfDigits_toDigits]
      rfl
    · next cs hneg h => exact absurd h.symm (by simpa using hneg _)
    · next h => exact absurd rfl (h _)

theorem nat?_ofNat (n : Nat) : (ofNat n).nat? = some n := by
  have hint : (ofNat n).int? = some (Int.ofNat n) := int?_ofInt n
  unfold nat?
  rw [hint]

/-! ## Escapes -/

theorem ofString_word {s : String} (cs : List Char) (h : s = String.ofList cs)
    (ha : ∀ c ∈ cs, c.toNat < 128) : Bytes.ofString s = cs.map fun c => UInt8.ofNat c.toNat := by
  rw [h]
  exact Bytes.ofString_ascii ha

theorem hexDigit_ascii {n : Nat} (h : n < 16) : (Bytes.hexDigit n).toNat < 128 := by
  have hall : ∀ n : Fin 16, (Bytes.hexDigit n).toNat < 128 := by decide
  exact hall ⟨n, h⟩

theorem hexValue?_hexDigit {n : Nat} (h : n < 16) :
    Bytes.hexValue? (UInt8.ofNat (Bytes.hexDigit n).toNat).toNat = some n := by
  have hall : ∀ n : Fin 16,
      Bytes.hexValue? (UInt8.ofNat (Bytes.hexDigit n).toNat).toNat = some n.val := by decide
  exact hall ⟨n, h⟩

/-- The code of a hexadecimal digit. -/
def hexByte (n : Nat) : UInt8 := UInt8.ofNat (Bytes.hexDigit n).toNat

/-- A byte that an escape of six characters stands for. -/
def longEscape (b : UInt8) : Bytes :=
  [0x5C, 0x75, 0x30, 0x30, hexByte (b.toNat / 16), hexByte (b.toNat % 16)]

/-- The bytes that are escaped by a letter. -/
def shortLetter? (b : UInt8) : Option UInt8 :=
  if b = 0x22 then some 0x22
  else if b = 0x5C then some 0x5C
  else if b = 0x08 then some 0x62
  else if b = 0x09 then some 0x74
  else if b = 0x0A then some 0x6E
  else if b = 0x0C then some 0x66
  else if b = 0x0D then some 0x72
  else none

theorem shortEscape?_of_letter {b c : UInt8} (h : shortLetter? b = some c) :
    shortEscape? c = some b ∧ c ≠ 0x75 := by
  unfold shortLetter? at h
  repeat' split at h
  all_goals first
    | (cases h; subst b; exact ⟨rfl, by decide⟩)
    | cases h

theorem escapeByte_eq (b : UInt8) :
    escapeByte b = match shortLetter? b with
      | some c => [0x5C, c]
      | none => if b < 0x20 then longEscape b else [b] := by
  have hstart : Bytes.ofString "\\u00" = [0x5C, 0x75, 0x30, 0x30] :=
    ofString_word ['\\', 'u', '0', '0'] rfl (by simp)
  have hlo : b.toNat / 16 < 16 := by have := b.toNat_lt; omega
  have hhi : b.toNat % 16 < 16 := by omega
  have hdigits : Bytes.ofString
      (String.ofList [Bytes.hexDigit (b.toNat / 16), Bytes.hexDigit (b.toNat % 16)]) =
      [hexByte (b.toNat / 16), hexByte (b.toNat % 16)] := by
    refine Bytes.ofString_ascii fun c hc => ?_
    simp only [List.mem_cons, List.not_mem_nil, or_false] at hc
    rcases hc with rfl | rfl
    · exact hexDigit_ascii hlo
    · exact hexDigit_ascii hhi
  unfold escapeByte shortLetter?
  rw [hstart, hdigits]
  split_ifs <;> rfl

theorem hex4?_longEscape {b : UInt8} (h : b < 0x20) :
    hex4? 0x30 0x30 (hexByte (b.toNat / 16)) (hexByte (b.toNat % 16)) = some b.toNat := by
  have hlt : b.toNat < 32 := UInt8.lt_iff_toNat_lt.mp h
  have hzero : Bytes.hexValue? (0x30 : UInt8).toNat = some 0 := rfl
  have hlo : Bytes.hexValue? (hexByte (b.toNat / 16)).toNat = some (b.toNat / 16) :=
    hexValue?_hexDigit (by omega)
  have hhi : Bytes.hexValue? (hexByte (b.toNat % 16)).toNat = some (b.toNat % 16) :=
    hexValue?_hexDigit (by omega)
  unfold hex4?
  rw [hzero, hlo, hhi]
  simp only [Option.bind_eq_bind, Option.bind_some, Option.pure_def, Option.some.injEq]
  omega

theorem utf8_ascii {b : UInt8} (h : b < 0x20) : utf8 b.toNat = [b] := by
  have hlt : b.toNat < 32 := UInt8.lt_iff_toNat_lt.mp h
  have hall : ∀ n : Fin 32, (Char.ofNat n).toNat = n.val := by decide
  have hchar : (Char.ofNat b.toNat).toNat = b.toNat := hall ⟨b.toNat, hlt⟩
  have hascii : ∀ c ∈ [Char.ofNat b.toNat], c.toNat < 128 := by
    intro c hc
    rw [List.mem_singleton.mp hc, hchar]
    omega
  unfold utf8
  rw [String.singleton_eq_ofList, Bytes.ofString_ascii hascii, List.map_singleton, hchar,
    UInt8.ofNat_toNat]

/-! ## Strings -/

theorem unescape_short {c x : UInt8} (h : shortEscape? c = some x) (hne : c ≠ 0x75)
    (rest : Bytes) : unescape (0x5C :: c :: rest) = (unescape rest).map (x :: ·) := by
  rw [unescape]
  · rw [h]
  · intro a b c' d rest' hc
    exact absurd hc hne

theorem unescape_long {a b c d : UInt8} {n : Nat} (h : hex4? a b c d = some n) (hn : n < 0x20)
    (rest : Bytes) : unescape (0x5C :: 0x75 :: a :: b :: c :: d :: rest) =
      (unescape rest).map (utf8 n ++ ·) := by
  have hlow : isLowSurrogate n = false := by
    unfold isLowSurrogate
    rw [Bool.and_eq_false_iff]
    left
    rw [decide_eq_false_iff_not]
    omega
  have hhigh : isHighSurrogate n = false := by
    unfold isHighSurrogate
    rw [Bool.and_eq_false_iff]
    left
    rw [decide_eq_false_iff_not]
    omega
  rw [unescape, h]
  dsimp only
  rw [hlow, hhigh]
  rfl

theorem unescape_plain {b : UInt8} (h : b ≠ 0x5C) (rest : Bytes) :
    unescape (b :: rest) = (unescape rest).map (b :: ·) := by
  rw [unescape]
  · intro a b c' d rest' hc
    exact absurd hc h
  · intro c rest' hc
    exact absurd hc h

theorem rawString_short {c x : UInt8} (h : shortEscape? c = some x) (hne : c ≠ 0x75)
    (seen rest : Bytes) :
    rawString seen (0x5C :: c :: rest) = rawString (c :: 0x5C :: seen) rest := by
  rw [rawString]
  · rw [h]
  · intro a b c' d rest' hc
    exact absurd hc hne

theorem rawString_long {a b c d : UInt8} {n : Nat} (h : hex4? a b c d = some n)
    (seen rest : Bytes) : rawString seen (0x5C :: 0x75 :: a :: b :: c :: d :: rest) =
      rawString (d :: c :: b :: a :: 0x75 :: 0x5C :: seen) rest := by
  rw [rawString, h]

theorem rawString_plain {b : UInt8} (h : b ≠ 0x5C) (hq : b ≠ 0x22) (hc : ¬ b < 0x20)
    (seen rest : Bytes) : rawString seen (b :: rest) = rawString (b :: seen) rest := by
  rw [rawString]
  · have hb : (decide (b < 0x20) || b == 0x5C) = false := by simp [h, hc]
    rw [hb]
    rfl
  · exact fun hq' => absurd hq' hq
  · intro a b c' d rest' hc
    exact absurd hc h
  · intro c rest' hc
    exact absurd hc h
/-- A byte that no letter escapes is neither a quote nor a backslash. -/
theorem plain_of_none {b : UInt8} (h : shortLetter? b = none) : b ≠ 0x22 ∧ b ≠ 0x5C := by
  refine ⟨?_, ?_⟩
  · rintro rfl
    cases h
  · rintro rfl
    cases h

/-- Reading the escaped form of a byte gives the byte. -/
theorem unescape_escapeByte (b : UInt8) (rest : Bytes) :
    unescape (escapeByte b ++ rest) = (unescape rest).map (b :: ·) := by
  rw [escapeByte_eq]
  cases hc : shortLetter? b with
  | some c =>
    obtain ⟨hshort, hne⟩ := shortEscape?_of_letter hc
    exact unescape_short hshort hne rest
  | none =>
    dsimp only
    by_cases hlt : b < 0x20
    · have hn : b.toNat < 0x20 := UInt8.lt_iff_toNat_lt.mp hlt
      rw [if_pos hlt, longEscape]
      change unescape (0x5C :: 0x75 :: 0x30 :: 0x30 :: _ :: _ :: rest) = _
      rw [unescape_long (hex4?_longEscape hlt) hn, utf8_ascii hlt]
      rfl
    · rw [if_neg hlt]
      exact unescape_plain (plain_of_none hc).2 rest

theorem rawString_escapeByte (b : UInt8) (seen rest : Bytes) :
    rawString seen (escapeByte b ++ rest) = rawString ((escapeByte b).reverse ++ seen) rest := by
  rw [escapeByte_eq]
  cases hc : shortLetter? b with
  | some c =>
    obtain ⟨hshort, hne⟩ := shortEscape?_of_letter hc
    exact rawString_short hshort hne seen rest
  | none =>
    dsimp only
    by_cases hlt : b < 0x20
    · rw [if_pos hlt]
      exact rawString_long (hex4?_longEscape hlt) seen rest
    · rw [if_neg hlt]
      exact rawString_plain (plain_of_none hc).2 (plain_of_none hc).1 hlt seen rest

/-- **A text reads back.** -/
theorem decode?_encode (s : String) : decode? (encode s) = some s := by
  have hbytes : ∀ bs : Bytes, unescape (bs.flatMap escapeByte) = some bs := by
    intro bs
    induction bs with
    | nil => rfl
    | cons b bs ih => rw [List.flatMap_cons, unescape_escapeByte, ih]; rfl
  unfold decode? encode
  rw [hbytes]
  exact Bytes.text?_ofString s

/-- The raw form of a string can stand between quotes. -/
def Quotable (raw : Bytes) : Prop :=
  ∀ seen rest, rawString seen (raw ++ 0x22 :: rest) = some (seen.reverse ++ raw, rest)

theorem quotable_encode (s : String) : Quotable (encode s) := by
  unfold encode
  generalize Bytes.ofString s = bs
  intro seen rest
  induction bs generalizing seen with
  | nil =>
    rw [List.flatMap_nil, List.append_nil]
    rfl
  | cons b bs ih =>
    rw [List.flatMap_cons, List.append_assoc, rawString_escapeByte, ih, List.reverse_append,
      List.reverse_reverse, List.append_assoc]

/-! ## Numbers -/

/-- What may follow a value. -/
def Ends : Bytes → Prop
  | [] => True
  | b :: _ => b = 0x2C ∨ b = 0x5D ∨ b = 0x7D

/-- The bytes of ASCII characters. -/
def byteOf (c : Char) : UInt8 := UInt8.ofNat c.toNat

theorem charOf_byteOf {c : Char} (h : c.toNat < 128) : charOf (byteOf c) = c := by
  have hn : (UInt8.ofNat c.toNat).toNat = c.toNat := by
    rw [UInt8.toNat_ofNat']
    omega
  unfold charOf byteOf
  rw [hn, Char.ofNat_toNat]

theorem isDigit_byteOf {c : Char} (h : c.isDigit = true) : isDigit (byteOf c) = true := by
  obtain ⟨hlo, hhi⟩ := isDigit_bounds h
  have hn : (byteOf c).toNat = c.toNat := by
    unfold byteOf
    rw [UInt8.toNat_ofNat']
    omega
  unfold isDigit
  rw [Bool.and_eq_true, decide_eq_true_iff, decide_eq_true_iff, UInt8.le_iff_toNat_le,
    UInt8.le_iff_toNat_le, hn]
  exact ⟨hlo, hhi⟩

/-- Digits, but not a zero with more behind it, are read up to what may follow a value. -/
theorem unsigned_digits {d : UInt8} {ds rest : Bytes} (hd : ∀ b ∈ d :: ds, isDigit b = true)
    (hzero : d = 0x30 → ds = []) (hrest : Ends rest) :
    unsigned (d :: ds ++ rest) = some (d :: ds, rest) := by
  have hstop : ∀ b tail, rest = b :: tail → isDigit b = false ∧ b ≠ 0x2E ∧ b ≠ 0x65 ∧ b ≠ 0x45 := by
    rintro b tail rfl
    rcases hrest with rfl | rfl | rfl <;> decide
  have hspan : (d :: ds ++ rest).span isDigit = (d :: ds, rest) := by
    rw [List.span_eq_takeWhile_dropWhile, List.takeWhile_append_of_pos hd,
      List.dropWhile_append_of_pos hd]
    cases rest with
    | nil => simp
    | cons b tail =>
      have hb := (hstop b tail rfl).1
      rw [List.takeWhile_cons, List.dropWhile_cons, hb, if_neg (by simp), if_neg (by simp),
        List.append_nil]
  have hwhole : integerPart (d :: ds ++ rest) = some (d :: ds, rest) := by
    by_cases h0 : d = 0x30
    · rw [h0, hzero h0]
      rfl
    · rw [integerPart]
      · rw [digits1, hspan]
      · rintro tail ⟨⟩
        exact h0 rfl
  have hfraction : fractionPart rest = some ([], rest) := by
    cases rest with
    | nil => rfl
    | cons b tail =>
      rw [fractionPart]
      rintro tail' ⟨⟩
      exact (hstop _ _ rfl).2.1 rfl
  have hexponent : exponentPart rest = some ([], rest) := by
    cases rest with
    | nil => rfl
    | cons b tail =>
      obtain ⟨-, -, he, hE⟩ := hstop b tail rfl
      unfold exponentPart
      dsimp only
      rw [if_neg (by simp [he, hE])]
  unfold unsigned
  rw [hwhole]
  simp only [Option.bind_eq_bind, Option.bind_some, hfraction, hexponent, List.append_nil,
    Option.pure_def]

/-- The first digit of a number above zero is not zero. -/
theorem toDigits_head {n : Nat} (h : 0 < n) (cs : List Char) : Nat.toDigits 10 n ≠ '0' :: cs := by
  induction n using Nat.strongRecOn generalizing cs with
  | ind n ih =>
    by_cases hlt : n < 10
    · have hall : ∀ n : Fin 10, 0 < n.val → Nat.digitChar n ≠ '0' := by decide
      rw [Nat.toDigits_of_lt_base hlt]
      intro he
      exact hall ⟨n, hlt⟩ h (List.cons.inj he).1
    · rw [Nat.toDigits_of_base_le (by omega) (by omega)]
      intro he
      cases hc : Nat.toDigits 10 (n / 10) with
      | nil => exact Nat.toDigits_ne_nil hc
      | cons c tail =>
        rw [hc, List.cons_append] at he
        rw [(List.cons.inj he).1] at hc
        exact ih (n / 10) (by omega) (by omega) tail hc

theorem unsigned_toDigits (n : Nat) {rest : Bytes} (hrest : Ends rest) :
    unsigned ((Nat.toDigits 10 n).map byteOf ++ rest) =
      some ((Nat.toDigits 10 n).map byteOf, rest) := by
  have hdigits : ∀ b ∈ (Nat.toDigits 10 n).map byteOf, isDigit b = true := by
    intro b hb
    obtain ⟨c, hc, rfl⟩ := List.mem_map.mp hb
    exact isDigit_byteOf (isDigit_of_toDigits hc)
  cases hc : Nat.toDigits 10 n with
  | nil => exact absurd hc Nat.toDigits_ne_nil
  | cons c cs =>
    rw [hc] at hdigits
    refine unsigned_digits hdigits (fun h0 => ?_) hrest
    have hascii : c.toNat < 128 := by
      have := isDigit_bounds (isDigit_of_toDigits (n := n) (by rw [hc]; exact List.mem_cons_self))
      omega
    have hchar : c = '0' := by
      rw [← charOf_byteOf hascii, h0]
      rfl
    rw [hchar] at hc
    by_cases hn : n = 0
    · rw [hn, Nat.toDigits_zero] at hc
      rw [← (List.cons.inj hc).2]
      rfl
    · exact absurd hc (toDigits_head (by omega) cs)

/-- The first byte of an integer. -/
def startsInteger (b : UInt8) : Bool := b == 0x2D || isDigit b

theorem digits_start (n : Nat) : ∃ d ds, (Nat.toDigits 10 n).map byteOf = d :: ds ∧
    isDigit d = true := by
  cases hc : Nat.toDigits 10 n with
  | nil => exact absurd hc Nat.toDigits_ne_nil
  | cons c cs =>
    have hd : c.isDigit = true := isDigit_of_toDigits (n := n) (by rw [hc]; exact List.mem_cons_self)
    exact ⟨byteOf c, cs.map byteOf, rfl, isDigit_byteOf hd⟩

theorem toString_ascii (n : Int) : ∀ c ∈ (toString n).toList, c.toNat < 128 := by
  have hdigits : ∀ m : Nat, ∀ c ∈ Nat.toDigits 10 m, c.toNat < 128 := by
    intro m c hc
    have := isDigit_bounds (isDigit_of_toDigits hc)
    omega
  cases n with
  | ofNat n =>
    change ∀ c ∈ (toString n).toList, _
    rw [toList_toString_nat]
    exact hdigits n
  | negSucc n =>
    rw [toList_toString_negSucc]
    intro c hc
    rcases List.mem_cons.mp hc with rfl | hc
    · decide
    · exact hdigits _ c hc

/-- The written form of an integer. -/
theorem write_ofInt (n : Int) (rest : Bytes) :
    write (ofInt n) rest = (toString n).toList.map byteOf ++ rest := by
  change Bytes.ofString (String.ofList (toString n).toList) ++ rest = _
  rw [Bytes.ofString_ascii (toString_ascii n)]
  rfl

theorem numberText_ofInt (n : Int) {rest : Bytes} (hrest : Ends rest) :
    numberText ((toString n).toList.map byteOf ++ rest) =
      some ((toString n).toList.map byteOf, rest) := by
  cases n with
  | ofNat n =>
    change numberText ((toString n).toList.map byteOf ++ rest) =
      some ((toString n).toList.map byteOf, rest)
    rw [toList_toString_nat]
    have hread := unsigned_toDigits n hrest
    obtain ⟨d, ds, heq, hd⟩ := digits_start n
    rw [heq] at hread ⊢
    rw [List.cons_append] at hread ⊢
    rw [numberText]
    · exact hread
    · -- a digit is no sign
      rintro tail ⟨⟩
      cases hd
  | negSucc n =>
    rw [toList_toString_negSucc]
    change (unsigned ((Nat.toDigits 10 (n + 1)).map byteOf ++ rest)).map _ = _
    rw [unsigned_toDigits _ hrest]
    rfl

theorem numberValue_ofInt (n : Int) {rest : Bytes} (hrest : Ends rest) :
    numberValue (write (ofInt n) rest) = some (ofInt n, rest) := by
  have hchars : ((toString n).toList.map byteOf).map charOf = (toString n).toList := by
    rw [List.map_map]
    calc (toString n).toList.map (charOf ∘ byteOf) = (toString n).toList.map id :=
          List.map_congr_left fun c hc => charOf_byteOf (toString_ascii n c hc)
      _ = (toString n).toList := List.map_id _
  unfold numberValue
  rw [write_ofInt, numberText_ofInt n hrest, Option.map_some, hchars]
  rfl

theorem integer_start (n : Int) : ∃ b tail, (toString n).toList.map byteOf = b :: tail ∧
    startsInteger b = true := by
  cases n with
  | ofNat n =>
    change ∃ b tail, (toString n).toList.map byteOf = b :: tail ∧ _
    rw [toList_toString_nat]
    obtain ⟨d, ds, he, hd⟩ := digits_start n
    exact ⟨d, ds, he, by unfold startsInteger; rw [hd, Bool.or_true]⟩
  | negSucc n =>
    rw [toList_toString_negSucc]
    exact ⟨_, _, rfl, rfl⟩

/-- The first byte of an integer starts nothing else. -/
theorem startsInteger_spec {b : UInt8} (h : startsInteger b = true) :
    isBlank b = false ∧ b ≠ 0x22 ∧ b ≠ 0x5D ∧ b ≠ 0x5B ∧ b ≠ 0x7B ∧ b ≠ 0x6E ∧ b ≠ 0x74 ∧
      b ≠ 0x66 := by
  have hall : ∀ n : Fin 256, startsInteger (UInt8.ofNat n) = true →
      isBlank (UInt8.ofNat n) = false ∧ UInt8.ofNat n ≠ 0x22 ∧ UInt8.ofNat n ≠ 0x5D ∧
        UInt8.ofNat n ≠ 0x5B ∧ UInt8.ofNat n ≠ 0x7B ∧ UInt8.ofNat n ≠ 0x6E ∧
        UInt8.ofNat n ≠ 0x74 ∧ UInt8.ofNat n ≠ 0x66 := by decide +kernel
  have hb := hall ⟨b.toNat, b.toNat_lt⟩
  rw [UInt8.ofNat_toNat] at hb
  exact hb h

/-! ## The reader -/

theorem write_null (rest : Bytes) : write .null rest = 0x6E :: 0x75 :: 0x6C :: 0x6C :: rest := by
  rw [write, ofString_word ['n', 'u', 'l', 'l'] rfl (by simp)]
  rfl

theorem write_bool (b : Bool) (rest : Bytes) :
    write (.bool b) rest = if b then 0x74 :: 0x72 :: 0x75 :: 0x65 :: rest
      else 0x66 :: 0x61 :: 0x6C :: 0x73 :: 0x65 :: rest := by
  cases b with
  | true =>
    rw [write, ofString_word ['t', 'r', 'u', 'e'] rfl (by simp)]
    rfl
  | false =>
    rw [write, ofString_word ['f', 'a', 'l', 's', 'e'] rfl (by simp)]
    rfl

/-- Trees whose parts are written in a form that reads back. -/
inductive Written : Json → Prop
  | null : Written .null
  | bool (b : Bool) : Written (.bool b)
  | integer (n : Int) : Written (ofInt n)
  | string {raw : Bytes} (h : Quotable raw) : Written (.string raw)
  | array {xs : List Json} (h : ∀ x ∈ xs, Written x) : Written (.array xs)
  | object {es : List (Bytes × Json)} (hk : ∀ e ∈ es, Quotable e.1)
    (hv : ∀ e ∈ es, Written e.2) : Written (.object es)

theorem skipBlanks_cons {b : UInt8} (h : isBlank b = false) (rest : Bytes) :
    skipBlanks (b :: rest) = b :: rest := by
  unfold skipBlanks
  rw [if_neg (by simp [h])]

theorem le_writeItems {xs : List Json} (h : ∀ x ∈ xs, ∀ rest, rest.length ≤ (write x rest).length)
    (first : Bool) (rest : Bytes) : rest.length ≤ (writeItems xs first rest).length := by
  induction xs generalizing first with
  | nil =>
    unfold writeItems
    omega
  | cons x xs ih =>
    have hrest := ih (fun y hy => h y (List.mem_cons_of_mem _ hy)) false
    have hx := h x List.mem_cons_self (writeItems xs false rest)
    cases first with
    | true =>
      unfold writeItems
      omega
    | false =>
      unfold writeItems
      rw [List.length_cons]
      omega

theorem length_quote (raw rest : Bytes) : (quote raw rest).length = raw.length + 2 + rest.length := by
  unfold quote
  rw [List.length_cons, List.length_append, List.length_cons]
  omega

theorem le_writeEntries {es : List (Bytes × Json)}
    (h : ∀ e ∈ es, ∀ rest, rest.length ≤ (write e.2 rest).length)
    (first : Bool) (rest : Bytes) : rest.length ≤ (writeEntries es first rest).length := by
  induction es generalizing first with
  | nil =>
    unfold writeEntries
    omega
  | cons e es ih =>
    obtain ⟨k, v⟩ := e
    have hrest := ih (fun y hy => h y (List.mem_cons_of_mem _ hy)) false
    have hv : (writeEntries es false rest).length ≤ (write v (writeEntries es false rest)).length :=
      h (k, v) List.mem_cons_self _
    cases first with
    | true =>
      unfold writeEntries
      rw [length_quote, List.length_cons]
      omega
    | false =>
      unfold writeEntries
      rw [List.length_cons, length_quote, List.length_cons]
      omega

/-- A value begins with a byte that is neither a blank nor a closing bracket. -/
theorem Written.front {j : Json} (h : Written j) (rest : Bytes) :
    ∃ b tail, write j rest = b :: tail ∧ isBlank b = false ∧ b ≠ 0x5D ∧
      rest.length ≤ tail.length := by
  have hle : ∀ {x : Json}, (∀ rest : Bytes, ∃ b tail, write x rest = b :: tail ∧
      isBlank b = false ∧ b ≠ 0x5D ∧ rest.length ≤ tail.length) →
      ∀ rest, rest.length ≤ (write x rest).length := by
    intro x hx rest
    obtain ⟨b, tail, he, -, -, hlen⟩ := hx rest
    rw [he, List.length_cons]
    omega
  induction h generalizing rest with
  | null =>
    rw [write_null]
    exact ⟨_, _, rfl, rfl, by decide, by simp only [List.length_cons]; omega⟩
  | bool b =>
    rw [write_bool]
    cases b with
    | true => exact ⟨_, _, rfl, rfl, by decide, by simp only [List.length_cons]; omega⟩
    | false => exact ⟨_, _, rfl, rfl, by decide, by simp only [List.length_cons]; omega⟩
  | integer n =>
    obtain ⟨b, tail, he, hb⟩ := integer_start n
    rw [write_ofInt, he]
    refine ⟨b, tail ++ rest, rfl, ?_, ?_, ?_⟩
    · exact (startsInteger_spec hb).1
    · exact (startsInteger_spec hb).2.2.1
    · rw [List.length_append]
      omega
  | @string raw h =>
    refine ⟨0x22, raw ++ 0x22 :: rest, rfl, rfl, by decide, ?_⟩
    rw [List.length_append, List.length_cons]
    omega
  | @array xs h ih =>
    refine ⟨0x5B, _, rfl, rfl, by decide, ?_⟩
    have hxs := le_writeItems (fun x hx => hle (ih x hx)) true (0x5D :: rest)
    rw [List.length_cons] at hxs
    omega
  | @object es hk hv ih =>
    refine ⟨0x7B, _, rfl, rfl, by decide, ?_⟩
    have hes := le_writeEntries (fun e he => hle (ih e he)) true (0x7D :: rest)
    rw [List.length_cons] at hes
    omega

theorem Written.lt {j : Json} (h : Written j) (rest : Bytes) :
    rest.length < (write j rest).length := by
  obtain ⟨b, tail, he, -, -, hlen⟩ := h.front rest
  rw [he, List.length_cons]
  omega

/-- With fuel for twice the number of its bytes a tree is read back. -/
def Reads (j : Json) : Prop :=
  ∀ rest fuel, Ends rest → 2 * (write j rest).length ≤ fuel + 2 * rest.length →
    value fuel (write j rest) = some (j, rest)

/-- The items behind the first one, up to the closing bracket. -/
theorem writeItems_next (x : Json) (xs : List Json) (rest : Bytes) :
    writeItems (x :: xs) false rest = 0x2C :: writeItems (x :: xs) true rest := by
  rw [writeItems, writeItems]

theorem items_write {x : Json} {xs : List Json} (hw : ∀ y ∈ x :: xs, Written y)
    (hr : ∀ y ∈ x :: xs, Reads y) (seen : List Json) (rest : Bytes) (fuel : Nat)
    (hf : 2 * (writeItems (x :: xs) true (0x5D :: rest)).length ≤ fuel + 1 + 2 * rest.length) :
    items fuel seen (writeItems (x :: xs) true (0x5D :: rest)) =
      some (seen.reverse ++ x :: xs, rest) := by
  induction xs generalizing x seen fuel with
  | nil =>
    rw [writeItems, writeItems] at hf ⊢
    have hlt := (hw x List.mem_cons_self).lt (0x5D :: rest)
    rw [List.length_cons] at hlt
    obtain ⟨n, rfl⟩ : ∃ n, fuel = n + 1 := ⟨fuel - 1, by omega⟩
    have hvalue := hr x List.mem_cons_self (0x5D :: rest) n (Or.inr (Or.inl rfl))
      (by rw [List.length_cons]; omega)
    unfold items
    rw [hvalue]
    change some ((x :: seen).reverse, rest) = _
    rw [List.reverse_cons]
  | cons y ys ih =>
    have hw' : ∀ z ∈ y :: ys, Written z := fun z hz => hw z (List.mem_cons_of_mem _ hz)
    have hle : ∀ z ∈ y :: ys, ∀ rest, rest.length ≤ (write z rest).length :=
      fun z hz rest => Nat.le_of_lt ((hw' z hz).lt rest)
    rw [writeItems, writeItems_next] at hf ⊢
    have hlt := (hw x List.mem_cons_self).lt (0x2C :: writeItems (y :: ys) true (0x5D :: rest))
    have hrest := le_writeItems hle true (0x5D :: rest)
    rw [List.length_cons] at hlt hrest
    obtain ⟨n, rfl⟩ : ∃ n, fuel = n + 1 := ⟨fuel - 1, by omega⟩
    have hvalue := hr x List.mem_cons_self (0x2C :: writeItems (y :: ys) true (0x5D :: rest)) n
      (Or.inl rfl) (by rw [List.length_cons]; omega)
    unfold items
    rw [hvalue]
    change items n (x :: seen) (writeItems (y :: ys) true (0x5D :: rest)) = _
    rw [ih hw' (fun z hz => hr z (List.mem_cons_of_mem _ hz)) (x :: seen) n (by omega),
      List.reverse_cons, List.append_assoc]
    rfl

theorem writeEntries_first (e : Bytes × Json) (es : List (Bytes × Json)) (rest : Bytes) :
    writeEntries (e :: es) true rest =
      quote e.1 (0x3A :: write e.2 (writeEntries es false rest)) := by
  rw [writeEntries]

theorem writeEntries_next (e : Bytes × Json) (es : List (Bytes × Json)) (rest : Bytes) :
    writeEntries (e :: es) false rest = 0x2C :: writeEntries (e :: es) true rest := by
  rw [writeEntries, writeEntries]

/-- What is done with what follows an entry. -/
def membersRest (fuel : Nat) (seen : List (Bytes × Json)) (b : Bytes) :
    Option (List (Bytes × Json) × Bytes) :=
  match skipBlanks b with
  | 0x2C :: rest => members fuel seen rest
  | 0x7D :: rest => some (seen.reverse, rest)
  | _ => none

/-- Reading one entry, down to what follows its value. -/
theorem members_entry {e : Bytes × Json} (hk : Quotable e.1) (hr : Reads e.2) {b : UInt8}
    {tail : Bytes} (hb : Ends (b :: tail)) (seen : List (Bytes × Json)) (fuel : Nat)
    (hf : 2 * (write e.2 (b :: tail)).length ≤ fuel + 2 * (b :: tail).length) :
    members (fuel + 1) seen (quote e.1 (0x3A :: write e.2 (b :: tail))) =
      membersRest fuel (e :: seen) (b :: tail) := by
  have hquote := hk [] (0x3A :: write e.2 (b :: tail))
  have hvalue := hr (b :: tail) fuel hb hf
  rw [members, quote, skipBlanks_cons rfl]
  split
  · next rest he =>
    cases he
    rw [hquote]
    dsimp only
    rw [skipBlanks_cons rfl]
    split
    · next rest he =>
      cases he
      rw [hvalue]
      rfl
    · next hne => exact absurd rfl (hne _)
  · next hne => exact absurd rfl (hne _)

theorem members_write {e : Bytes × Json} {es : List (Bytes × Json)}
    (hk : ∀ d ∈ e :: es, Quotable d.1) (hw : ∀ d ∈ e :: es, Written d.2)
    (hr : ∀ d ∈ e :: es, Reads d.2) (seen : List (Bytes × Json)) (rest : Bytes) (fuel : Nat)
    (hf : 2 * (writeEntries (e :: es) true (0x7D :: rest)).length ≤ fuel + 1 + 2 * rest.length) :
    members fuel seen (writeEntries (e :: es) true (0x7D :: rest)) =
      some (seen.reverse ++ e :: es, rest) := by
  have hke := hk e List.mem_cons_self
  have hre := hr e List.mem_cons_self
  have hwe := hw e List.mem_cons_self
  induction es generalizing e seen fuel with
  | nil =>
    rw [writeEntries_first, writeEntries] at hf ⊢
    have hlt := hwe.lt (0x7D :: rest)
    rw [length_quote, List.length_cons] at hf
    rw [List.length_cons] at hlt
    obtain ⟨n, rfl⟩ : ∃ n, fuel = n + 1 := ⟨fuel - 1, by omega⟩
    rw [members_entry hke hre (Or.inr (Or.inr rfl)) seen n (by rw [List.length_cons]; omega)]
    change some ((e :: seen).reverse, rest) = _
    rw [List.reverse_cons]
  | cons d ds ih =>
    have hw' : ∀ z ∈ d :: ds, Written z.2 := fun z hz => hw z (List.mem_cons_of_mem _ hz)
    have hk' : ∀ z ∈ d :: ds, Quotable z.1 := fun z hz => hk z (List.mem_cons_of_mem _ hz)
    have hr' : ∀ z ∈ d :: ds, Reads z.2 := fun z hz => hr z (List.mem_cons_of_mem _ hz)
    have hle : ∀ z ∈ d :: ds, ∀ rest, rest.length ≤ (write z.2 rest).length :=
      fun z hz rest => Nat.le_of_lt ((hw' z hz).lt rest)
    rw [writeEntries_first, writeEntries_next] at hf ⊢
    have hlt := hwe.lt (0x2C :: writeEntries (d :: ds) true (0x7D :: rest))
    have hrest := le_writeEntries hle true (0x7D :: rest)
    rw [length_quote, List.length_cons] at hf
    rw [List.length_cons] at hlt hrest
    obtain ⟨n, rfl⟩ : ∃ n, fuel = n + 1 := ⟨fuel - 1, by omega⟩
    rw [members_entry hke hre (Or.inl rfl) seen n (by rw [List.length_cons]; omega)]
    change members n (e :: seen) (writeEntries (d :: ds) true (0x7D :: rest)) = _
    rw [ih hk' hw' hr' _ n (by omega) (hk' d List.mem_cons_self) (hr' d List.mem_cons_self)
      (hw' d List.mem_cons_self), List.reverse_cons, List.append_assoc]
    rfl

/-- The first byte decides what is read. -/
theorem value_integer {b : UInt8} (h : startsInteger b = true) (fuel : Nat) (tail : Bytes) :
    value (fuel + 1) (b :: tail) = numberValue (b :: tail) := by
  obtain ⟨hblank, h1, -, h2, h3, h4, h5, h6⟩ := startsInteger_spec h
  unfold value
  rw [skipBlanks_cons hblank]
  split
  all_goals first
    | rfl
    | (rename_i he; cases he; contradiction)

/-- Behind the opening bracket, what does not begin with the closing one is read as items. -/
theorem value_items {n : Nat} {b : UInt8} {tail : Bytes} (hblank : isBlank b = false)
    (hb : b ≠ 0x5D) :
    value (n + 1) (0x5B :: b :: tail) =
      (items n [] (b :: tail)).map fun r => (.array r.1, r.2) := by
  unfold value
  rw [skipBlanks_cons rfl]
  split
  case h_2 he =>
    cases he
    rw [skipBlanks_cons hblank]
    split
    · next he => exact absurd (List.cons.inj he).1 hb
    · rfl
  case h_7 _ _ hno _ _ _ _ => exact (hno _ rfl).elim
  all_goals (rename_i he; cases he)

/-- Behind the opening brace, what does not begin with the closing one is read as members. -/
theorem value_members {n : Nat} {b : UInt8} {tail : Bytes} (hblank : isBlank b = false)
    (hb : b ≠ 0x7D) :
    value (n + 1) (0x7B :: b :: tail) =
      (members n [] (b :: tail)).map fun r => (.object r.1, r.2) := by
  unfold value
  rw [skipBlanks_cons rfl]
  split
  case h_3 he =>
    cases he
    rw [skipBlanks_cons hblank]
    split
    · next he => exact absurd (List.cons.inj he).1 hb
    · rfl
  case h_7 _ _ _ hno _ _ _ => exact (hno _ rfl).elim
  all_goals (rename_i he; cases he)

/-- **Every tree of such parts is read back.** -/
theorem Written.reads {j : Json} (h : Written j) : Reads j := by
  induction h with
  | null =>
    intro rest fuel hrest hf
    rw [write_null] at hf ⊢
    simp only [List.length_cons] at hf
    obtain ⟨n, rfl⟩ : ∃ n, fuel = n + 1 := ⟨fuel - 1, by omega⟩
    rfl
  | bool b =>
    intro rest fuel hrest hf
    rw [write_bool] at hf ⊢
    cases b with
    | true =>
      simp only [if_true, List.length_cons] at hf
      obtain ⟨n, rfl⟩ : ∃ n, fuel = n + 1 := ⟨fuel - 1, by omega⟩
      rfl
    | false =>
      simp only [Bool.false_eq_true, if_false, List.length_cons] at hf
      obtain ⟨n, rfl⟩ : ∃ n, fuel = n + 1 := ⟨fuel - 1, by omega⟩
      rfl
  | integer n =>
    intro rest fuel hrest hf
    have hlt := (Written.integer n).lt rest
    have hnumber := numberValue_ofInt n hrest
    obtain ⟨b, tail, he, hb⟩ := integer_start n
    obtain ⟨m, rfl⟩ : ∃ m, fuel = m + 1 := ⟨fuel - 1, by omega⟩
    rw [write_ofInt, he, List.cons_append] at hnumber ⊢
    rw [value_integer hb, hnumber]
  | @string raw h =>
    intro rest fuel hrest hf
    have hlt := (Written.string h).lt rest
    obtain ⟨m, rfl⟩ : ∃ m, fuel = m + 1 := ⟨fuel - 1, by omega⟩
    have hvalue : value (m + 1) (write (.string raw) rest) =
        (rawString [] (raw ++ 0x22 :: rest)).map fun r => (.string r.1, r.2) := by
      rw [write]
      rfl
    rw [hvalue, h [] rest]
    rfl
  | @array xs h ih =>
    intro rest fuel hrest hf
    rw [write] at hf ⊢
    rw [List.length_cons] at hf
    have hle := le_writeItems (fun x hx rest => Nat.le_of_lt ((h x hx).lt rest)) true (0x5D :: rest)
    rw [List.length_cons] at hle
    obtain ⟨n, rfl⟩ : ∃ n, fuel = n + 1 := ⟨fuel - 1, by omega⟩
    cases xs with
    | nil => rfl
    | cons x xs =>
      have hitems := items_write h ih [] rest n (by omega)
      -- the first item does not begin with the closing bracket
      obtain ⟨b, tail, he, hblank, hne, -⟩ :=
        (h x List.mem_cons_self).front (writeItems xs false (0x5D :: rest))
      rw [writeItems, he] at hitems ⊢
      rw [value_items hblank hne, hitems]
      rfl
  | @object es hk hv ih =>
    intro rest fuel hrest hf
    rw [write] at hf ⊢
    rw [List.length_cons] at hf
    have hle := le_writeEntries (fun e he rest => Nat.le_of_lt ((hv e he).lt rest)) true
      (0x7D :: rest)
    rw [List.length_cons] at hle
    obtain ⟨n, rfl⟩ : ∃ n, fuel = n + 1 := ⟨fuel - 1, by omega⟩
    cases es with
    | nil => rfl
    | cons e es =>
      have hmembers := members_write hk hv ih [] rest n (by omega)
      obtain ⟨k, v⟩ := e
      rw [writeEntries, quote] at hmembers ⊢
      rw [value_members rfl (by decide), hmembers]
      rfl

theorem parse?_render {j : Json} (h : Written j) : parse? j.render = some j := by
  have hread := h.reads [] (2 * j.render.length + 2) trivial (by unfold render; simp)
  unfold parse?
  unfold render at hread ⊢
  rw [hread]
  rfl

end Relay.Json
