import Relay.Bytes
/-!
# The UTF-8 form of a text

`text?_ofString`: the UTF-8 form of a text reads back as the text. `ofString_ascii`: an ASCII
text has one byte for each character.
-/
namespace Relay.Bytes

theorem loop_eq (b : ByteArray) (i : Nat) (r : List UInt8) :
    ByteArray.toList.loop b i r = r.reverse ++ b.data.toList.drop i := by
  induction h : b.size - i generalizing i r with
  | zero =>
    unfold ByteArray.toList.loop
    have hle : b.data.toList.length ≤ i := by
      rw [Array.length_toList]
      change b.size ≤ i
      omega
    rw [if_neg (by omega), List.drop_of_length_le hle, List.append_nil]
  | succ n ih =>
    unfold ByteArray.toList.loop
    have hlt : i < b.size := by omega
    have hlen : i < b.data.toList.length := by
      rw [Array.length_toList]
      exact hlt
    rw [if_pos hlt, ih _ _ (by omega), List.reverse_cons, List.append_assoc,
      List.drop_eq_getElem_cons hlen]
    have hget : b.get! i = b.data.toList[i] := by
      rw [Array.getElem_toList]
      exact getElem!_pos b.data i hlt
    rw [hget]
    rfl

theorem ofString_eq (s : String) : ofString s = s.toByteArray.data.toList := by
  unfold ofString ByteArray.toList
  rw [loop_eq]
  rfl

/-- **The UTF-8 form of a text reads back as the text.** -/
theorem text?_ofString (s : String) : text? (ofString s) = some s := by
  unfold text?
  rw [ofString_eq]
  have hbytes : (⟨s.toByteArray.data.toList.toArray⟩ : ByteArray) = s.toByteArray := by
    rw [Array.toArray_toList]
  rw [hbytes]
  unfold String.fromUTF8?
  rw [dif_pos s.isValidUTF8]
  rfl

theorem ofString_ofList_cons (c : Char) (cs : List Char) :
    ofString (String.ofList (c :: cs)) = String.utf8EncodeChar c ++ ofString (String.ofList cs) := by
  rw [ofString_eq, ofString_eq, String.toByteArray_ofList, String.toByteArray_ofList,
    List.utf8Encode_cons, List.utf8Encode_singleton, ByteArray.toList_data_append,
    List.toList_data_toByteArray]

/-- The byte of an ASCII character. -/
theorem utf8EncodeChar_ascii {c : Char} (h : c.toNat < 128) :
    String.utf8EncodeChar c = [UInt8.ofNat c.toNat] := by
  have hsize : c.utf8Size = 1 := by
    rw [Char.utf8Size_eq_one_iff, UInt32.le_iff_toNat_le]
    change c.toNat ≤ 127
    omega
  rw [String.utf8EncodeChar_eq_singleton hsize]
  rfl

theorem ofString_ascii {cs : List Char} (h : ∀ c ∈ cs, c.toNat < 128) :
    ofString (String.ofList cs) = cs.map fun c => UInt8.ofNat c.toNat := by
  induction cs with
  | nil => rw [ofString_eq]; rfl
  | cons c cs ih =>
    rw [ofString_ofList_cons, ih fun d hd => h d (List.mem_cons_of_mem _ hd),
      utf8EncodeChar_ascii (h c List.mem_cons_self)]
    rfl

end Relay.Bytes
