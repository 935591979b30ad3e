import Mathlib.Data.List.Nodup
import Relay.Proofs.Json
import Relay.Record
/-!
# Records read back

`decode?_encode`: the payload of a record reads back as the record. A record type is asked for
fields of different names; with two fields of one name no object of the type could be read.
-/
namespace Relay

open Json (Written)

namespace FieldType

theorem mapM_text? (ss : List String) : (ss.map Json.ofString).mapM Json.text? = some ss := by
  induction ss with
  | nil => rfl
  | cons s ss ih =>
    have hs : (Json.ofString s).text? = some s := Json.decode?_encode s
    rw [List.map_cons, List.mapM_cons, hs, ih]
    rfl

/-- What is written for a field is read as its value. -/
theorem read_write (t : FieldType) (v : t.Value) : t.read (t.write v) = some v := by
  cases t with
  | word =>
    have hn : (Json.ofNat v.toNat).nat? = some v.toNat := Json.nat?_ofNat _
    have hlt : v.toNat < UInt32.size := v.toNat_lt
    change ((Json.ofNat v.toNat).nat?).bind _ = _
    rw [hn, Option.bind_some, if_pos hlt, UInt32.ofNat_toNat]
  | long =>
    have hn : (Json.ofInt v.toInt).int? = some v.toInt := Json.int?_ofInt _
    have hle : Int64.minValue.toInt ≤ v.toInt ∧ v.toInt ≤ Int64.maxValue.toInt :=
      ⟨v.minValue_le_toInt, v.toInt_le⟩
    change ((Json.ofInt v.toInt).int?).bind _ = _
    rw [hn, Option.bind_some, if_pos hle, Int64.ofInt_toInt]
  | text => exact Json.decode?_encode v
  | optionalText =>
    cases v with
    | none => rfl
    | some s =>
      change (Json.decode? (Json.encode s)).map some = _
      rw [Json.decode?_encode]
      rfl
  | texts => exact mapM_text? v

theorem written_ofString (s : String) : Written (.ofString s) := .string (Json.quotable_encode s)

theorem written (t : FieldType) (v : t.Value) : Written (t.write v) := by
  cases t with
  | word => exact .integer v.toNat
  | long => exact .integer v.toInt
  | text => exact written_ofString v
  | optionalText =>
    cases v with
    | none => exact .null
    | some s => exact written_ofString s
  | texts =>
    refine .array fun x hx => ?_
    obtain ⟨s, -, rfl⟩ := List.mem_map.mp hx
    exact written_ofString s

end FieldType

namespace Values

theorem write_names (fs : List Field) (vs : Values fs) :
    (write fs vs).map Prod.fst = fs.map Prod.fst := by
  induction fs with
  | nil => rfl
  | cons f fs ih => exact congrArg (f.1 :: ·) (ih vs.2)

theorem lookup_only {name : String} {before after : List (String × Json)} (j : Json)
    (hb : name ∉ before.map Prod.fst) (ha : name ∉ after.map Prod.fst) :
    lookup name (before ++ (name, j) :: after) = some (some j) := by
  have hnone : ∀ {es : List (String × Json)}, name ∉ es.map Prod.fst →
      (es.filter fun e => e.1 == name) = [] := by
    intro es hes
    rw [List.filter_eq_nil_iff]
    intro e he hn
    exact hes (List.mem_map.mpr ⟨e, he, beq_iff_eq.mp hn⟩)
  unfold lookup
  rw [List.filter_append, List.filter_cons_of_pos (by simp), hnone hb, hnone ha]
  rfl

/-- The values are found among entries of which those before them have other names. -/
theorem read_write {fs : List Field} (hn : (fs.map Prod.fst).Nodup) (vs : Values fs)
    (before : List (String × Json))
    (hb : ∀ name ∈ before.map Prod.fst, name ∉ fs.map Prod.fst) :
    read fs (before ++ write fs vs) = some vs := by
  induction fs generalizing before with
  | nil => rfl
  | cons f fs ih =>
    obtain ⟨v, vs⟩ := vs
    rw [List.map_cons, List.nodup_cons] at hn
    have hafter : f.1 ∉ (write fs vs).map Prod.fst := by
      rw [write_names]
      exact hn.1
    have hfirst : lookup f.1 (before ++ (f.1, f.2.write v) :: write fs vs) =
        some (some (f.2.write v)) :=
      lookup_only _ (fun hin => hb _ hin (List.mem_cons_self)) hafter
    have hrest : read fs ((before ++ [(f.1, f.2.write v)]) ++ write fs vs) = some vs := by
      refine ih hn.2 vs _ fun name hname hin => ?_
      rw [List.map_append, List.mem_append] at hname
      rcases hname with hname | hname
      · exact hb name hname (List.mem_cons_of_mem _ hin)
      · rw [List.mem_singleton.mp hname] at hin
        exact hn.1 hin
    rw [List.append_assoc] at hrest
    rw [List.singleton_append] at hrest
    have hes : before ++ write (f :: fs) (v, vs) =
        before ++ (f.1, f.2.write v) :: write fs vs := rfl
    rw [hes, read, hfirst]
    simp only [Option.bind_eq_bind, Option.bind_some, FieldType.read_write]
    rw [hrest]
    rfl

end Values

namespace Record

theorem entries?_record (es : List (String × Json)) : (Json.record es).entries? = some es := by
  change (es.map fun e => (Json.encode e.1, e.2)).mapM _ = _
  induction es with
  | nil => rfl
  | cons e es ih =>
    rw [List.map_cons, List.mapM_cons, Json.decode?_encode, ih]
    rfl

theorem written (r : Record) : Written r.toJson := by
  have hvalues : ∀ (fs : List Field) (vs : Values fs), ∀ e ∈ Values.write fs vs, Written e.2 := by
    intro fs
    induction fs with
    | nil => exact fun _ e he => nomatch he
    | cons f fs ih =>
      rintro ⟨v, vs⟩ e he
      rcases List.mem_cons.mp he with rfl | he
      · exact f.2.written v
      · exact ih vs e he
  refine .object (fun e he => ?_) fun e he => ?_
  · obtain ⟨d, -, rfl⟩ := List.mem_map.mp he
    exact Json.quotable_encode d.1
  · obtain ⟨d, hd, rfl⟩ := List.mem_map.mp he
    exact hvalues _ _ d hd

/-- **The payload of a record reads back as the record.** -/
theorem decode?_encode (r : Record) (hn : (r.type.fields.map Prod.fst).Nodup) :
    decode? r.type r.encode = some r.values := by
  have hparse : Json.parse? r.encode = some r.toJson := Json.parse?_render r.written
  have hread : Values.read r.type.fields (Values.write r.type.fields r.values) = some r.values :=
    Values.read_write hn r.values [] (by simp)
  unfold decode?
  rw [hparse, Option.bind_some]
  change (Json.record (Values.write r.type.fields r.values)).entries?.bind
    (Values.read r.type.fields) = _
  rw [entries?_record, Option.bind_some, hread]

/-! ## Records of a type -/

theorem as?_type (r : Record) : r.as? r.type = some r.values := dif_pos rfl

theorem as?_some {r : Record} {t : RecordType} {vs : Values t.fields} (h : r.as? t = some vs) :
    r = ⟨t, vs⟩ := by
  unfold as? at h
  split at h
  · next ht =>
    subst ht
    cases h
    rfl
  · cases h

end Record

end Relay
