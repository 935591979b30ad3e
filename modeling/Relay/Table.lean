import Relay.Store
/-!
# Database tables

The part of a relational table the stores rely on: rows carry row numbers, no two the same, a new
row's number exceeds those present, an insertion of a key that is present does nothing, and a
selection ordered by row number gives the order of arrival. Where a row is put among the others and
by how much its number exceeds theirs is the database's own matter (`Filing`). A statement holds the
texts it is about, none of which can have a NUL in it; that is seen before the table is looked for.
-/
namespace Relay

/-- How a database files a new row, when so many have been inserted before it: under which number,
and in which place among the rows. -/
structure Filing (α : Type) where
  number : (inserted : Nat) → List (Nat × α) → Nat
  place : (inserted : Nat) → Nat × α → List (Nat × α) → List (Nat × α)
  number_exceeds : ∀ n rows, ∀ r ∈ rows, r.1 < number n rows
  place_perm : ∀ n r rows, (place n r rows).Perm (r :: rows)

namespace Filing

variable {α : Type}

theorem le_foldl_max (rows : List (Nat × α)) (n : Nat) :
    n ≤ rows.foldl (fun m r => max m r.1) n ∧
      ∀ r ∈ rows, r.1 ≤ rows.foldl (fun m r => max m r.1) n := by
  induction rows generalizing n with
  | nil => exact ⟨Nat.le_refl n, nofun⟩
  | cons r' rows ih =>
    obtain ⟨hle, hall⟩ := ih (max n r'.1)
    refine ⟨Nat.le_trans (Nat.le_max_left _ _) hle, fun r hr => ?_⟩
    rcases List.mem_cons.mp hr with rfl | hr
    · exact Nat.le_trans (Nat.le_max_right _ _) hle
    · exact hall r hr

/-- At the end, under one more than the greatest number present. -/
def atEnd : Filing α where
  number _ rows := rows.foldl (fun m r => max m r.1) 0 + 1
  place _ r rows := rows ++ [r]
  number_exceeds _ rows r hr := Nat.lt_succ_of_le ((le_foldl_max rows 0).2 r hr)
  place_perm _ _ _ := List.perm_append_comm

/-- A row is filed under a number that no other has. -/
theorem distinct (f : Filing α) {rows : List (Nat × α)} (h : (rows.map Prod.fst).Nodup) (n : Nat)
    (v : α) : ((f.place n (f.number n rows, v) rows).map Prod.fst).Nodup := by
  rw [((f.place_perm n _ rows).map Prod.fst).nodup_iff, List.map_cons, List.nodup_cons]
  refine ⟨fun hmem => ?_, h⟩
  obtain ⟨r, hr, heq⟩ := List.mem_map.mp hmem
  have hlt := f.number_exceeds n rows r hr
  exact Nat.lt_irrefl _ (heq ▸ hlt)

end Filing

structure Table (α : Type) where
  filing : Filing α
  rows : List (Nat × α)
  /-- Number of rows ever inserted. -/
  inserted : Nat
  distinct : (rows.map Prod.fst).Nodup

namespace Table

variable {α : Type}

def empty (filing : Filing α := .atEnd) : Table α := ⟨filing, [], 0, List.nodup_nil⟩

/-- Adds a row. -/
def insert (t : Table α) (v : α) : Table α where
  filing := t.filing
  rows := t.filing.place t.inserted (t.filing.number t.inserted t.rows, v) t.rows
  inserted := t.inserted + 1
  distinct := t.filing.distinct t.distinct t.inserted v

/-- Adds a row unless one with the same key is present. -/
def insertNew (sameKey : α → α → Bool) (t : Table α) (v : α) : Table α :=
  if t.rows.any fun r => sameKey r.2 v then t else t.insert v

/-- The rows that satisfy the condition, ordered by row number. -/
def select (t : Table α) (p : α → Bool) : List α :=
  ((t.rows.filter fun r => p r.2).mergeSort fun a b => a.1 ≤ b.1).map Prod.snd

def count (t : Table α) (p : α → Bool) : Nat := (t.rows.filter fun r => p r.2).length

def delete (t : Table α) (p : α → Bool) : Table α where
  filing := t.filing
  rows := t.rows.filter fun r => !p r.2
  inserted := t.inserted
  distinct := t.distinct.sublist (List.filter_sublist.map _)

/-! ## Statements -/

/-- Whether a statement can hold a text. -/
def canHold (s : String) : Bool := !s.toList.contains '\x00'

/-- The table that a statement about texts finds, none if its schema was never set up. -/
def find (name : String) (table : Option (Table α)) (texts : List String) :
    Except StoreError (Table α) :=
  if texts.all canHold then
    match table with
    | some t => .ok t
    | none => .error (.resourceNotFound name)
  else .error .database

/-- Inserts values by one statement each; where one fails, nothing is inserted. -/
def insertAll (name : String) (sameKey : α → α → Bool) (texts : α → List String)
    (table : Option (Table α)) (vs : List α) : Except StoreError (Option (Table α)) :=
  vs.foldlM (fun table v => do
    let t ← find name table (texts v)
    return some (t.insertNew sameKey v)) table

end Table

end Relay
