import Teller.Journal.Record
import Teller.SortedMap

/-! The committed rows of every table. Each commit has a version of its own; a row carries the
version of the commit that wrote it, and a table that of the last commit that touched it. -/
namespace Teller

structure RowId where
  table : String
  key : Bytes
  deriving DecidableEq

namespace RowId

instance : Ord RowId := ⟨compareLex (compareOn RowId.table) (compareOn RowId.key)⟩

instance : Std.TransOrd RowId :=
  inferInstanceAs (Std.TransCmp (compareLex (compareOn RowId.table) (compareOn RowId.key)))

theorem compare_eq_then (a b : RowId) :
    compare a b = (compare a.table b.table).then (compare a.key b.key) := rfl

instance : Std.LawfulEqOrd RowId where
  eq_of_compare {a b} h := by
    rw [compare_eq_then, Ordering.then_eq_eq] at h
    obtain ⟨ht, hk⟩ := h
    have table := Std.LawfulEqCmp.eq_of_compare ht
    have key := Std.LawfulEqCmp.eq_of_compare hk
    cases a; cases b
    simp_all only

end RowId

structure Versioned where
  version : Nat
  value : Bytes
  deriving DecidableEq

structure State where
  rows : SortedMap RowId Versioned := ∅
  touched : SortedMap String Nat := ∅
  version : Nat := 0
  deriving DecidableEq

namespace State
open Journal (Write)

def rowVersion (s : State) (row : RowId) : Nat := ((s.rows.get? row).map (·.version)).getD 0

def tableVersion (s : State) (table : String) : Nat := (s.touched.get? table).getD 0

def value? (s : State) (row : RowId) : Option Bytes := (s.rows.get? row).map (·.value)

def keyed (table : String) (e : RowId × Versioned) : Option (Bytes × Bytes) :=
  if e.1.table = table then some (e.1.key, e.2.value) else none

def table (s : State) (name : String) : SortedMap Bytes Bytes :=
  ⟨s.rows.entries.filterMap (keyed name), by
    rw [List.pairwise_filterMap]
    refine s.rows.ascending.imp fun {a b} h x hx y hy => ?_
    simp only [keyed] at hx hy
    split at hx <;> cases hx
    split at hy <;> cases hy
    rename_i ha hb
    simpa [RowId.compare_eq_then, ha, hb] using h⟩

def applyWrite (version : Nat) (s : State) : Write → State
  | .put table key value =>
      { s with rows := s.rows.insert ⟨table, key⟩ ⟨version, value⟩
               touched := s.touched.insert table version }
  | .delete table key =>
      { s with rows := s.rows.erase ⟨table, key⟩
               touched := s.touched.insert table version }

def apply (s : State) (writes : List Write) : State :=
  writes.foldl (applyWrite (s.version + 1)) { s with version := s.version + 1 }

end State
end Teller
