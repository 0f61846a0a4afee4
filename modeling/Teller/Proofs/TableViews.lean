import Teller.Proofs.WorkAlone

/-! The rows as a transaction sees them: what is committed, with its own writes laid over. -/
namespace Teller
open Transaction (Op Buffer)

abbrev Rows := RowId → Option Bytes

namespace Rows

def set (rows : Rows) (row : RowId) (left : Option Bytes) : Rows := fun r => if r = row then left else rows r

@[simp] theorem setSelf (rows : Rows) (row : RowId) (left : Option Bytes) : rows.set row left row = left := if_pos rfl

theorem setOther (rows : Rows) {row r : RowId} (left : Option Bytes) (apart : r ≠ row) :
    rows.set row left r = rows r := if_neg apart

end Rows

namespace State
variable {s : State} {own : Buffer}

def amended (s : State) (own : Buffer) : Rows := fun r => (own.get? r).getD (s.value? r)

theorem amendedInsert (s : State) (own : Buffer) (row : RowId) (left : Option Bytes) :
    s.amended (own.insert row left) = (s.amended own).set row left := by
  funext r
  unfold amended Rows.set
  rw [SortedMap.getInsert]
  split <;> rfl

end State

namespace Transaction

theorem overlayGet (table : String) (key : Bytes) {l : List (RowId × Option Bytes)}
    (ascending : l.Pairwise fun a b => compare a.1 b.1 = .lt) (rows : SortedMap Bytes Bytes) :
    (l.foldl (overlay table) rows).get? key = (SortedMap.lookup ⟨table, key⟩ l).getD (rows.get? key) := by
  induction l generalizing rows with
  | nil => rfl
  | cons e l ih =>
    obtain ⟨first, others⟩ := List.pairwise_cons.mp ascending
    rw [List.foldl_cons, ih others]
    by_cases here : e.1 = ⟨table, key⟩
    · have behind : SortedMap.lookup ⟨table, key⟩ l = none := SortedMap.lookupBelow (here ▸ first)
      obtain ⟨row, left⟩ := e
      obtain rfl : row = ⟨table, key⟩ := here
      have found : SortedMap.lookup ⟨table, key⟩ ((⟨table, key⟩, left) :: l) = some left :=
        (SortedMap.memLookup ascending).mp List.mem_cons_self
      rw [behind, found, Option.getD_none, Option.getD_some, overlay, if_pos rfl]
      cases left <;> simp
    · have same : SortedMap.lookup ⟨table, key⟩ (e :: l) = SortedMap.lookup ⟨table, key⟩ l := by
        apply Option.ext
        intro left
        rw [← SortedMap.memLookup ascending, ← SortedMap.memLookup others, List.mem_cons]
        exact or_iff_right fun same => here (congrArg Prod.fst same).symm
      have kept : (overlay table rows e).get? key = rows.get? key := by
        unfold overlay
        split
        · rename_i name
          have apart : key ≠ e.1.key := fun same => here (by rw [← name, same])
          split <;> simp [apart]
        · rfl
      rw [same, kept]

end Transaction

theorem State.memScan (s : State) (own : Buffer) (table : String) (key value : Bytes) :
    (key, value) ∈ (own.entries.foldl (Transaction.overlay table) (s.table table)).entries ↔
      s.amended own ⟨table, key⟩ = some value := by
  rw [SortedMap.memEntries, Transaction.overlayGet table key own.ascending, State.getTable]
  rfl

end Teller
