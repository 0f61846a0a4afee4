import Teller.Database.State

/-! An open transaction. It keeps its writes to itself and remembers the version of everything it
read; whoever commits it compares those versions with the committed ones. -/
namespace Teller
open Journal (Write)

structure Transaction where
  id : UInt64
  /-- Versions of the rows that were read; the first reading counts. -/
  reads : SortedMap RowId Nat := ∅
  scans : SortedMap String Nat := ∅
  writes : SortedMap RowId (Option Bytes) := ∅
  deriving DecidableEq

namespace Transaction

def get (t : Transaction) (s : State) (row : RowId) : Option Bytes × Transaction :=
  match t.writes.get? row with
  | some buffered => (buffered, t)
  | none => (s.value? row, { t with reads := t.reads.insertNew row (s.rowVersion row) })

def overlay (table : String) (rows : SortedMap Bytes Bytes) (e : RowId × Option Bytes) :
    SortedMap Bytes Bytes :=
  if e.1.table = table then
    match e.2 with
    | some value => rows.insert e.1.key value
    | none => rows.erase e.1.key
  else rows

def scan (t : Transaction) (s : State) (table : String) : List (Bytes × Bytes) × Transaction :=
  ((t.writes.entries.foldl (overlay table) (s.table table)).entries,
    { t with scans := t.scans.insertNew table (s.tableVersion table) })

def put (t : Transaction) (row : RowId) (value : Bytes) : Transaction :=
  { t with writes := t.writes.insert row (some value) }

def delete (t : Transaction) (row : RowId) : Transaction :=
  { t with writes := t.writes.insert row none }

def isReadOnly (t : Transaction) : Bool := t.writes.isEmpty

def toWrites (t : Transaction) : List Write :=
  t.writes.entries.map fun
    | (row, some value) => .put row.table row.key value
    | (row, none) => .delete row.table row.key

def isStale (t : Transaction) (s : State) : Bool :=
  t.reads.entries.any (fun (row, seen) => s.rowVersion row ≠ seen) ||
    t.scans.entries.any fun (table, seen) => s.tableVersion table ≠ seen

def write (t : Transaction) : Write → Transaction
  | .put table key value => t.put ⟨table, key⟩ value
  | .delete table key => t.delete ⟨table, key⟩

end Transaction
end Teller
