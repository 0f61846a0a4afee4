import Teller.Database.State

/-! When the journal is replaced by a snapshot, and what the snapshot holds: one put for each
committed row, in the order of the rows, in as many records as their size asks for. -/
namespace Teller
open Journal (Write Record)

structure CheckpointPolicy where
  txns : Nat
  bytes : Nat
  deriving DecidableEq, Repr

namespace CheckpointPolicy

def standard : CheckpointPolicy := ⟨1000, 4 * 1024 * 1024⟩
def never : CheckpointPolicy := ⟨0, 0⟩

end CheckpointPolicy

structure Backlog where
  txns : Nat
  bytes : Nat
  deriving DecidableEq, Repr

namespace Backlog

def empty : Backlog := ⟨0, 0⟩

def record (b : Backlog) (bytes : Nat) : Backlog := ⟨b.txns + 1, b.bytes + bytes⟩

def isDue (b : Backlog) (policy : CheckpointPolicy) : Bool :=
  (policy.txns > 0 && b.txns ≥ policy.txns) || (policy.bytes > 0 && b.bytes ≥ policy.bytes)

end Backlog

namespace Snapshot

def chunks (limit : Nat) : (group : List Write) → (size : Nat) → List Write → List (List Write)
  | group, _, [] => if group.isEmpty then [] else [group.reverse]
  | group, size, w :: rest =>
      if !group.isEmpty && size + w.encodedSize > limit then
        group.reverse :: chunks limit [w] w.encodedSize rest
      else chunks limit (w :: group) (size + w.encodedSize) rest

def puts (s : State) : List Write :=
  s.rows.entries.map fun (row, held) => .put row.table row.key held.value

/-- At least one record, so that the journal keeps the transaction id even without rows. -/
def chunked (s : State) (txnId : UInt64) (limit : Nat) : List Record :=
  match chunks limit [] 0 (puts s) with
  | [] => [⟨txnId, []⟩]
  | groups => groups.map (⟨txnId, ·⟩)

def records (s : State) (txnId : UInt64) : List Record := chunked s txnId Journal.maxWritesSize

end Snapshot
end Teller
