import Teller.Proofs.Serializability
import Teller.Proofs.DatabaseLifecycle

/-! A database whose journal tells its rows stays so whatever its users do, and gives them back when it is opened
again, even if an append had broken off. -/
namespace Teller
open Journal (Record)

def Disk.tear (d : Disk) (r : Record) (k : Nat) : Disk :=
  match r.encode with
  | .ok bytes => if k < bytes.size then d.suffer (.extend (bytes.extract 0 k)) else d
  | .error _ => d

theorem Disk.openTear {d : Disk} {rs : List Record} (h : d.Holds rs) (r : Record) (k : Nat) :
    ∃ back, Journal.openAt (d.tear r k) =
      (⟨{ d.tear r k with file := some d.content }, d.content.size⟩, ⟨rs, back⟩) := by
  unfold tear
  split
  · rename_i bytes coded
    split
    · rename_i torn
      exact ⟨k, Journal.openTorn h coded torn rfl⟩
    · exact ⟨0, Journal.openHeld h⟩
  · exact ⟨0, Journal.openHeld h⟩

namespace Database
def Recoverable (db : Database) : Prop := db.Durable UInt64.size

inductive Used (ready : Transaction → Prop) (db : Database) : Database → Prop where
  | still : Used ready db db
  | begun : Used ready db db.begin.2
  | committed {t} (own : ready t) (ok : (db.commit t).1 = .ok ()) : Used ready db (db.commit t).2
  | checkpointed : Used ready db db.checkpoint.2
  | blocked (on : Bool) : Used ready db (db.block on)

variable {db db' : Database} {t : Transaction} {ready : Transaction → Prop}

theorem recoverableOf {top : Nat} (h : db.Durable top) : db.Recoverable := by
  obtain ⟨log, rs, here, size, tells⟩ := h.log
  refine ⟨⟨log, rs, here, size, tells.held, tells.rows, fun r _ => ?_⟩, ?_⟩
  · exact Nat.le_of_lt (UInt64.toNat_lt r.txnId)
  · exact Nat.le_succ_of_le (Nat.le_of_lt (UInt64.toNat_lt db.nextTxnId))

theorem usedCommit (own : ready t) : db.Used ready (db.commit t).2 := by
  cases ended : (db.commit t).1 with
  | ok done => exact .committed own ended
  | error cause =>
    rw [commitRefused ended]
    exact .still

theorem recoverableUsed (h : db.Recoverable) (used : db.Used ready db')
    (fits : ∀ t, ready t → (db.commit t).1 = .ok () → ∀ w ∈ t.toWrites, w.NameFits) : db'.Recoverable := by
  cases used with
  | still => exact h
  | begun =>
    obtain ⟨log, rs, here, size, tells⟩ := h.log
    exact recoverableOf ⟨⟨log, rs, here, size, tells⟩, Nat.le_succ_of_le (Nat.le_of_lt (UInt64.toNat_lt _))⟩
  | @committed t own ok => exact durableCommit h (Nat.le_of_lt (UInt64.toNat_lt t.id)) (fits t own ok)
  | checkpointed => exact durableCheckpoint h
  | blocked on => exact durableBlock h on

theorem usedCases (used : db.Used ready db') : db'.state = db.state ∨
    ∃ t, ready t ∧ (db.commit t).1 = .ok () ∧ db' = (db.commit t).2 := by
  cases used with
  | still => exact .inl rfl
  | begun => exact .inl rfl
  | @committed t own ok => exact .inr ⟨t, own, ok, rfl⟩
  | checkpointed => exact .inl (checkpointState db)
  | blocked on => exact .inl (blockState db on)

def reopen (db : Database) (policy : CheckpointPolicy) (r : Record) (k : Nat) : Bool × Database :=
  match openAt ((db.disk?.getD {}).tear r k) policy with
  | (.ok fresh, _) => (true, fresh)
  | (.error _, disk) => (false, db.withDisk disk)

theorem reopenRecovers (h : db.Recoverable) (policy : CheckpointPolicy) (r : Record) (k : Nat) :
    (db.reopen policy r k).2.Recoverable ∧ (db.reopen policy r k).2.state.value? = db.state.value? ∧
      (db.state.Dated → (db.reopen policy r k).2.state.Dated) := by
  obtain ⟨log, rs, here, size, tells⟩ := h.log
  have disk : db.disk?.getD {} = log.journal.disk := by
    rw [disk?, here]
    rfl
  obtain ⟨back, opened⟩ := Disk.openTear tells.held r k
  obtain ⟨file, outcome⟩ := openedTells opened tells policy
  unfold reopen
  rw [disk]
  rcases result : openAt (log.journal.disk.tear r k) policy with ⟨found, left⟩
  rw [result] at file outcome
  -- It fails to open only if the ids have run out; the rows in memory are then still those the file tells.
  rcases outcome with ⟨fresh, rfl, -, durable, rows⟩ | ⟨rfl, -⟩
  · exact ⟨durable, rows, fun _ => openedDated (.durable (congrArg Prod.fst result))⟩
  · cases file
    refine ⟨?_, rfl, id⟩
    simp only [withDisk, here, Option.map_some]
    exact ⟨⟨_, rs, rfl, size, Disk.tellsContent tells rfl⟩, h.next⟩

def unopened : Database := { log := some ⟨⟨{}, 0⟩, .standard, .empty⟩ }

theorem recoverableUnopened : unopened.Recoverable :=
  ⟨⟨_, [], rfl, rfl, ⟨rfl, nofun⟩, rfl, nofun⟩, by decide⟩

end Database
end Teller
