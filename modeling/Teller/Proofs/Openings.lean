import Mathlib.Algebra.Group.Action.Defs
import Mathlib.Algebra.Order.BigOperators.Group.List
import Mathlib.Algebra.Order.Ring.Nat
import Teller.Proofs.Journal.Salvage
import Teller.Proofs.Journal.Snapshots

/-! Opening a database on a file that may hold anything. What is read of the file is replayed, and the next id is
above all ids on it. That needs an id to be left: a record with the last id there is can be read like any other,
and then no database is opened on the journal at all. -/
namespace Teller
namespace Database
open Journal (Record Reads)

variable {rs : List Record}

theorem replayVersion (rs : List Record) : (replay rs).version = rs.length := by
  have counted (start : State) :
      (rs.foldl (fun s r => s.apply r.writes) start).version = start.version + rs.length := by
    induction rs generalizing start with
    | nil => rfl
    | cons r rs ih => rw [List.foldl_cons, ih, State.versionAfter, List.length_cons, Nat.add_assoc, Nat.add_comm 1]
  exact (counted {}).trans (Nat.zero_add _)

theorem replayedRoom {b : Bytes} {pos stop : Nat} (reads : Reads b pos rs stop) :
    rs.length * (Journal.headerSize + Journal.checksumSize) ≤ b.size := by
  have own : ∀ n ∈ rs.map Record.size, Journal.headerSize + Journal.checksumSize ≤ n := by
    intro n mem
    obtain ⟨r, -, rfl⟩ := List.mem_map.mp mem
    rw [Record.size]
    omega
  have least := List.card_nsmul_le_sum (rs.map Record.size) _ own
  rw [List.length_map, smul_eq_mul] at least
  have stops := reads.stops
  have within := reads.within
  omega

theorem someHighest : (∃ r ∈ rs, r.txnId.toNat + 1 = 2 ^ 64) ↔ (highestTxnId rs).toNat + 1 = 2 ^ 64 := by
  have range := (highestTxnId rs).toNat_lt
  have all : (highestTxnId rs).toNat ≤ 2 ^ 64 - 2 ↔ _ := highestLe
  constructor
  · rintro ⟨r, mem, last⟩
    have above := highestLe.mp (Nat.le_refl _) r mem
    omega
  · intro last
    by_contra lower
    have low := all.mpr fun r mem => by
      have room := r.txnId.toNat_lt
      have other : r.txnId.toNat + 1 ≠ 2 ^ 64 := fun last => lower ⟨r, mem, last⟩
      omega
    omega

theorem opensAboveReplayed (d : Disk) (policy : CheckpointPolicy) :
    ∃ rs stop, (∀ found last, Reads d.content 0 found last ↔ found = rs ∧ last = stop) ∧
      (openAt d policy).2 = { d with file := some (d.content.extract 0 stop) } ∧
      rs.length * (Journal.headerSize + Journal.checksumSize) ≤ d.content.size ∧
      ((∃ r ∈ rs, r.txnId.toNat + 1 = 2 ^ 64) ∧ (openAt d policy).1 = .error .txnId ∨
        (∀ r ∈ rs, r.txnId.toNat + 1 < 2 ^ 64) ∧ ∃ db, (openAt d policy).1 = .ok db ∧
          db.state = replay rs ∧ db.state.version = rs.length ∧ db.disk? = some (openAt d policy).2 ∧
          ∀ r ∈ rs, r.txnId < db.begin.1.id) := by
  have reads := Journal.openReads d
  have opened := Journal.openedByReading reads
  generalize (Journal.openAt d).2.records = rs, (Journal.openAt d).1.size = stop at reads opened
  obtain ⟨disk, cases⟩ := openCases opened policy
  refine ⟨rs, stop, fun found last => ⟨reads.unique, ?_⟩, disk, replayedRoom reads, ?_⟩
  · rintro ⟨rfl, rfl⟩
    exact reads
  rcases cases with ⟨spent, fails⟩ | ⟨left, db, ok, state, log, next⟩
  · exact .inl ⟨someHighest.mpr spent, fails⟩
  · have below : ∀ r ∈ rs, r.txnId.toNat ≤ (highestTxnId rs).toNat := highestLe.mp (Nat.le_refl _)
    refine .inr ⟨fun r mem => ?_, db, ok, state, by rw [state, replayVersion], by rw [disk?, log, disk]; rfl, ?_⟩
    · exact Nat.lt_of_le_of_lt (Nat.succ_le_succ (below r mem)) left
    · intro r mem
      have first : db.begin.1.id.toNat = (highestTxnId rs).toNat + 1 := next
      rw [UInt64.lt_iff_toNat_lt, first]
      exact Nat.lt_succ_of_le (below r mem)

theorem lastIdOpensNothing :
    let bytes : Bytes := ⟨#[20, 0, 0, 0, 255, 255, 255, 255, 255, 255, 255, 255, 0, 0, 0, 0, 74, 32, 90, 192]⟩
    let d : Disk := ⟨some bytes, false⟩
    (Journal.openAt d).2 = ⟨[⟨18446744073709551615, []⟩], 0⟩ ∧ openAt d .standard = (.error .txnId, d) := by
  intro bytes d
  have coded : Record.encode ⟨18446744073709551615, []⟩ = .ok bytes := by decide +kernel
  have held : d.Holds [⟨18446744073709551615, []⟩] :=
    ⟨by rw [Journal.encodeAllJoins coded rfl, ByteArray.append_empty]; rfl, by decide⟩
  have opened := Journal.openHeld held
  obtain ⟨disk, cases⟩ := openCases opened .standard
  refine ⟨by rw [opened], ?_⟩
  rcases cases with ⟨spent, fails⟩ | ⟨left, -⟩
  · exact Prod.ext fails disk
  · exact absurd left (by decide)

end Database
end Teller
