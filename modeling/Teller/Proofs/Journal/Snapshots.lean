import Teller.Proofs.Journal.Recovery

/-! What a list of records leaves in the rows, and that a snapshot leaves just the rows it was taken of.
Only the last write of a row counts, so that the bounds of the records do not matter. -/
namespace Teller
open Journal (Write Record)

namespace Journal.Write

def upon (rows : RowId → Option Bytes) (w : Write) : RowId → Option Bytes :=
  fun r => if r = w.row then w.left else rows r

end Journal.Write

namespace State

theorem valuesAfterWrites (version : Nat) (s : State) (ws : List Write) :
    (ws.foldl (applyWrite version) s).value? = ws.foldl Write.upon s.value? := by
  induction ws generalizing s with
  | nil => rfl
  | cons w ws ih =>
    have first : (applyWrite version s w).value? = Write.upon s.value? w := by
      funext r
      rw [value?, rowAfterWrite, Write.upon]
      split
      · simp [Function.comp_def]
      · rfl
    rw [List.foldl_cons, List.foldl_cons, ih, first]

theorem valuesAfter (s : State) (ws : List Write) : (s.apply ws).value? = ws.foldl Write.upon s.value? :=
  valuesAfterWrites (s.version + 1) { s with version := s.version + 1 } ws

def NamesFit (s : State) : Prop := ∀ r, s.value? r ≠ none → r.table.utf8ByteSize ≤ 65535

theorem namesFitApply {s : State} {ws : List Write} (h : s.NamesFit) (fits : ∀ w ∈ ws, w.NameFits) :
    (s.apply ws).NamesFit := by
  intro r present
  rcases rowAfter s ws r with ⟨_, same⟩ | ⟨w, mem, here, _⟩
  · rw [value?, same] at present
    exact h r present
  · have fit := fits w mem
    rw [← here]
    exact fit

end State

namespace Database
variable {rs : List Record} {r : Record}

theorem replaySnoc (rs : List Record) (r : Record) : replay (rs ++ [r]) = (replay rs).apply r.writes := by
  rw [replay, List.foldl_append]
  rfl

theorem replayValues (rs : List Record) :
    (replay rs).value? = (rs.flatMap (·.writes)).foldl Write.upon fun _ => none := by
  have kept (start : State) : (rs.foldl (fun s r => s.apply r.writes) start).value? =
      (rs.flatMap (·.writes)).foldl Write.upon start.value? := by
    induction rs generalizing start with
    | nil => rfl
    | cons r rs ih => rw [List.foldl_cons, ih, State.valuesAfter, List.flatMap_cons, List.foldl_append]
  exact kept {}

theorem namesFitReplay (fits : ∀ r ∈ rs, r.NamesFit) : (replay rs).NamesFit := by
  have kept (start : State) (h : start.NamesFit) : (rs.foldl (fun s r => s.apply r.writes) start).NamesFit := by
    induction rs generalizing start with
    | nil => exact h
    | cons r rs ih =>
      exact ih (fun x mem => fits x (List.mem_cons_of_mem _ mem)) _
        (State.namesFitApply h (fits r List.mem_cons_self))
  exact kept {} fun r present => absurd rfl present

theorem highestLe {n : Nat} : (highestTxnId rs).toNat ≤ n ↔ ∀ r ∈ rs, r.txnId.toNat ≤ n := by
  have kept (top : UInt64) : (rs.foldl (fun top r => max top r.txnId) top).toNat ≤ n ↔
      top.toNat ≤ n ∧ ∀ r ∈ rs, r.txnId.toNat ≤ n := by
    induction rs generalizing top with
    | nil => simp
    | cons r rs ih =>
      have higher : (max top r.txnId).toNat = max top.toNat r.txnId.toNat := by
        have above := UInt64.le_iff_toNat_le (a := top) (b := r.txnId)
        rw [Nat.max_def, show max top r.txnId = if top ≤ r.txnId then r.txnId else top from rfl, apply_ite UInt64.toNat]
        simp only [above]
      rw [List.foldl_cons, ih, higher, Nat.max_le, List.forall_mem_cons, and_assoc]
  rw [highestTxnId, kept 0]
  exact and_iff_right (Nat.zero_le n)

theorem openCases {d : Disk} {j : Journal} {back : Nat} (opened : Journal.openAt d = (j, ⟨rs, back⟩))
    (policy : CheckpointPolicy) :
    (openAt d policy).2 = j.disk ∧
    ((highestTxnId rs).toNat + 1 = 2 ^ 64 ∧ (openAt d policy).1 = .error .txnId ∨
      (highestTxnId rs).toNat + 1 < 2 ^ 64 ∧ ∃ db, (openAt d policy).1 = .ok db ∧ db.state = replay rs ∧
        db.log = some ⟨j, policy, ⟨rs.length, j.size⟩⟩ ∧ db.nextTxnId.toNat = (highestTxnId rs).toNat + 1) := by
  have range := (highestTxnId rs).toNat_lt
  have next := UInt64.toNat_add (highestTxnId rs) 1
  simp only [UInt64.reduceToNat] at next
  unfold openAt
  simp only [opened, true_and]
  by_cases spent : highestTxnId rs + 1 = 0
  · rw [spent] at next
    simp only [UInt64.reduceToNat] at next
    exact .inl ⟨by omega, if_pos spent⟩
  · have left : (highestTxnId rs + 1).toNat ≠ 0 := fun zero => spent (UInt64.toNat_inj.mp zero)
    exact .inr ⟨by omega, _, if_neg spent, rfl, rfl, next.trans (Nat.mod_eq_of_lt (by omega))⟩

end Database

namespace Snapshot
variable {s : State} {id : UInt64}

theorem chunksJoined (limit : Nat) (group : List Write) (size : Nat) (ws : List Write) :
    (chunks limit group size ws).flatten = group.reverse ++ ws := by
  induction ws generalizing group size with
  | nil =>
    rw [chunks]
    split
    · rename_i empty
      simp [List.isEmpty_iff.mp empty]
    · simp
  | cons w ws ih =>
    rw [chunks]
    split
    · simp [ih]
    · simp [ih]

theorem chunkedWrites (s : State) (id : UInt64) (limit : Nat) : (chunked s id limit).flatMap (·.writes) = puts s := by
  have joined := chunksJoined limit [] 0 (puts s)
  rw [chunked]
  split
  · rename_i empty
    rw [empty] at joined
    simpa using joined
  · rw [List.flatMap_map, List.flatMap_id']
    simpa using joined

theorem chunkedStamped {limit : Nat} : ∀ r ∈ chunked s id limit, r.txnId = id := by
  intro r mem
  rw [chunked] at mem
  split at mem
  · rw [List.mem_singleton.mp mem]
  · obtain ⟨group, _, rfl⟩ := List.mem_map.mp mem
    rfl

theorem memPuts {w : Write} : w ∈ puts s ↔ ∃ row held, s.rows.get? row = some held ∧
    Write.put row.table row.key held.value = w := by
  simp only [puts, List.mem_map, Prod.exists, SortedMap.memEntries]

theorem putsRestore (s : State) : (({} : State).apply (puts s)).value? = s.value? := by
  funext r
  rw [State.value?, State.value?]
  rcases State.rowAfter {} (puts s) r with ⟨others, same⟩ | ⟨w, mem, here, found⟩
  · rw [same]
    cases row : s.rows.get? r with
    | none => rfl
    | some held => exact absurd rfl (others _ (memPuts.mpr ⟨r, held, row, rfl⟩))
  · obtain ⟨row, held, present, rfl⟩ := memPuts.mp mem
    obtain rfl : row = r := here
    rw [found, present]
    rfl

theorem chunkedRestore (s : State) (id : UInt64) (limit : Nat) :
    (Database.replay (chunked s id limit)).value? = s.value? := by
  rw [Database.replayValues, chunkedWrites, ← putsRestore s, State.valuesAfter]
  rfl

theorem recordsNamesFit (h : s.NamesFit) : ∀ r ∈ records s id, r.NamesFit := by
  intro r mem w inside
  have written : w ∈ puts s := by
    rw [← chunkedWrites s id Journal.maxWritesSize]
    exact List.mem_flatMap.mpr ⟨r, mem, inside⟩
  obtain ⟨row, held, present, rfl⟩ := memPuts.mp written
  exact h row (by simp [State.value?, present])

end Snapshot
end Teller
