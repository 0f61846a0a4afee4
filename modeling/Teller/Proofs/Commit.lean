import Teller.Proofs.Versions

/-! How a database is opened, and how a commit ends: in a conflict, with nothing to write, with a record
that the journal does not take, or with its writes applied. -/
namespace Teller
open Journal (Write Record)

instance exceptDecidableEq {ε α : Type} [DecidableEq ε] [DecidableEq α] : DecidableEq (Except ε α)
  | .error a, .error b => decidable_of_iff (a = b) (by simp)
  | .ok a, .ok b => decidable_of_iff (a = b) (by simp)
  | .error _, .ok _ | .ok _, .error _ => isFalse nofun

theorem boundOk {ε α β : Type} {first : Except ε α} {next : α → Except ε β} {b : β} (ok : first >>= next = .ok b) :
    ∃ a, first = .ok a ∧ next a = .ok b := by
  cases first with
  | error e => cases ok
  | ok a => exact ⟨a, rfl, ok⟩

theorem memMapM {ε α β : Type} {f : α → Except ε β} {xs : List α} {ys : List β} (ok : xs.mapM f = .ok ys) :
    ∀ y ∈ ys, ∃ x ∈ xs, f x = .ok y := by
  induction xs generalizing ys with
  | nil => cases ok; simp
  | cons x xs ih =>
    rw [List.mapM_cons] at ok
    obtain ⟨y, first, ok⟩ := boundOk ok
    obtain ⟨rest, later, ok⟩ := boundOk ok
    cases ok
    intro z mem
    rcases List.mem_cons.mp mem with rfl | mem
    · exact ⟨x, List.mem_cons_self, first⟩
    · obtain ⟨other, there, same⟩ := ih later z mem
      exact ⟨other, List.mem_cons_of_mem _ there, same⟩

theorem mapMNever {ε α β : Type} {f : α → Except ε β} {e : ε} (never : ∀ x, f x ≠ .error e) (xs : List α) :
    xs.mapM f ≠ .error e := by
  induction xs with
  | nil => exact nofun
  | cons x xs ih =>
    have first := never x
    rw [List.mapM_cons]
    cases read : f x with
    | error cause => simpa [read, bind, Except.bind] using first
    | ok y =>
      cases later : xs.mapM f with
      | error cause => simpa [later, bind, Except.bind] using ih
      | ok rest => simp [bind, Except.bind, pure, Except.pure]

namespace Bytes

@[simp] theorem littleEndianSize (width n : Nat) : (littleEndian width n).size = width := by
  simp [littleEndian, ByteArray.size]

end Bytes

namespace Journal.Record

def writesSize : List Write → Nat
  | [] => 0
  | w :: ws => w.encode.size + writesSize ws

theorem writeSizeLe {ws : List Write} {w : Write} (mem : w ∈ ws) : w.encode.size ≤ writesSize ws := by
  induction ws with
  | nil => cases mem
  | cons first ws ih =>
    rw [writesSize]
    rcases List.mem_cons.mp mem with rfl | mem
    · exact Nat.le_add_right _ _
    · exact Nat.le_add_left_of_le (ih mem)

theorem foldSize (ws : List Write) (b : Bytes) :
    (ws.foldl (fun b w => b ++ w.encode) b).size = b.size + writesSize ws := by
  induction ws generalizing b with
  | nil => rfl
  | cons w ws ih => rw [List.foldl_cons, ih, ByteArray.size_append, writesSize, Nat.add_assoc]

theorem bodySize (r : Record) : r.body.size = 12 + writesSize r.writes := by
  unfold body
  rw [foldSize, ByteArray.size_append, Bytes.littleEndianSize, Bytes.littleEndianSize]

theorem encodeIff (r : Record) : (∃ bytes, r.encode = .ok bytes) ↔
    16 + writesSize r.writes + checksumSize ≤ maxRecordSize := by
  unfold encode
  simp only [bodySize]
  split
  · simp; omega
  · simp; omega

end Journal.Record

namespace Transaction

def asWrite : RowId × Option Bytes → Write
  | (row, some value) => .put row.table row.key value
  | (row, none) => .delete row.table row.key

@[simp] theorem asWriteRow (e : RowId × Option Bytes) : (asWrite e).row = e.1 := by
  obtain ⟨row, _ | value⟩ := e <;> rfl

@[simp] theorem asWriteLeft (e : RowId × Option Bytes) : (asWrite e).left = e.2 := by
  obtain ⟨row, _ | value⟩ := e <;> rfl

theorem memToWrites {t : Transaction} {w : Write} :
    w ∈ t.toWrites ↔ ∃ r left, t.writes.get? r = some left ∧ asWrite (r, left) = w := by
  have same : t.toWrites = t.writes.entries.map asWrite := by
    unfold toWrites
    congr
  simp [same, ← SortedMap.memEntries]

theorem valueAfter (t : Transaction) (s : State) (r : RowId) :
    (s.apply t.toWrites).value? r = (t.writes.get? r).getD (s.value? r) := by
  rcases State.rowAfter s t.toWrites r with ⟨others, same⟩ | ⟨w, mem, here, found⟩
  · have unwritten : t.writes.get? r = none := by
      cases buffer : t.writes.get? r with
      | none => rfl
      | some left => exact absurd (asWriteRow _) (others _ (memToWrites.mpr ⟨r, left, buffer, rfl⟩))
    simp [State.value?, same, unwritten]
  · obtain ⟨row, left, buffer, rfl⟩ := memToWrites.mp mem
    obtain rfl : row = r := (asWriteRow _).symm.trans here
    rw [State.value?, found, buffer, asWriteLeft]
    cases left <;> rfl

end Transaction

namespace Database

inductive Opened : Database → Prop where
  | inMemory : Opened .inMemory
  | durable {disk policy db} (ok : (openAt disk policy).1 = .ok db) : Opened db

theorem openedEmpty {disk : Disk} (absent : disk.file = none) (policy : CheckpointPolicy) :
    ∃ log, (openAt disk policy).1 = .ok { log := some log } := by
  have found : (Journal.openAt disk).2.records = [] := by
    simp [Journal.openAt, Disk.content, absent, Journal.scan]
  refine ⟨⟨(Journal.openAt disk).1, policy, ⟨0, (Journal.openAt disk).1.size⟩⟩, ?_⟩
  simp only [openAt, found]
  rfl

theorem openedState {db : Database} (h : db.Opened) : ∃ records, db.state = replay records := by
  cases h with
  | inMemory => exact ⟨[], rfl⟩
  | durable ok =>
    rename_i disk policy
    simp only [openAt] at ok
    split at ok
    · contradiction
    · cases ok
      exact ⟨(Journal.openAt disk).2.records, rfl⟩

theorem openedDated {db : Database} (h : db.Opened) : db.state.Dated := by
  obtain ⟨records, same⟩ := openedState h
  exact same ▸ State.datedReplay records

theorem logCommitIff (log : Option Log) (r : Record) :
    (∃ fresh, logCommit log r = .ok fresh) ↔ log = none ∨ ∃ bytes, r.encode = .ok bytes := by
  cases log with
  | none => simp [logCommit]
  | some log =>
    simp only [logCommit, Journal.append, reduceCtorEq, false_or]
    cases r.encode with
    | error cause => simp [bind, Except.bind]
    | ok bytes => simp [bind, Except.bind, pure, Except.pure]

theorem commitCases (db : Database) (t : Transaction) :
    (t.isStale db.state = true ∧ db.commit t = (.error .conflict, db)) ∨
    (t.isStale db.state = false ∧ t.isReadOnly = true ∧ db.commit t = (.ok (), db)) ∨
    (t.isStale db.state = false ∧ t.isReadOnly = false ∧
      ∃ cause, logCommit db.log ⟨t.id, t.toWrites⟩ = .error cause ∧
        db.commit t = (.error (.journal cause), db)) ∨
    (t.isStale db.state = false ∧ t.isReadOnly = false ∧
      ∃ log, logCommit db.log ⟨t.id, t.toWrites⟩ = .ok log ∧
        db.commit t = (.ok (), { db with
          state := db.state.apply t.toWrites
          log := checkpointIfDue log (db.state.apply t.toWrites) db.lastTxnId })) := by
  unfold commit
  cases stale : t.isStale db.state with
  | true => exact .inl ⟨rfl, rfl⟩
  | false =>
    cases only : t.isReadOnly with
    | true => exact .inr (.inl ⟨rfl, rfl, rfl⟩)
    | false =>
      cases logged : logCommit db.log ⟨t.id, t.toWrites⟩ with
      | error cause => exact .inr (.inr (.inl ⟨rfl, rfl, cause, rfl, by simp [logged]⟩))
      | ok log => exact .inr (.inr (.inr ⟨rfl, rfl, log, rfl, by simp [logged]⟩))

theorem commitState (db : Database) (t : Transaction) :
    (db.commit t).2.state = db.state ∨ (db.commit t).2.state = db.state.apply t.toWrites := by
  rcases commitCases db t with ⟨_, h⟩ | ⟨_, _, h⟩ | ⟨_, _, _, _, h⟩ | ⟨_, _, _, _, h⟩ <;> simp [h]

theorem commitChecked {db : Database} {t : Transaction} (ok : (db.commit t).1 = .ok ()) :
    t.isStale db.state = false := by
  rcases commitCases db t with ⟨_, h⟩ | ⟨fresh, _⟩ | ⟨fresh, _⟩ | ⟨fresh, _⟩
  · rw [h] at ok; cases ok
  · exact fresh
  · exact fresh
  · exact fresh

theorem conflictStale {db : Database} {t : Transaction} (conflict : (db.commit t).1 = .error .conflict) :
    t.isStale db.state = true := by
  rcases commitCases db t with ⟨stale, _⟩ | ⟨_, _, h⟩ | ⟨_, _, _, _, h⟩ | ⟨_, _, _, _, h⟩
  · exact stale
  · rw [h] at conflict; cases conflict
  · rw [h] at conflict; cases conflict
  · rw [h] at conflict; cases conflict

theorem commitRefused {db : Database} {t : Transaction} {cause : CommitError}
    (refused : (db.commit t).1 = .error cause) : (db.commit t).2 = db := by
  rcases commitCases db t with ⟨_, h⟩ | ⟨_, _, h⟩ | ⟨_, _, _, _, h⟩ | ⟨_, _, _, _, h⟩
  · rw [h]
  · rw [h]
  · rw [h]
  · rw [h] at refused; cases refused

theorem readOnlyGet {t : Transaction} (h : t.isReadOnly = true) (r : RowId) : t.writes.get? r = none := by
  rw [SortedMap.isEmptyIff.mp h]
  simp

theorem valueAfterCommit {db : Database} {t : Transaction} (ok : (db.commit t).1 = .ok ()) (r : RowId) :
    (db.commit t).2.state.value? r = (t.writes.get? r).getD (db.state.value? r) := by
  rcases commitCases db t with ⟨_, h⟩ | ⟨_, only, h⟩ | ⟨_, _, _, _, h⟩ | ⟨_, _, _, _, h⟩
  · rw [h] at ok; cases ok
  · simp [h, readOnlyGet only]
  · rw [h] at ok; cases ok
  · rw [h]; exact t.valueAfter db.state r

@[simp] theorem checkpointState (db : Database) : db.checkpoint.2.state = db.state := by
  unfold checkpoint
  split
  · rfl
  · split <;> rfl

def block (db : Database) (on : Bool) : Database :=
  match db.disk? with
  | some disk => db.withDisk { disk with blocked := on }
  | none => db

@[simp] theorem blockState (db : Database) (on : Bool) : (db.block on).state = db.state := by
  unfold block
  split <;> rfl

@[simp] theorem checkpointNext (db : Database) : db.checkpoint.2.nextTxnId = db.nextTxnId := by
  unfold checkpoint
  split
  · rfl
  · split <;> rfl

@[simp] theorem blockNext (db : Database) (on : Bool) : (db.block on).nextTxnId = db.nextTxnId := by
  unfold block
  split <;> rfl

theorem logCommitDurable {log after : Option Log} {r : Record} (ok : logCommit log r = .ok after) :
    after.isSome = log.isSome := by
  cases log with
  | none => cases ok; rfl
  | some log =>
    obtain ⟨journal, -, ok⟩ := boundOk ok
    cases ok
    rfl

theorem commitDurable (db : Database) (t : Transaction) : (db.commit t).2.log.isSome = db.log.isSome := by
  rcases commitCases db t with ⟨_, h⟩ | ⟨_, _, h⟩ | ⟨_, _, _, _, h⟩ | ⟨_, _, log, logged, h⟩
  · rw [h]
  · rw [h]
  · rw [h]
  · rw [h, ← logCommitDurable logged]
    exact Option.isSome_map

theorem commitNext (db : Database) (t : Transaction) : (db.commit t).2.nextTxnId = db.nextTxnId := by
  rcases commitCases db t with ⟨_, h⟩ | ⟨_, _, h⟩ | ⟨_, _, _, _, h⟩ | ⟨_, _, _, _, h⟩ <;> rw [h]

end Database

end Teller
