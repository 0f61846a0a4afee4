import Teller.Proofs.SharedDatabase
import Teller.Proofs.Journal.Snapshots

/-! A database on one journal that is closed and opened again, with any transactions in between. At any
time the journal holds a snapshot and the commits behind it, and these leave the committed rows: whatever
was appended, replaced or left as it was, the next opening finds the same. -/
namespace Teller
open Journal (Write Record)
open Transaction (Op Underway)

namespace Disk

structure Tells (d : Disk) (s : State) (top : Nat) (rs : List Record) : Prop where
  held : d.Holds rs
  rows : (Database.replay rs).value? = s.value?
  ids : ∀ r ∈ rs, r.txnId.toNat ≤ top

def Reopens (d : Disk) (s : State) (begun : Nat) (policy : CheckpointPolicy) : Prop :=
  (∃ db, (Database.openAt d policy).1 = .ok db ∧ ∀ table, db.state.table table = s.table table) ∨
    ((Database.openAt d policy).1 = .error .txnId ∧ 2 ^ 64 ≤ begun + 1)

variable {d : Disk} {s : State} {rs : List Record} {top more : Nat}

theorem tellsMono (h : d.Tells s top rs) (le : top ≤ more) : d.Tells s more rs :=
  ⟨h.held, h.rows, fun r mem => Nat.le_trans (h.ids r mem) le⟩

theorem tellsContent {d' : Disk} (h : d.Tells s top rs) (same : d'.content = d.content) : d'.Tells s top rs :=
  ⟨⟨same ▸ h.held.written, h.held.fits⟩, h.rows, h.ids⟩

theorem tellsNamesFit (h : d.Tells s top rs) : s.NamesFit := by
  intro r present
  rw [← h.rows] at present
  exact Database.namesFitReplay h.held.fits r present

end Disk

namespace Database
variable {db : Database} {t : Transaction} {log : Log} {top more : Nat}

structure Durable (db : Database) (top : Nat) : Prop where
  log : ∃ log rs, db.log = some log ∧ log.journal.size = log.journal.disk.content.size ∧
    log.journal.disk.Tells db.state top rs
  next : db.nextTxnId.toNat ≤ top + 1

theorem lastTxnIdLe (h : db.Durable top) : db.lastTxnId.toNat ≤ top := by
  have next := h.next
  unfold lastTxnId
  split
  · exact Nat.zero_le top
  · rename_i begun
    have pos : db.nextTxnId.toNat ≠ 0 := fun zero => begun (UInt64.toNat_inj.mp zero)
    have one : (1 : UInt64) ≤ db.nextTxnId := UInt64.le_iff_toNat_le.mpr (Nat.one_le_iff_ne_zero.mpr pos)
    rw [UInt64.toNat_sub_of_le _ _ one]
    exact Nat.sub_le_of_le_add next

theorem openedTells {d whole : Disk} {s : State} {rs : List Record} {back : Nat}
    (opened : Journal.openAt d = (⟨{ d with file := some whole.content }, whole.content.size⟩, ⟨rs, back⟩))
    (tells : whole.Tells s top rs) (policy : CheckpointPolicy) :
    (openAt d policy).2 = { d with file := some whole.content } ∧
    ((∃ db, (openAt d policy).1 = .ok db ∧ db.disk? = some (openAt d policy).2 ∧ db.Durable top ∧
        db.state.value? = s.value?) ∨
      ((openAt d policy).1 = .error .txnId ∧ 2 ^ 64 ≤ top + 1)) := by
  obtain ⟨disk, cases⟩ := openCases opened policy
  have low := highestLe.mpr tells.ids
  refine ⟨disk, ?_⟩
  rcases cases with ⟨spent, fails⟩ | ⟨left, db, ok, state, log, next⟩
  · exact .inr ⟨fails, by omega⟩
  · have held : { d with file := some whole.content }.Holds rs := ⟨tells.held.written, tells.held.fits⟩
    refine .inl ⟨db, ok, by rw [disk?, log, disk]; rfl, ⟨⟨_, rs, log, rfl, ⟨held, ?_, tells.ids⟩⟩, by omega⟩, ?_⟩
    · rw [state]
    · rw [state]
      exact tells.rows

theorem reopens {d whole : Disk} {s : State} {rs : List Record} {back : Nat}
    (opened : Journal.openAt d = (⟨{ d with file := some whole.content }, whole.content.size⟩, ⟨rs, back⟩))
    (tells : whole.Tells s top rs) (policy : CheckpointPolicy) : d.Reopens s top policy := by
  rcases (openedTells opened tells policy).2 with ⟨db, ok, _, _, same⟩ | spent
  · exact .inl ⟨db, ok, fun table => State.sameTable fun k => congrFun same ⟨table, k⟩⟩
  · exact .inr spent

def replacesOn (db : Database) (t : Transaction) : Bool :=
  !t.isStale db.state && !t.isReadOnly &&
    match logCommit db.log ⟨t.id, t.toWrites⟩ with
    | .ok (some log) =>
        log.backlog.isDue log.policy && (log.checkpoint (db.state.apply t.toWrites) db.lastTxnId).isOk
    | _ => false

theorem checkpointReplaces {s : State} {id : UInt64} {fresh : Log} (ok : log.checkpoint s id = .ok fresh) :
    log.journal.replace (Snapshot.records s id) = .ok fresh.journal := by
  obtain ⟨journal, replaced, ok⟩ := boundOk ok
  cases ok
  exact replaced

theorem commitFiled (here : db.log = some log) :
    (db.commit t).2 = db ∧ db.replacesOn t = false ∨
    ∃ grown next, log.journal.append ⟨t.id, t.toWrites⟩ = .ok grown ∧
      (db.commit t).2 = { db with state := db.state.apply t.toWrites, log := some next } ∧
      (next.journal = grown ∧ db.replacesOn t = false ∨
        db.replacesOn t = true ∧
          grown.replace (Snapshot.records (db.state.apply t.toWrites) db.lastTxnId) = .ok next.journal) := by
  rcases commitCases db t with ⟨stale, h⟩ | ⟨_, only, h⟩ | ⟨_, _, cause, refused, h⟩ | ⟨fresh, full, taken, logged, h⟩
  · exact .inl ⟨by rw [h], by simp [replacesOn, stale]⟩
  · exact .inl ⟨by rw [h], by simp [replacesOn, only]⟩
  · exact .inl ⟨by rw [h], by simp [replacesOn, refused]⟩
  · refine .inr ?_
    have filed := logged
    rw [here, logCommit] at filed
    obtain ⟨grown, grew, filed⟩ := boundOk filed
    cases filed
    rw [h]
    simp only [checkpointIfDue, Option.map_some, replacesOn, fresh, full, logged]
    split
    · rename_i due
      split
      · rename_i done
        exact ⟨grown, _, grew, rfl, .inr ⟨by simp [due, done, Except.isOk, Except.toBool], checkpointReplaces done⟩⟩
      · rename_i failed
        exact ⟨grown, _, grew, rfl, .inl ⟨rfl, by simp [failed, Except.isOk, Except.toBool]⟩⟩
    · rename_i early
      exact ⟨grown, _, grew, rfl, .inl ⟨rfl, by simp [early]⟩⟩

theorem durableReplaced {j next : Journal} {s : State} {id : UInt64} (names : s.NamesFit) (low : id.toNat ≤ top)
    (ok : j.replace (Snapshot.records s id) = .ok next) :
    next.size = next.disk.content.size ∧ next.disk.Tells s top (Snapshot.records s id) := by
  have holds := Journal.replaceHolds ok (Snapshot.recordsNamesFit names)
  refine ⟨holds.size, holds.disk, Snapshot.chunkedRestore s id _, fun r mem => ?_⟩
  rw [Snapshot.chunkedStamped r mem]
  exact low

theorem tellsAppended {j grown : Journal} {s : State} {r : Record} {rs : List Record}
    (size : j.size = j.disk.content.size) (tells : j.disk.Tells s top rs) (ok : j.append r = .ok grown)
    (fits : r.NamesFit) (low : r.txnId.toNat ≤ top) :
    grown.size = grown.disk.content.size ∧ grown.disk.Tells (s.apply r.writes) top (rs ++ [r]) := by
  have holds := Journal.appendHolds ⟨tells.held, size⟩ ok fits
  refine ⟨holds.size, holds.disk, ?_, fun x mem => ?_⟩
  · rw [replaySnoc, State.valuesAfter, State.valuesAfter, tells.rows]
  · rcases List.mem_append.mp mem with mem | mem
    · exact tells.ids x mem
    · rw [List.mem_singleton.mp mem]
      exact low

theorem durableCommit (h : db.Durable top) (low : t.id.toNat ≤ top) (fits : ∀ w ∈ t.toWrites, w.NameFits) :
    (db.commit t).2.Durable top := by
  obtain ⟨log, rs, here, size, tells⟩ := h.log
  rcases commitFiled here with ⟨same, _⟩ | ⟨grown, next, grew, after, filed⟩
  · rw [same]; exact h
  · rw [after]
    refine ⟨?_, h.next⟩
    obtain ⟨grownSize, grownTells⟩ := tellsAppended size tells grew fits low
    rcases filed with ⟨rfl, _⟩ | ⟨_, replaced⟩
    · exact ⟨next, _, rfl, grownSize, grownTells⟩
    · obtain ⟨size, tells⟩ := durableReplaced (Disk.tellsNamesFit grownTells) (lastTxnIdLe h) replaced
      exact ⟨next, _, rfl, size, tells⟩

theorem checkpointFiled (here : db.log = some log) :
    db.checkpoint.2 = db ∧ db.checkpoint.1.isOk = false ∨
    ∃ next, db.checkpoint.2 = { db with log := some next } ∧ db.checkpoint.1.isOk = true ∧
      log.journal.replace (Snapshot.records db.state db.lastTxnId) = .ok next.journal := by
  unfold checkpoint
  rw [here]
  simp only
  split
  · rename_i done
    exact .inr ⟨_, rfl, rfl, checkpointReplaces done⟩
  · exact .inl ⟨rfl, rfl⟩

theorem durableCheckpoint (h : db.Durable top) : db.checkpoint.2.Durable top := by
  obtain ⟨log, rs, here, size, tells⟩ := h.log
  rcases checkpointFiled here with ⟨same, _⟩ | ⟨next, after, _, replaced⟩
  · rw [same]; exact h
  · rw [after]
    obtain ⟨size, tells⟩ := durableReplaced (Disk.tellsNamesFit tells) (lastTxnIdLe h) replaced
    exact ⟨⟨next, _, rfl, size, tells⟩, h.next⟩

theorem durableBlock (h : db.Durable top) (on : Bool) : (db.block on).Durable top := by
  obtain ⟨log, rs, here, size, tells⟩ := h.log
  simp only [block, disk?, here, Option.map_some, withDisk]
  exact ⟨⟨_, rs, rfl, size, Disk.tellsContent tells rfl⟩, h.next⟩

end Database

theorem Transaction.namesFitWrites {t : Transaction}
    (h : ∀ r left, t.writes.get? r = some left → r.table.utf8ByteSize ≤ 65535) : ∀ w ∈ t.toWrites, w.NameFits := by
  intro w mem
  obtain ⟨r, left, buffer, rfl⟩ := memToWrites.mp mem
  have here : (asWrite (r, left)).table = r.table := congrArg RowId.table (asWriteRow (r, left))
  rw [Write.NameFits, here]
  exact h r left buffer

namespace SharedDatabase
variable {d : SharedDatabase} {top : Nat}

def Event.begins : Event → Bool
  | .begin _ => true
  | _ => false

def Event.NamesFit : Event → Prop
  | .act _ (.put row _) | .act _ (.delete row) => row.table.utf8ByteSize ≤ 65535
  | _ => True

instance (e : Event) : Decidable e.NamesFit := by
  unfold Event.NamesFit
  split <;> infer_instance

structure Durable (d : SharedDatabase) (top : Nat) : Prop where
  db : d.db.Durable top
  ids : ∀ who v, d.underway who = some v → v.txn.id.toNat ≤ top
  names : ∀ who v, d.underway who = some v →
    ∀ r left, v.txn.writes.get? r = some left → r.table.utf8ByteSize ≤ 65535

theorem durableStart {db : Database} (h : db.Durable top) : (start db).Durable top :=
  ⟨h, nofun, nofun⟩

theorem performId (t : Transaction) (s : State) (op : Op) : (t.perform s op).2.id = t.id := by
  cases op with
  | get row => simp only [Transaction.perform, Transaction.get]; split <;> rfl
  | scan table => rfl
  | put row value => rfl
  | delete row => rfl

theorem bufferedFits {own : Transaction.Buffer} {who : Nat} {op : Op}
    (h : ∀ r left, own.get? r = some left → r.table.utf8ByteSize ≤ 65535) (fits : (Event.act who op).NamesFit) :
    ∀ r left, (Transaction.buffered own op).get? r = some left → r.table.utf8ByteSize ≤ 65535 := by
  have inserted (row : RowId) (value : Option Bytes) (short : row.table.utf8ByteSize ≤ 65535) :
      ∀ r left, (own.insert row value).get? r = some left → r.table.utf8ByteSize ≤ 65535 := by
    intro r left found
    rw [SortedMap.getInsert] at found
    split at found
    · rename_i same; rw [same]; exact short
    · exact h r left found
  cases op with
  | get row => exact h
  | scan table => exact h
  | put row value => exact inserted row _ fits
  | delete row => exact inserted row _ fits

theorem durableStep (h : d.Durable top) {e : Event} (fits : e.NamesFit) :
    (d.step e).Durable (top + if e.begins then 1 else 0) := by
  cases e with
  | begin who =>
    obtain ⟨log, rs, here, size, tells⟩ := h.db.log
    have next := h.db.next
    have begun : d.db.begin.2.Durable (top + 1) := by
      refine ⟨⟨log, rs, here, size, Disk.tellsMono tells (Nat.le_succ top)⟩, ?_⟩
      show (d.db.nextTxnId + 1).toNat ≤ _
      rw [UInt64.toNat_add]
      simp only [UInt64.reduceToNat]
      omega
    refine ⟨begun, setAtAll (fun who v here => Nat.le_succ_of_le (h.ids who v here)) ?_, setAtAll h.names ?_⟩
    · intro v own
      cases own
      exact next
    · intro v own r left found
      cases own
      cases found
  | act who op =>
    simp only [step]
    split
    · rename_i v ongoing
      refine ⟨h.db, setAtAll h.ids ?_, setAtAll h.names ?_⟩
      · intro _ own
        cases own
        show (v.txn.perform d.db.state op).2.id.toNat ≤ top
        rw [performId]
        exact h.ids who v ongoing
      · intro _ own
        cases own
        show ∀ r left, (v.txn.perform d.db.state op).2.writes.get? r = some left → _
        rw [Transaction.performWrites]
        exact bufferedFits (h.names who v ongoing) fits
    · exact h
  | commit who =>
    simp only [step]
    split
    · rename_i v ongoing
      exact ⟨Database.durableCommit h.db (h.ids who v ongoing) (Transaction.namesFitWrites (h.names who v ongoing)),
        setAtNone h.ids, setAtNone h.names⟩
    · exact h
  | leave who => exact ⟨h.db, setAtNone h.ids, setAtNone h.names⟩
  | checkpoint => exact ⟨Database.durableCheckpoint h.db, h.ids, h.names⟩
  | block on => exact ⟨Database.durableBlock h.db on, h.ids, h.names⟩

end SharedDatabase

/-- What is left of a closed database in memory is kept only to compare it with what is recovered. -/
inductive DatabaseLifecycle where
  | closed (disk : Disk) (left : State)
  | opened (shared : SharedDatabase)

namespace DatabaseLifecycle

inductive Event where
  | reopen (policy : CheckpointPolicy)
  | close
  | use (event : SharedDatabase.Event)

def Event.begins : Event → Bool
  | .use e => e.begins
  | _ => false

def Event.NamesFit : Event → Prop
  | .use e => e.NamesFit
  | _ => True

instance (e : Event) : Decidable e.NamesFit := by
  unfold Event.NamesFit
  split <;> infer_instance

def start : DatabaseLifecycle := .closed {} {}

def rows : DatabaseLifecycle → State
  | closed _ left => left
  | opened shared => shared.db.state

def disk : DatabaseLifecycle → Disk
  | closed disk _ => disk
  | opened shared => shared.db.disk?.getD {}

def step (v : DatabaseLifecycle) : Event → DatabaseLifecycle
  | .reopen policy => match Database.openAt v.disk policy with
    | (.ok db, _) => .opened (.start db)
    | (.error _, disk) => .closed disk v.rows
  | .close => .closed v.disk v.rows
  | .use e => match v with
    | opened shared => .opened (shared.step e)
    | closed .. => v

def run (v : DatabaseLifecycle) (events : List Event) : DatabaseLifecycle := events.foldl step v

def begun (events : List Event) : Nat := events.countP Event.begins

def Sound (top : Nat) : DatabaseLifecycle → Prop
  | closed disk left => ∃ rs, disk.Tells left top rs
  | opened shared => shared.Durable top

theorem soundTells {v : DatabaseLifecycle} {top : Nat} (h : v.Sound top) : ∃ rs, v.disk.Tells v.rows top rs := by
  cases v with
  | closed disk left => exact h
  | opened shared =>
    obtain ⟨log, rs, here, _, tells⟩ := h.db.log
    refine ⟨rs, ?_⟩
    simp only [disk, rows, Database.disk?, here, Option.map_some, Option.getD_some]
    exact tells

theorem soundStep {v : DatabaseLifecycle} {top : Nat} (h : v.Sound top) {e : Event} (fits : e.NamesFit) :
    (v.step e).Sound (top + if e.begins then 1 else 0) := by
  cases e with
  | reopen policy =>
    obtain ⟨rs, tells⟩ := soundTells h
    obtain ⟨file, outcome⟩ := Database.openedTells (Journal.openHeld tells.held) tells policy
    rcases result : Database.openAt v.disk policy with ⟨found, disk⟩
    rw [result] at file outcome
    simp only [step, result]
    rcases outcome with ⟨db, rfl, _, durable, _⟩ | ⟨rfl, _⟩
    · exact SharedDatabase.durableStart durable
    · cases file
      exact ⟨rs, Disk.tellsContent tells rfl⟩
  | close => exact soundTells h
  | use e =>
    cases v with
    | closed disk left =>
      obtain ⟨rs, tells⟩ := h
      exact ⟨rs, Disk.tellsMono tells (Nat.le_add_right _ _)⟩
    | opened shared => exact SharedDatabase.durableStep h fits

theorem soundRun {v : DatabaseLifecycle} {top : Nat} (h : v.Sound top) {events : List Event}
    (fits : ∀ e ∈ events, e.NamesFit) :
    (v.run events).Sound (top + begun events) := by
  induction events generalizing v top with
  | nil => exact h
  | cons e events ih =>
    have later := ih (soundStep h (fits e List.mem_cons_self)) fun x mem => fits x (List.mem_cons_of_mem _ mem)
    have count : begun (e :: events) = (if e.begins then 1 else 0) + begun events := by
      rw [begun, List.countP_cons, Nat.add_comm]
      rfl
    rw [count, ← Nat.add_assoc]
    exact later

theorem soundStart : start.Sound 0 := ⟨[], ⟨rfl, by simp⟩, rfl, by simp⟩

theorem reopensSound {v : DatabaseLifecycle} {top : Nat} (h : v.Sound top) (policy : CheckpointPolicy) :
    (Journal.openAt v.disk).2.truncated = 0 ∧ v.disk.Reopens v.rows top policy := by
  obtain ⟨rs, tells⟩ := soundTells h
  have opened := Journal.openHeld tells.held
  exact ⟨by rw [opened], Database.reopens opened tells policy⟩

theorem reopensAfterRun {events : List Event} (fits : ∀ e ∈ events, e.NamesFit) (policy : CheckpointPolicy) :
    let v := start.run events
    (Journal.openAt v.disk).2.truncated = 0 ∧ v.disk.Reopens v.rows (begun events) policy := by
  have sound := soundRun soundStart fits
  rw [Nat.zero_add] at sound
  exact reopensSound sound policy

def hinderedUse (row : RowId) : List Event :=
  [.reopen ⟨2, 0⟩, .use (.begin 0), .use (.act 0 (.put row (Bytes.ofText "u"))), .use (.commit 0),
    .use (.block true), .use (.begin 0), .use (.act 0 (.put row (Bytes.ofText "v"))), .use (.commit 0),
    .use (.block false), .use (.begin 0), .use (.act 0 (.put row (Bytes.ofText "w"))), .use (.commit 0),
    .close]

theorem reopensAfterHinderedUse :
    let v := start.run (hinderedUse ⟨"t", Bytes.ofText "k"⟩)
    (∀ e ∈ hinderedUse ⟨"t", Bytes.ofText "k"⟩, e.NamesFit) ∧ (Journal.openAt v.disk).2.truncated = 0 ∧
      ∃ db, (Database.openAt v.disk .never).1 = .ok db ∧
        (db.state.table "t").entries = [(Bytes.ofText "k", Bytes.ofText "w")] := by
  intro v
  have fits : ∀ e ∈ hinderedUse ⟨"t", Bytes.ofText "k"⟩, e.NamesFit := by decide
  have left : (v.rows.table "t").entries = [(Bytes.ofText "k", Bytes.ofText "w")] := by decide +kernel
  obtain ⟨whole, reopens⟩ := reopensAfterRun fits .never
  refine ⟨fits, whole, ?_⟩
  rcases reopens with ⟨db, ok, same⟩ | ⟨_, spent⟩
  · exact ⟨db, ok, by rw [same, left]⟩
  · exact absurd spent (by decide)

end DatabaseLifecycle
end Teller
