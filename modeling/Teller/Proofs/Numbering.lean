import Teller.Proofs.Fitting
import Teller.Proofs.Shortened

/-! The ids of transactions. A database gives them out in ascending order. Each commit that writes something leaves its
id on the journal, and a snapshot in place of the journal leaves one that is no lower, so that whoever opens the journal
goes on above all commits there have been. -/
namespace Teller
open Journal (Record)

theorem Disk.holdsUnique {d : Disk} {rs rs' : List Record} (h : d.Holds rs) (h' : d.Holds rs') : rs' = rs := by
  have opened := Journal.openHeld h
  rw [Journal.openHeld h'] at opened
  exact congrArg (·.2.records) opened

namespace Database
variable {db : Database} {t : Transaction} {log : Log}

def writes (db : Database) (t : Transaction) : Bool := (db.commit t).1.isOk && !t.isReadOnly

theorem commitIdle (idle : db.writes t = false) : (db.commit t).2 = db := by
  rcases commitCases db t with ⟨_, h⟩ | ⟨_, _, h⟩ | ⟨_, _, _, _, h⟩ | ⟨_, full, _, _, h⟩
  · rw [h]
  · rw [h]
  · rw [h]
  · rw [writes, h, full] at idle
    cases idle

theorem commitWriting (writes : db.writes t = true) :
    t.isStale db.state = false ∧ t.isReadOnly = false ∧
      ∃ log, logCommit db.log ⟨t.id, t.toWrites⟩ = .ok log ∧
        db.commit t = (.ok (), { db with
          state := db.state.apply t.toWrites
          log := checkpointIfDue log (db.state.apply t.toWrites) db.lastTxnId }) := by
  rcases commitCases db t with ⟨_, h⟩ | ⟨_, only, _⟩ | ⟨_, _, _, _, h⟩ | written
  · simp [Database.writes, h, Except.isOk, Except.toBool] at writes
  · simp [Database.writes, only] at writes
  · simp [Database.writes, h, Except.isOk, Except.toBool] at writes
  · exact written

theorem commitWritten (here : db.log = some log) (writes : db.writes t = true) :
    ∃ grown next, log.journal.append ⟨t.id, t.toWrites⟩ = .ok grown ∧
      (db.commit t).2 = { db with state := db.state.apply t.toWrites, log := some next } ∧
      (next.journal = grown ∧ db.replacesOn t = false ∨
        db.replacesOn t = true ∧
          grown.replace (Snapshot.records (db.state.apply t.toWrites) db.lastTxnId) = .ok next.journal) := by
  rcases commitFiled here with ⟨same, _⟩ | filed
  · obtain ⟨_, _, _, _, h⟩ := commitWriting writes
    rw [h] at same
    have version := congrArg (·.state.version) same
    simp [State.versionAfter] at version
  · exact filed

theorem belowLast {id : UInt64} (low : id < db.nextTxnId) : id ≤ db.lastTxnId := by
  have below := UInt64.lt_iff_toNat_lt.mp low
  have begun : db.nextTxnId ≠ 0 := by
    intro zero
    rw [zero] at below
    exact Nat.not_lt_zero _ below
  have one : (1 : UInt64) ≤ db.nextTxnId := UInt64.le_iff_toNat_le.mpr (Nat.one_le_of_lt below)
  rw [lastTxnId, if_neg begun, UInt64.le_iff_toNat_le, UInt64.toNat_sub_of_le _ _ one]
  exact Nat.le_sub_one_of_lt below

end Database

namespace Disk
variable {d : Disk} {rs : List Record} {written : List UInt64}

def Outranks (d : Disk) (written : List UInt64) : Prop :=
  ∃ rs, d.Holds rs ∧ ∀ id ∈ written, ∃ r ∈ rs, id ≤ r.txnId

theorem outranked (h : d.Outranks written) (held : d.Holds rs) : ∀ id ∈ written, ∃ r ∈ rs, id ≤ r.txnId := by
  obtain ⟨rs', held', ranks⟩ := h
  cases holdsUnique held held'
  exact ranks

theorem outranksContent {d' : Disk} (h : d.Outranks written) (same : d'.content = d.content) :
    d'.Outranks written := by
  obtain ⟨rs, held, ranks⟩ := h
  exact ⟨rs, ⟨same ▸ held.written, held.fits⟩, ranks⟩

theorem outranksAppended {d' : Disk} {r : Record} (h : d.Outranks written) (held : d.Holds rs)
    (grown : d'.Holds (rs ++ [r])) : d'.Outranks (written ++ [r.txnId]) := by
  refine ⟨rs ++ [r], grown, fun id mem => ?_⟩
  rcases List.mem_append.mp mem with earlier | own
  · obtain ⟨x, there, le⟩ := outranked h held id earlier
    exact ⟨x, List.mem_append_left _ there, le⟩
  · rw [List.mem_singleton.mp own]
    exact ⟨r, List.mem_append_right _ (List.mem_singleton_self r), UInt64.le_refl _⟩

/-- A snapshot of no rows still has a record, so that its id is never lost. -/
theorem outranksSnapshot {s : State} {last : UInt64} (held : d.Holds (Snapshot.records s last))
    (low : ∀ id ∈ written, id ≤ last) : d.Outranks written := by
  obtain ⟨first, mem⟩ := List.exists_mem_of_ne_nil _ (Snapshot.chunkedNotEmpty s last Journal.maxWritesSize)
  refine ⟨_, held, fun id own => ⟨first, mem, ?_⟩⟩
  rw [Snapshot.chunkedStamped first mem]
  exact low id own

end Disk

namespace Database
variable {db : Database} {t : Transaction} {written : List UInt64} {top : Nat}

def Outranks (db : Database) (written : List UInt64) : Prop := (db.disk?.getD {}).Outranks written

theorem outranksOf {log : Log} (here : db.log = some log) :
    db.Outranks written ↔ log.journal.disk.Outranks written := by
  simp only [Outranks, disk?, here, Option.map_some, Option.getD_some]

theorem outranksCommit (h : db.Outranks written) (durable : db.Durable top) (low : t.id.toNat ≤ top)
    (fits : ∀ w ∈ t.toWrites, w.NameFits) (below : ∀ id ∈ written ++ [t.id], id < db.nextTxnId) :
    (db.commit t).2.Outranks (if db.writes t then written ++ [t.id] else written) := by
  cases writes : db.writes t with
  | false =>
    rw [commitIdle writes]
    exact h
  | true =>
    obtain ⟨log, rs, here, size, tells⟩ := durable.log
    obtain ⟨grown, next, grew, after, filed⟩ := commitWritten here writes
    obtain ⟨_, grownTells⟩ := tellsAppended size tells grew fits low
    rw [if_pos rfl, after, outranksOf rfl]
    rcases filed with ⟨rfl, _⟩ | ⟨_, replaced⟩
    · exact Disk.outranksAppended ((outranksOf here).mp h) tells.held grownTells.held
    · obtain ⟨_, tells⟩ := durableReplaced (Disk.tellsNamesFit grownTells) (lastTxnIdLe durable) replaced
      exact Disk.outranksSnapshot tells.held fun id mem => belowLast (below id mem)

theorem outranksCheckpoint (h : db.Outranks written) (durable : db.Durable top)
    (below : ∀ id ∈ written, id < db.nextTxnId) : db.checkpoint.2.Outranks written := by
  obtain ⟨log, rs, here, size, tells⟩ := durable.log
  rcases checkpointFiled here with ⟨same, _⟩ | ⟨next, after, _, replaced⟩
  · rw [same]
    exact h
  · obtain ⟨_, tells⟩ := durableReplaced (Disk.tellsNamesFit tells) (lastTxnIdLe durable) replaced
    rw [after, outranksOf rfl]
    exact Disk.outranksSnapshot tells.held fun id mem => belowLast (below id mem)

theorem beginNext (room : db.nextTxnId.toNat + 1 < 2 ^ 64) : db.nextTxnId < db.begin.2.nextTxnId := by
  rw [UInt64.lt_iff_toNat_lt]
  show _ < (db.nextTxnId + 1).toNat
  rw [UInt64.toNat_add, UInt64.toNat_one, Nat.mod_eq_of_lt room]
  exact Nat.lt_succ_self _

theorem openedAbove {d : Disk} (h : d.Outranks written) (policy : CheckpointPolicy) :
    (openAt d policy).2.Outranks written ∧
      ∀ db, (openAt d policy).1 = .ok db → db.Outranks written ∧ ∀ id ∈ written, id < db.nextTxnId := by
  obtain ⟨rs, held, ranks⟩ := h
  obtain ⟨disk, cases⟩ := openCases (Journal.openHeld held) policy
  have same : (openAt d policy).2.Outranks written := by
    rw [disk]
    exact ⟨rs, ⟨held.written, held.fits⟩, ranks⟩
  refine ⟨same, fun db ok => ?_⟩
  rcases cases with ⟨_, fails⟩ | ⟨left, found, opens, _, log, next⟩
  · cases ok.symm.trans fails
  · cases ok.symm.trans opens
    refine ⟨(outranksOf log).mpr (disk ▸ same), fun id mem => ?_⟩
    obtain ⟨r, there, le⟩ := ranks id mem
    have high := highestLe.mp (Nat.le_refl _) r there
    rw [UInt64.lt_iff_toNat_lt, next]
    exact Nat.lt_succ_of_le (Nat.le_trans (UInt64.le_iff_toNat_le.mp le) high)

end Database

namespace DatabaseLifecycle

structure IssuedIds where
  given : List UInt64 := []
  written : List UInt64 := []

def IssuedIds.note (r : IssuedIds) (shared : SharedDatabase) : SharedDatabase.Event → IssuedIds
  | .begin _ => { r with given := r.given ++ [shared.db.begin.1.id] }
  | .commit who => match shared.underway who with
    | some current => if shared.db.writes current.txn then { r with written := r.written ++ [current.txn.id] } else r
    | none => r
  | _ => r

def noted (r : IssuedIds) : DatabaseLifecycle → Event → IssuedIds
  | opened shared, .use e => r.note shared e
  | closed .., .use _ => r
  | _, .reopen _ | _, .close => { r with given := [] }

def issuedIds : DatabaseLifecycle → IssuedIds → List Event → IssuedIds
  | _, r, [] => r
  | v, r, e :: events => (v.step e).issuedIds (v.noted r e) events

end DatabaseLifecycle

namespace SharedDatabase
variable {d : SharedDatabase} {r : DatabaseLifecycle.IssuedIds} {top : Nat}

structure Numbered (d : SharedDatabase) (r : DatabaseLifecycle.IssuedIds) : Prop where
  journal : d.db.Outranks r.written
  used : ∀ id ∈ r.given ++ r.written, id < d.db.nextTxnId
  underway : ∀ who v, d.underway who = some v → v.txn.id < d.db.nextTxnId

theorem numberedBegin (h : d.Numbered r) (room : d.db.nextTxnId.toNat + 1 < 2 ^ 64) (who : Nat) :
    (d.step (.begin who)).Numbered (r.note d (.begin who)) := by
  have higher := Database.beginNext room
  refine ⟨h.journal, fun id mem => ?_, setAtAll (fun other v here => ?_) ?_⟩
  · simp only [DatabaseLifecycle.IssuedIds.note, List.mem_append, List.mem_singleton] at mem
    rcases mem with (given | rfl) | written
    · exact UInt64.lt_trans (h.used id (List.mem_append_left _ given)) higher
    · exact higher
    · exact UInt64.lt_trans (h.used id (List.mem_append_right _ written)) higher
  · exact UInt64.lt_trans (h.underway other v here) higher
  · intro v own
    cases own
    exact higher

theorem numberedCommit (h : d.Numbered r) (durable : d.Durable top) (who : Nat) :
    (d.step (.commit who)).Numbered (r.note d (.commit who)) := by
  rcases here : d.underway who with _ | current
  · simp only [step, DatabaseLifecycle.IssuedIds.note, here]
    exact h
  · have below : ∀ id ∈ r.written ++ [current.txn.id], id < d.db.nextTxnId := by
      intro id mem
      rcases List.mem_append.mp mem with earlier | own
      · exact h.used id (List.mem_append_right _ earlier)
      · rw [List.mem_singleton.mp own]
        exact h.underway who current here
    have journal := Database.outranksCommit h.journal durable.db (durable.ids who current here)
      (Transaction.namesFitWrites (durable.names who current here)) below
    have same := Database.commitNext d.db current.txn
    have underway : ∀ other v, setAt d.underway who none other = some v →
        v.txn.id < (d.db.commit current.txn).2.nextTxnId := by
      rw [same]
      exact setAtNone h.underway
    simp only [step, DatabaseLifecycle.IssuedIds.note, here]
    cases writes : d.db.writes current.txn with
    | false =>
      rw [writes] at journal
      exact ⟨journal, by rw [same]; exact h.used, underway⟩
    | true =>
      rw [writes] at journal
      refine ⟨journal, fun id mem => ?_, underway⟩
      rw [same]
      rcases List.mem_append.mp mem with given | written
      · exact h.used id (List.mem_append_left _ given)
      · exact below id written

theorem numberedStep (h : d.Numbered r) (durable : d.Durable top) {e : Event}
    (few : top + (if e.begins then 1 else 0) < 2 ^ 64 - 1) : (d.step e).Numbered (r.note d e) := by
  cases e with
  | begin who =>
    have next := durable.db.next
    simp only [Event.begins, if_true] at few
    exact numberedBegin h (by omega) who
  | act who op =>
    simp only [step, DatabaseLifecycle.IssuedIds.note]
    split
    · rename_i v current
      refine ⟨h.journal, h.used, setAtAll h.underway ?_⟩
      intro _ own
      cases own
      show (v.txn.perform d.db.state op).2.id < _
      rw [performId]
      exact h.underway who v current
    · exact h
  | commit who => exact numberedCommit h durable who
  | leave who => exact ⟨h.journal, h.used, setAtNone h.underway⟩
  | checkpoint =>
    have same := Database.checkpointNext d.db
    have written := fun id mem => h.used id (List.mem_append_right _ mem)
    exact ⟨Database.outranksCheckpoint h.journal durable.db written, by rw [step, same]; exact h.used,
      by rw [step, same]; exact h.underway⟩
  | block on =>
    have content := Database.blockContent d.db on
    have same := Database.blockNext d.db on
    exact ⟨Disk.outranksContent h.journal content, by rw [step, same]; exact h.used,
      by rw [step, same]; exact h.underway⟩

end SharedDatabase

namespace DatabaseLifecycle
variable {v : DatabaseLifecycle} {r : IssuedIds} {top : Nat}

def Numbered (r : IssuedIds) : DatabaseLifecycle → Prop
  | closed disk _ => disk.Outranks r.written
  | opened shared => shared.Numbered r

theorem numberedDisk (h : v.Numbered r) : v.disk.Outranks r.written := by
  cases v with
  | closed disk left => exact h
  | opened shared => exact h.journal

theorem numberedStep (h : v.Numbered r) (sound : v.Sound top) {e : Event}
    (few : top + (if e.begins then 1 else 0) < 2 ^ 64 - 1) : (v.step e).Numbered (v.noted r e) := by
  cases e with
  | reopen policy =>
    obtain ⟨left, opens⟩ := Database.openedAbove (numberedDisk h) policy
    rcases result : Database.openAt v.disk policy with ⟨found, disk⟩
    rw [result] at left opens
    simp only [step, result]
    cases found with
    | ok db =>
      obtain ⟨journal, above⟩ := opens db rfl
      cases v <;> exact ⟨journal, above, fun _ _ found => by cases found⟩
    | error cause => cases v <;> exact left
  | close => cases v with
    | closed disk left => exact h
    | opened shared => exact h.journal
  | use e =>
    cases v with
    | closed disk left => exact h
    | opened shared => exact SharedDatabase.numberedStep h sound few

theorem numberedRun {events : List Event} (h : v.Numbered r) (sound : v.Sound top)
    (fits : ∀ e ∈ events, e.NamesFit) (few : top + begun events < 2 ^ 64 - 1) :
    (v.run events).Numbered (v.issuedIds r events) := by
  induction events generalizing v r top with
  | nil => exact h
  | cons e events ih =>
    have count : begun (e :: events) = begun events + if e.begins then 1 else 0 := List.countP_cons
    rw [count] at few
    have first := numberedStep h sound (e := e) (by omega)
    exact ih first (soundStep sound (fits e List.mem_cons_self)) (fun x mem => fits x (List.mem_cons_of_mem _ mem))
      (by omega)

theorem numberedStart : start.Numbered {} := ⟨[], ⟨rfl, List.forall_mem_nil _⟩, List.forall_mem_nil _⟩

/-- Whoever begins gets an id above all those that the same database has given out, and above those of all the
transactions that have committed something they wrote since the journal was there, under whatever handle; and the
journal can always be opened again. -/
theorem idsAscend {events : List Event} (fits : ∀ e ∈ events, e.NamesFit) (few : begun events < 2 ^ 64 - 1) :
    let v := start.run events
    let r := start.issuedIds {} events
    (∀ shared, v = .opened shared → ∀ id ∈ r.given ++ r.written, id < shared.db.begin.1.id) ∧
    ∀ policy, ∃ db, (Database.openAt v.disk policy).1 = .ok db ∧ ∀ id ∈ r.written, id < db.begin.1.id := by
  intro v r
  have sound : v.Sound (begun events) := by
    have run := soundRun soundStart fits
    rwa [Nat.zero_add] at run
  have numbered : v.Numbered r := numberedRun numberedStart soundStart fits (by rwa [Nat.zero_add])
  refine ⟨fun shared here => ?_, fun policy => ?_⟩
  · rw [here] at numbered
    exact numbered.used
  · have above := (Database.openedAbove (numberedDisk numbered) policy).2
    rcases (reopensSound sound policy).2 with ⟨db, ok, _⟩ | ⟨_, spent⟩
    · exact ⟨db, ok, (above db ok).2⟩
    · omega

theorem idsAscendPastSnapshot :
    let row : RowId := ⟨"t", Bytes.ofText "k"⟩
    let events : List Event := [.reopen .never, .use (.begin 0), .use (.begin 1),
      .use (.act 1 (.put row (Bytes.ofText "u"))), .use (.commit 1), .use (.act 0 (.delete row)), .use (.commit 0),
      .use .checkpoint, .close]
    (∀ e ∈ events, e.NamesFit) ∧ begun events < 2 ^ 64 - 1 ∧ (start.issuedIds {} events).written = [2, 1] ∧
      (Journal.openAt (start.run events).disk).2.records = [⟨2, []⟩] ∧
      ∃ db, (Database.openAt (start.run events).disk .never).1 = .ok db ∧ 2 < db.begin.1.id := by
  intro row events
  have fits : ∀ e ∈ events, e.NamesFit := by decide
  have few : begun events < 2 ^ 64 - 1 := by decide
  have written : (start.issuedIds {} events).written = [2, 1] := by decide +kernel
  have records : (Journal.openAt (start.run events).disk).2.records = [⟨2, []⟩] := by decide +kernel
  obtain ⟨db, ok, above⟩ := (idsAscend fits few).2 .never
  exact ⟨fits, few, written, records, db, ok, above 2 (by rw [written]; exact List.mem_cons_self)⟩

end DatabaseLifecycle

end Teller
