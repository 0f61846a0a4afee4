import Mathlib.Algebra.GroupWithZero.Nat
import Mathlib.Data.List.Induction
import Teller.Proofs.Journal.Ledger
import Teller.Proofs.DatabaseLifecycle

/-! A snapshot keeps every row and cuts them into records no larger than asked for, where that can be done. A row
of a database on a journal was once written by a record that fitted, so that its own record fits as well, and no
checkpoint fails because of the size of what it writes. Here the names of the tables may be as long as they like:
of a name too long for its length, something else may be read, but not a record of another size. -/
namespace Teller
open Journal (Write Record)

namespace Journal.Record

theorem writesSizeSum (ws : List Write) : writesSize ws = (ws.map (·.encode.size)).sum := by
  induction ws with
  | nil => rfl
  | cons w ws ih => rw [writesSize, ih, List.map_cons, List.sum_cons]

theorem fitsWithin {r : Record} (within : writesSize r.writes ≤ maxWritesSize) : r.Fits := by
  have room : headerSize + checksumSize ≤ maxRecordSize := by decide
  rw [maxWritesSize] at within
  rw [Fits, size]
  omega

theorem writesWithin {r : Record} (fits : r.Fits) : writesSize r.writes ≤ maxWritesSize := by
  rw [Fits, size] at fits
  rw [maxWritesSize]
  omega

end Journal.Record

namespace Snapshot

def Within (limit : Nat) (ws : List Write) : Prop := Record.writesSize ws ≤ limit ∨ ws.length = 1

theorem withinReverse {limit : Nat} {ws : List Write} (h : Within limit ws) : Within limit ws.reverse := by
  rw [Within, Record.writesSizeSum, List.map_reverse, List.sum_reverse, ← Record.writesSizeSum, List.length_reverse]
  exact h

theorem chunksWithin {limit : Nat} {group ws : List Write} (within : Within limit group) :
    ∀ g ∈ chunks limit group (Record.writesSize group) ws, Within limit g := by
  induction ws generalizing group with
  | nil =>
    intro g mem
    rw [chunks] at mem
    split at mem
    · cases mem
    · cases List.mem_singleton.mp mem
      exact withinReverse within
  | cons w ws ih =>
    intro g mem
    rw [chunks] at mem
    have alone : Record.writesSize [w] = w.encodedSize := Write.sizeEncoded w
    have more : Record.writesSize group + w.encodedSize = Record.writesSize (w :: group) := by
      rw [Record.writesSize, Write.sizeEncoded, Nat.add_comm]
    split at mem
    · rcases List.mem_cons.mp mem with rfl | mem
      · exact withinReverse within
      · rw [← alone] at mem
        exact ih (.inr rfl) g mem
    · rename_i joins
      rw [more] at joins mem
      refine ih ?_ g mem
      -- A write joins the group if there is room for it, or if it is the first.
      cases group with
      | nil => exact .inr rfl
      | cons first others =>
        simp only [List.isEmpty_cons, Bool.not_false, Bool.true_and, decide_eq_true_eq, Nat.not_lt] at joins
        exact .inl joins

theorem chunkedWithin {s : State} {id : UInt64} {limit : Nat} : ∀ r ∈ chunked s id limit, Within limit r.writes := by
  intro r mem
  have groups := @chunksWithin limit [] (puts s) (.inl (Nat.zero_le limit))
  rw [chunked] at mem
  split at mem
  · cases List.mem_singleton.mp mem
    exact .inl (Nat.zero_le limit)
  · obtain ⟨group, inside, rfl⟩ := List.mem_map.mp mem
    exact groups group inside

theorem chunkedNotEmpty (s : State) (id : UInt64) (limit : Nat) : chunked s id limit ≠ [] := by
  rw [chunked]
  split
  · exact List.cons_ne_nil _ _
  · rename_i cut
    exact fun empty => cut (List.map_eq_nil_iff.mp empty)

end Snapshot

namespace State
variable {s : State} {ws : List Write}

def RowsFit (s : State) : Prop :=
  ∀ r value, s.value? r = some value → (Write.put r.table r.key value).encode.size ≤ Journal.maxWritesSize

theorem rowsFitEmpty : ({} : State).RowsFit := nofun

theorem rowsFitApply (h : s.RowsFit) (fits : Record.writesSize ws ≤ Journal.maxWritesSize) :
    (s.apply ws).RowsFit := by
  intro r value present
  rcases rowAfter s ws r with ⟨_, same⟩ | ⟨w, mem, here, found⟩
  · rw [value?, same] at present
    exact h r value present
  · rw [value?, found] at present
    have own := Nat.le_trans (Record.writeSizeLe mem) fits
    cases w with
    | put table key written =>
      cases here
      cases present
      exact own
    | delete table key => cases present

theorem rowsFitReplay {rs : List Record} (fits : ∀ r ∈ rs, r.Fits) : (Database.replay rs).RowsFit := by
  induction rs using List.reverseRecOn with
  | nil => exact rowsFitEmpty
  | append_singleton rs r ih =>
    rw [Database.replaySnoc]
    have before := ih fun x mem => fits x (List.mem_append_left _ mem)
    exact rowsFitApply before (Record.writesWithin (fits r (by simp)))

theorem recordsFit (h : s.RowsFit) (id : UInt64) : ∀ r ∈ Snapshot.records s id, r.Fits := by
  intro r mem
  rcases Snapshot.chunkedWithin r mem with small | single
  · exact Record.fitsWithin small
  · obtain ⟨w, only⟩ := List.length_eq_one_iff.mp single
    have written : w ∈ Snapshot.puts s := by
      rw [← Snapshot.chunkedWrites s id Journal.maxWritesSize]
      exact List.mem_flatMap.mpr ⟨r, mem, by simp [only]⟩
    obtain ⟨row, held, present, rfl⟩ := Snapshot.memPuts.mp written
    have own := h row held.value (by simp [value?, present])
    refine Record.fitsWithin ?_
    rw [only]
    exact own

end State

namespace Disk

/-- The file is the concatenation of records that were encoded, whether they can be read back or not. -/
def Framed (d : Disk) : Prop := ∃ rs, Journal.encodeAll rs = .ok d.content

end Disk

namespace Journal
variable {r : Record} {rs : List Record}

theorem decodedWhole {b bytes : Bytes} {pos size : Nat} {x : Record} (ok : r.encode = .ok bytes)
    (stands : b.Stands pos bytes) (read : Record.decodeAt b pos = .ok (x, size)) : size = bytes.size ∧ x.Fits := by
  obtain ⟨parts, _, room, _⟩ := Record.encodeParts ok
  obtain ⟨_, _, length, _⟩ := Record.decodedParts read
  have limit : maxRecordSize < 256 ^ 4 := by decide
  rw [parts, Record.covered, ByteArray.append_assoc] at stands
  have front := Bytes.standsExtract (Bytes.standsSplit stands).1
  rw [Bytes.littleEndianSize] at front
  have whole : 4 + r.body.size + checksumSize = bytes.size := by
    rw [Record.bodySize, (Record.encodeParts ok).2.1]
    omega
  rw [front, whole, Bytes.toNatLittleEndian (by omega)] at length
  refine ⟨length, ?_⟩
  rw [Record.Fits, ← Record.decodedSize read, length]
  exact room

theorem scanFramed {all front : Bytes} {steps : Nat} (written : encodeAll rs = .ok all) :
    (∀ r ∈ (scan (front ++ all) steps front.size).1, r.Fits) ∧
      ∃ kept part rest, encodeAll kept = .ok part ∧ all = part ++ rest ∧
        (scan (front ++ all) steps front.size).2 = (front ++ part).size := by
  induction rs generalizing all front steps with
  | nil =>
    cases written
    have nothing : scan (front ++ .empty) steps front.size = ([], front.size) := by
      cases steps with
      | zero => rfl
      | succ steps => rw [scan, if_neg (by simp)]
    rw [nothing]
    exact ⟨List.forall_mem_nil _, [], .empty, .empty, rfl, rfl, by simp⟩
  | cons r rs ih =>
    have stop : ∃ kept part rest, encodeAll kept = .ok part ∧ all = part ++ rest ∧
        front.size = (front ++ part).size := ⟨[], .empty, all, rfl, by simp, by simp⟩
    cases steps with
    | zero => exact ⟨List.forall_mem_nil _, stop⟩
    | succ steps =>
      obtain ⟨first, later, head, tail, rfl⟩ := encodeAllCons written
      rw [scan]
      split
      · split
        · rename_i x size read
          obtain ⟨rfl, fits⟩ := decodedWhole head ⟨front, later, by rw [ByteArray.append_assoc], rfl⟩ read
          obtain ⟨others, kept, part, rest, coded, parted, ended⟩ := @ih _ (front ++ first) steps tail
          rw [ByteArray.append_assoc, ByteArray.size_append] at others ended
          refine ⟨fun y mem => ?_, r :: kept, first ++ part, rest, ?_, ?_, ?_⟩
          · rcases List.mem_cons.mp mem with rfl | mem
            · exact fits
            · exact others y mem
          · exact encodeAllJoins head coded
          · rw [parted, ByteArray.append_assoc]
          · rw [ended, ByteArray.append_assoc]
        · exact ⟨List.forall_mem_nil _, stop⟩
      · exact ⟨List.forall_mem_nil _, stop⟩

structure Framed (j : Journal) : Prop where
  disk : j.disk.Framed
  size : j.size = j.disk.content.size

theorem framedOpened {d : Disk} (h : d.Framed) : (openAt d).1.Framed ∧ ∀ r ∈ (openAt d).2.records, r.Fits := by
  obtain ⟨rs, written⟩ := h
  obtain ⟨fits, kept, part, rest, coded, parted, ended⟩ :=
    @scanFramed _ d.content .empty (d.content.size / (headerSize + checksumSize) + 1) written
  simp only [ByteArray.empty_append, ByteArray.size_empty] at fits ended
  have left : d.content.extract 0 part.size = part := by
    rw [parted]
    exact ByteArray.extract_append_eq_left rfl
  unfold openAt
  simp only [ended, left]
  exact ⟨⟨⟨kept, coded⟩, rfl⟩, fits⟩

theorem framedAppended {j after : Journal} (h : j.Framed) (ok : j.append r = .ok after) : after.Framed ∧ r.Fits := by
  obtain ⟨rs, written⟩ := h.disk
  obtain ⟨bytes, coded, content, size, _⟩ := appended h.size ok
  refine ⟨⟨⟨rs ++ [r], ?_⟩, size⟩, Record.fitsOfEncoded coded⟩
  rw [content]
  exact encodeAllSnoc written coded

theorem framedReplaced {j after : Journal} (ok : j.replace rs = .ok after) : after.Framed := by
  obtain ⟨coded, size, _⟩ := replaced ok
  exact ⟨⟨rs, coded⟩, size⟩

end Journal

namespace Database
variable {db : Database} {t : Transaction}

structure Fitting (db : Database) : Prop where
  rows : db.state.RowsFit
  log : ∃ log, db.log = some log ∧ log.journal.Framed

theorem fittingCommit (h : db.Fitting) : (db.commit t).2.Fitting := by
  obtain ⟨log, here, framed⟩ := h.log
  rcases commitFiled here with ⟨same, _⟩ | ⟨grown, next, grew, after, filed⟩
  · rw [same]; exact h
  · rw [after]
    obtain ⟨grownFramed, fits⟩ := Journal.framedAppended framed grew
    refine ⟨State.rowsFitApply h.rows (Record.writesWithin fits), next, rfl, ?_⟩
    rcases filed with ⟨rfl, _⟩ | ⟨_, replaced⟩
    · exact grownFramed
    · exact Journal.framedReplaced replaced

theorem fittingCheckpoint (h : db.Fitting) : db.checkpoint.2.Fitting := by
  obtain ⟨log, here, framed⟩ := h.log
  rcases checkpointFiled here with ⟨same, _⟩ | ⟨next, after, _, replaced⟩
  · rw [same]; exact h
  · rw [after]
    exact ⟨h.rows, next, rfl, Journal.framedReplaced replaced⟩

theorem fittingBlock (h : db.Fitting) (on : Bool) : (db.block on).Fitting := by
  obtain ⟨log, here, framed⟩ := h.log
  simp only [block, disk?, here, Option.map_some, withDisk]
  exact ⟨h.rows, _, rfl, framed.disk, framed.size⟩

theorem fittingOpened {d : Disk} (h : d.Framed) (policy : CheckpointPolicy) :
    (openAt d policy).2.Framed ∧ ∀ db, (openAt d policy).1 = .ok db → db.Fitting := by
  obtain ⟨framed, fits⟩ := Journal.framedOpened h
  refine ⟨framed.disk, fun db ok => ?_⟩
  simp only [openAt] at ok
  split at ok
  · cases ok
  · cases ok
    exact ⟨State.rowsFitReplay fits, _, rfl, framed⟩

end Database

namespace SharedDatabase

theorem fittingStep {d : SharedDatabase} (h : d.db.Fitting) (e : Event) : (d.step e).db.Fitting := by
  cases e with
  | begin who => exact ⟨h.rows, h.log⟩
  | act who op => simp only [step]; split <;> exact h
  | commit who =>
    simp only [step]
    split
    · exact Database.fittingCommit h
    · exact h
  | leave who => exact h
  | checkpoint => exact Database.fittingCheckpoint h
  | block on => exact Database.fittingBlock h on

end SharedDatabase

namespace DatabaseLifecycle

def Fitting : DatabaseLifecycle → Prop
  | closed disk left => disk.Framed ∧ left.RowsFit
  | opened shared => shared.db.Fitting

theorem fittingDisk {v : DatabaseLifecycle} (h : v.Fitting) : v.disk.Framed ∧ v.rows.RowsFit := by
  cases v with
  | closed disk left => exact h
  | opened shared =>
    obtain ⟨log, here, framed⟩ := h.log
    simp only [disk, rows, Database.disk?, here, Option.map_some, Option.getD_some]
    exact ⟨framed.disk, h.rows⟩

theorem fittingStep {v : DatabaseLifecycle} (h : v.Fitting) (e : Event) : (v.step e).Fitting := by
  cases e with
  | reopen policy =>
    obtain ⟨framed, fit⟩ := fittingDisk h
    obtain ⟨left, opens⟩ := Database.fittingOpened framed policy
    rcases result : Database.openAt v.disk policy with ⟨found, disk⟩
    rw [result] at left opens
    simp only [step, result]
    cases found with
    | ok db => exact opens db rfl
    | error cause => exact ⟨left, fit⟩
  | close => exact fittingDisk h
  | use e =>
    cases v with
    | closed disk left => exact h
    | opened shared => exact SharedDatabase.fittingStep h e

theorem fittingRun {v : DatabaseLifecycle} (h : v.Fitting) (events : List Event) : (v.run events).Fitting := by
  induction events generalizing v with
  | nil => exact h
  | cons e events ih => exact ih (fittingStep h e)

theorem fittingStart : start.Fitting := ⟨⟨[], rfl⟩, State.rowsFitEmpty⟩

end DatabaseLifecycle

theorem Log.checkpointFitting {s : State} (h : s.RowsFit) (log : Log) (id : UInt64) :
    (log.checkpoint s id).isOk = !log.journal.disk.blocked ∧
      ∀ size, log.checkpoint s id ≠ .error (.tooLarge size) := by
  have fails := Journal.replaceFails log.journal (Snapshot.records s id)
  unfold checkpoint
  rw [Journal.obstacle?, Journal.refusalFitting (State.recordsFit h id)] at fails
  cases blocked : log.journal.disk.blocked <;> rw [blocked] at fails
  · rcases fails with ⟨_, cause, _⟩ | ⟨_, after, ok⟩
    · cases cause
    · rw [ok]
      exact ⟨rfl, fun _ same => by cases same⟩
  · rcases fails with ⟨cause, here, failed⟩ | ⟨clear, _⟩
    · cases here
      rw [failed]
      exact ⟨rfl, fun _ same => by cases same⟩
    · cases clear

theorem Database.checkpointFitting {db : Database} (h : db.state.RowsFit) (size : Nat) :
    db.checkpoint.1 ≠ .error (.tooLarge size) := by
  unfold checkpoint
  split
  · simp
  · rename_i log here
    obtain ⟨_, never⟩ := Log.checkpointFitting h log db.lastTxnId
    split
    · simp
    · rename_i cause failed
      intro same
      cases same
      exact never size failed

/-- A snapshot is never empty, has the id it is given, leaves every table as it is and keeps to the limit but for
single writes. Whatever is done with a database whose journal was not there at first, each record of a snapshot
of it can be encoded, so that no checkpoint of it, whether asked for or due, finds a record too large. -/
theorem snapshotFaithfulAndFits :
    (∀ (s : State) (id : UInt64) (limit : Nat),
      Snapshot.chunked s id limit ≠ [] ∧
      (∀ r ∈ Snapshot.chunked s id limit, r.txnId = id ∧
        (Record.writesSize r.writes ≤ limit ∨ r.writes.length = 1)) ∧
      ∀ name, (Database.replay (Snapshot.chunked s id limit)).table name = s.table name) ∧
    ∀ events : List DatabaseLifecycle.Event,
      let v := DatabaseLifecycle.start.run events
      (∀ id, ∀ r ∈ Snapshot.records v.rows id, ∃ bytes, r.encode = .ok bytes ∧ bytes.size ≤ Journal.maxRecordSize) ∧
      (∀ (log : Log) id, (log.checkpoint v.rows id).isOk = !log.journal.disk.blocked ∧
        ∀ size, log.checkpoint v.rows id ≠ .error (.tooLarge size)) ∧
      ∀ shared, v = .opened shared → ∀ size, shared.db.checkpoint.1 ≠ .error (.tooLarge size) := by
  constructor
  · intro s id limit
    refine ⟨Snapshot.chunkedNotEmpty s id limit, fun r mem => ?_, fun name => ?_⟩
    · exact ⟨Snapshot.chunkedStamped r mem, Snapshot.chunkedWithin r mem⟩
    · exact State.sameTable fun k => congrFun (Snapshot.chunkedRestore s id limit) ⟨name, k⟩
  · intro events v
    have fitting : v.Fitting := DatabaseLifecycle.fittingRun DatabaseLifecycle.fittingStart events
    have rows := (DatabaseLifecycle.fittingDisk fitting).2
    refine ⟨fun id r mem => ?_, Log.checkpointFitting rows, fun shared here => ?_⟩
    · obtain ⟨bytes, coded, _⟩ := Record.encodeFits (State.recordsFit rows id r mem)
      exact ⟨bytes, coded, (Record.encodeParts coded).2.2.1⟩
    · rw [here] at fitting
      exact Database.checkpointFitting fitting.rows

end Teller
