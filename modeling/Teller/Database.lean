import Teller.Database.Checkpoint
import Teller.Database.Transaction
import Teller.Journal.File
import Teller.Stop

/-! A database: committed rows in memory and, for a durable one, the journal they are recovered
from. A commit is checked against the versions its transaction read, written to the journal, applied,
and followed by a checkpoint when one is due. -/
namespace Teller
open Journal (Record JournalError Write)

structure Log where
  journal : Journal
  policy : CheckpointPolicy
  backlog : Backlog
  deriving DecidableEq

structure Database where
  state : State := {}
  log : Option Log := none
  nextTxnId : UInt64 := 1
  deriving DecidableEq

inductive CommitError where
  | conflict
  /-- Someone broke off while the database was theirs. Nothing here does. -/
  | poisoned
  | journal (cause : JournalError)
  deriving DecidableEq, Inhabited

namespace CommitError

def message : CommitError → String
  | conflict => "serialization conflict"
  | poisoned => "database lock poisoned"
  | journal cause => "log error: " ++ cause.message

def source : CommitError → Option String
  | conflict | poisoned => none
  | journal cause => some cause.message

end CommitError

inductive DatabaseError where
  | poisoned
  | journal (cause : JournalError)
  | commit (cause : CommitError)
  deriving DecidableEq, Inhabited

namespace DatabaseError

def message : DatabaseError → String
  | poisoned => "database lock poisoned"
  | journal cause => "log error: " ++ cause.message
  | commit cause => "transaction error: " ++ cause.message

def source : DatabaseError → Option String
  | poisoned => none
  | journal cause => some cause.message
  | commit cause => some cause.message

end DatabaseError

namespace Log

def checkpoint (log : Log) (s : State) (txnId : UInt64) : Except JournalError Log := do
  let journal ← log.journal.replace (Snapshot.records s txnId)
  return { log with journal, backlog := .empty }

end Log

namespace Database

def inMemory : Database := {}

def replay (records : List Record) : State := records.foldl (fun s r => s.apply r.writes) {}

def highestTxnId (records : List Record) : UInt64 :=
  records.foldl (fun top r => max top r.txnId) 0

def openAt (disk : Disk) (policy : CheckpointPolicy) : Except Overflow Database × Disk :=
  let (journal, found) := Journal.openAt disk
  let last := highestTxnId found.records
  (if last + 1 = 0 then .error .txnId
   else .ok {
     state := replay found.records
     log := some ⟨journal, policy, ⟨found.records.length, journal.size⟩⟩
     nextTxnId := last + 1 }, journal.disk)

def disk? (db : Database) : Option Disk := db.log.map (·.journal.disk)

def withDisk (db : Database) (disk : Disk) : Database :=
  { db with log := db.log.map fun log => { log with journal := { log.journal with disk } } }

def begin (db : Database) : Transaction × Database :=
  (⟨db.nextTxnId, ∅, ∅, ∅⟩, { db with nextTxnId := db.nextTxnId + 1 })

def lastTxnId (db : Database) : UInt64 := if db.nextTxnId = 0 then 0 else db.nextTxnId - 1

def logCommit (log : Option Log) (r : Record) : Except JournalError (Option Log) :=
  match log with
  | none => .ok none
  | some log => do
      let journal ← log.journal.append r
      return some { log with journal, backlog := log.backlog.record (journal.size - log.journal.size) }

/-- Takes a checkpoint when one is due. The commit is in the old journal already, so that a failing
checkpoint changes nothing. -/
def checkpointIfDue (log : Option Log) (s : State) (txnId : UInt64) : Option Log :=
  log.map fun log =>
    if log.backlog.isDue log.policy then
      match log.checkpoint s txnId with
      | .ok fresh => fresh
      | .error _ => log
    else log

def commit (db : Database) (t : Transaction) : Except CommitError Unit × Database :=
  if t.isStale db.state then (.error .conflict, db)
  else if t.isReadOnly then (.ok (), db)
  else
    let writes := t.toWrites
    match logCommit db.log ⟨t.id, writes⟩ with
    | .error cause => (.error (.journal cause), db)
    | .ok log =>
        let state := db.state.apply writes
        (.ok (), { db with state, log := checkpointIfDue log state db.lastTxnId })

def checkpoint (db : Database) : Except JournalError Unit × Database :=
  match db.log with
  | none => (.ok (), db)
  | some log =>
      match log.checkpoint db.state db.lastTxnId with
      | .ok fresh => (.ok (), { db with log := some fresh })
      | .error cause => (.error cause, db)

def commitWrites (db : Database) (writes : List Write) : Except CommitError Unit × Database :=
  let (t, db) := db.begin
  db.commit (writes.foldl Transaction.write t)

end Database
end Teller
