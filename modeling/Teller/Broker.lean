import Teller.Task
import Teller.Work

/-! The broker keeps the tasks of every queue in a table of its own and hands each to one worker at a
time. What it does to a queue is written here as bodies of transactions. Tasks that are delivered no
more move to the queue's archive, which keeps the latest of them. -/
namespace Teller

inductive BrokerError where
  | leaseLost
  | contended
  | encoding (reason : String)
  | unavailable (reason : String)
  deriving DecidableEq, Repr, Inhabited

namespace BrokerError

def message : BrokerError → String
  | leaseLost => "task lease lost"
  | contended => "broker is contended"
  | encoding reason => "task record encoding error: " ++ reason
  | unavailable reason => "broker unavailable: " ++ reason

def status : BrokerError → Status
  | leaseLost | encoding _ => .internal
  | contended | unavailable _ => .unavailable

def ofCommit : CommitError → BrokerError
  | .conflict => contended
  | other => unavailable other.message

end BrokerError

structure ArchiveLimits where
  size : Nat
  age : Span
  deriving DecidableEq

def ArchiveLimits.standard : ArchiveLimits := ⟨10000, 90 * 24 * 3600 * 1000, by decide⟩

namespace Broker

def retries : Nat := 7

def queueTable (queue : String) : String := "queue:" ++ queue
def archiveTable (queue : String) : String := "archived:" ++ queue

abbrev Body (Event Answer α : Type) := Work Event Answer (Stop BrokerError) α

variable {Event Answer α : Type}

def fail (e : BrokerError) : Body Event Answer α := throw (.failed e)

def breakOff (cause : Overflow) : Body Event Answer α := throw (.overflow cause)

def decode (value : Bytes) : Body Event Answer TaskRecord :=
  match Json.decode TaskRecord.codec value.data.toList with
  | .ok r => pure r
  | .error e => fail (.encoding e.message)

def queueRow (r : TaskRecord) : RowId := ⟨queueTable r.queue, r.id.key⟩
def archiveRow (r : TaskRecord) : RowId := ⟨archiveTable r.queue, r.id.key⟩

def put (r : TaskRecord) : Body Event Answer Unit :=
  Work.write (queueRow r) (Json.encode TaskRecord.codec r)

def enqueue (r : TaskRecord) : Body Event Answer Unit := do
  let queued ← Work.read (queueRow r)
  let archived ← Work.read (archiveRow r)
  if queued.isNone ∧ archived.isNone then put r

def archivedAt? (r : TaskRecord) : Option Moment :=
  match r.state with
  | .archived date => some date
  | _ => none

def olderFirst (a b : Moment × TaskRecord) : Bool := a.1 ≤ b.1

def scanArchive (queue : String) : Body Event Answer (List (Moment × TaskRecord)) := do
  let rows ← Work.readTable (archiveTable queue)
  let records ← rows.mapM fun (_, value) => decode value
  let dated := records.filterMap fun r => (archivedAt? r).map (·, r)
  return dated.mergeSort olderFirst

def surplus (limits : ArchiveLimits) (now : Moment) (archived : List (Moment × TaskRecord)) : Nat :=
  let expired := match now.sub? limits.age with
    | some cutoff => (archived.takeWhile fun (date, _) => date < cutoff).length
    | none => 0
  max expired (archived.length - limits.size)

def prune (limits : ArchiveLimits) (queue : String) (now : Moment) : Body Event Answer Unit := do
  let archived ← scanArchive queue
  (archived.take (surplus limits now archived)).forM fun (_, r) =>
    Work.erase ⟨archiveTable queue, r.id.key⟩

def putAway (limits : ArchiveLimits) (r : TaskRecord) (now : Moment) (error : String) :
    Body Event Answer Unit := do
  let r := { r with state := .archived now, lastError := some error }
  Work.erase (queueRow r)
  Work.write (archiveRow r) (Json.encode TaskRecord.codec r)
  prune limits r.queue now

def readySince? (now : Moment) (r : TaskRecord) : Option (Moment × TaskRecord) :=
  match r.readyAt with
  | some date => if date ≤ now then some (date, r) else none
  | none => none

def sooner (a b : Moment × TaskRecord) : Bool :=
  a.1 < b.1 || (a.1 = b.1 && a.2.enqueuedAt ≤ b.2.enqueuedAt)

def leaseExpired : String := "lease expired"

def reclaimed (r : TaskRecord) : TaskRecord :=
  match r.state with
  | .active _ _ => { r with retried := r.retried + 1, lastError := some leaseExpired }
  | _ => r

def isLost (r : TaskRecord) : Bool :=
  match r.state with
  | .active _ _ => r.isExhausted
  | _ => false

def grant (now : Moment) (duration : Span) (r : TaskRecord) : Body Event Answer LeasedTask := do
  let leaseId ← Work.newId
  let some expiresAt := now.add? duration | breakOff .date
  let r := { reclaimed r with state := .active leaseId expiresAt }
  put r
  return ⟨r, ⟨r.id, r.queue, leaseId, expiresAt⟩⟩

def leaseFirst (limits : ArchiveLimits) (now : Moment) (duration : Span) :
    List TaskRecord → Body Event Answer (Option LeasedTask)
  | [] => return none
  | r :: rest =>
      if isLost r then do
        putAway limits r now leaseExpired
        leaseFirst limits now duration rest
      else some <$> grant now duration r

def lease (limits : ArchiveLimits) (queue : String) (now : Moment) (duration : Span) :
    Body Event Answer (Option LeasedTask) := do
  let rows ← Work.readTable (queueTable queue)
  let records ← rows.mapM fun (_, value) => decode value
  let ready := (records.filterMap (readySince? now)).mergeSort sooner
  leaseFirst limits now duration (ready.map (·.2))

def isHeldBy (lease : Lease) (r : TaskRecord) : Bool :=
  match r.state with
  | .active leaseId _ => leaseId = lease.leaseId
  | _ => false

def leased (lease : Lease) : Body Event Answer TaskRecord := do
  match ← Work.read ⟨queueTable lease.queue, lease.taskId.key⟩ with
  | none => fail .leaseLost
  | some value =>
      let r ← decode value
      if isHeldBy lease r then return r else fail .leaseLost

def extend (lease : Lease) (deadline : Moment) : Body Event Answer Lease := do
  let r ← leased lease
  put { r with state := .active lease.leaseId deadline }
  return { lease with expiresAt := deadline }

def acknowledge (lease : Lease) : Body Event Answer Unit := do
  let _ ← leased lease
  Work.erase ⟨queueTable lease.queue, lease.taskId.key⟩

def retry (lease : Lease) (runAt : Moment) (error : String) : Body Event Answer Unit := do
  let r ← leased lease
  if r.retried + 1 = 0 then breakOff .retries
  put { r with retried := r.retried + 1, notBefore := runAt, state := .pending, lastError := some error }

def archive (limits : ArchiveLimits) (lease : Lease) (now : Moment) (error : String) :
    Body Event Answer Unit := do
  let r ← leased lease
  putAway limits r now error

def get (queue : String) (id : Uuid) : Body Event Answer (Option TaskRecord) := do
  match ← Work.read ⟨queueTable queue, id.key⟩ with
  | some value => some <$> decode value
  | none => match ← Work.read ⟨archiveTable queue, id.key⟩ with
    | some value => some <$> decode value
    | none => return none

def archived (queue : String) : Body Event Answer (List TaskRecord) := do
  return (← scanArchive queue).map (·.2)

end Broker
end Teller
