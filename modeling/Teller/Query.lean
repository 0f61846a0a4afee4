import Teller.Broker
import Teller.Session
import Teller.User

/-! The bank's tables and the queries on them. Queries run inside a unit of work, which notes the tasks
that they stage. -/
namespace Teller

structure OutboxEntry where
  id : Uuid
  task : NewTask
  createdAt : Moment
  deriving DecidableEq

namespace OutboxEntry
open Json (Fields Codec)

def fields : Fields [Uuid, NewTask, Moment] :=
  .cons "id" .uuid <| .cons "task" NewTask.codec <| .cons "created_at" Moment.codec .nil

def codec : Codec OutboxEntry :=
  .ofFields "struct OutboxEntry" fields (fun (id, task, createdAt, ()) => ⟨id, task, createdAt⟩)
    fun e => (e.id, e.task, e.createdAt, ())

end OutboxEntry

inductive EnqueueError where
  | serialization (reason : String)
  | broker (cause : BrokerError)
  deriving DecidableEq, Repr, Inhabited

namespace EnqueueError

def message : EnqueueError → String
  | serialization reason => "failed to marshal task payload: " ++ reason
  | broker cause => "failed to enqueue task: " ++ cause.message

def source : EnqueueError → Option String
  | serialization _ => none
  | broker cause => some cause.message

def status (_ : EnqueueError) : Status := .enqueueFailed

end EnqueueError

inductive StoreError where
  | notFound
  | taken (detail : String)
  | conflict
  | crowded
  | aborted (reason : String)
  | enqueue (cause : EnqueueError)
  | encoding (reason : String)
  | storage (reason : String)
  deriving DecidableEq, Repr, Inhabited

namespace StoreError

def message : StoreError → String
  | notFound => "no rows in result set"
  | taken detail => "unique violation: " ++ detail
  | conflict => "transaction conflict: retries exhausted"
  | crowded => "timed out waiting for a database connection"
  | aborted reason => "transaction aborted: " ++ reason
  | enqueue cause => cause.message
  | encoding reason => "row encoding error: " ++ reason
  | storage reason => "storage error: " ++ reason

def source : StoreError → Option String
  | enqueue cause => some cause.message
  | _ => none

def status : StoreError → Status
  | notFound => .notFound
  | taken _ => .alreadyExists
  | conflict => .transactionConflict
  | crowded => .unavailable
  | aborted _ => .transactionAborted
  | enqueue cause => cause.status
  | encoding _ | storage _ => .internal

def ofCommit : CommitError → StoreError
  | .conflict => conflict
  | other => storage other.message

end StoreError

abbrev Query (Event Answer α : Type) :=
  StateT (List OutboxEntry) (Work Event Answer (Stop StoreError)) α

namespace Query
variable {Event Answer α : Type}

def users : String := "users"
def sessions : String := "sessions"
def outbox : String := "outbox"

def fail (e : StoreError) : Query Event Answer α := throw (.failed e)

def userRow (username : String) : RowId := ⟨users, Bytes.ofText username⟩
def sessionRow (id : Uuid) : RowId := ⟨sessions, id.key⟩
def outboxRow (id : Uuid) : RowId := ⟨outbox, id.key⟩

def decode (codec : Json.Codec α) (value : Bytes) : Query Event Answer α :=
  match Json.decode codec value.data.toList with
  | .ok row => pure row
  | .error e => fail (.encoding e.message)

def read (row : RowId) : Query Event Answer (Option Bytes) := StateT.lift (Work.read row)

def load (codec : Json.Codec α) (row : RowId) : Query Event Answer α := do
  match ← read row with
  | some value => decode codec value
  | none => fail .notFound

def store (codec : Json.Codec α) (row : RowId) (v : α) : Query Event Answer Unit :=
  StateT.lift (Work.write row (Json.encode codec v))

def createUser (now : Moment) (new : NewUser) : Query Event Answer User := do
  if (← read (userRow new.username)).isSome then
    fail (.taken ("username '" ++ new.username ++ "' already exists"))
  let user := User.create new now
  store User.codec (userRow new.username) user
  return user

def getUser (username : String) : Query Event Answer User := load User.codec (userRow username)

def createSession (now : Moment) (new : NewSession) : Query Event Answer Session := do
  if (← read (sessionRow new.id)).isSome then
    fail (.taken ("session '" ++ new.id.toText ++ "' already exists"))
  let session := Session.create new now
  store Session.codec (sessionRow new.id) session
  return session

def getSession (id : Uuid) : Query Event Answer Session := load Session.codec (sessionRow id)

def setBlocked (id : Uuid) (blocked : Bool) : Query Event Answer Session := do
  let session := { ← getSession id with isBlocked := blocked }
  store Session.codec (sessionRow id) session
  return session

def insertOutbox (now : Moment) (task : NewTask) : Query Event Answer OutboxEntry := do
  let entry : OutboxEntry := ⟨task.id, task, now⟩
  store OutboxEntry.codec (outboxRow task.id) entry
  modify (· ++ [entry])
  return entry

def listOutbox : Query Event Answer (List OutboxEntry) := do
  let rows ← StateT.lift (Work.readTable outbox)
  let entries ← rows.mapM fun (_, value) => decode OutboxEntry.codec value
  return entries.mergeSort fun a b => a.createdAt ≤ b.createdAt

def deleteOutbox (id : Uuid) : Query Event Answer Unit := StateT.lift (Work.erase (outboxRow id))

def afterFailure : Stop StoreError → Stop StoreError
  | .failed (.enqueue cause) => .failed (.enqueue cause)
  | .failed (.aborted reason) => .failed (.aborted reason)
  | .failed other => .failed (.aborted other.message)
  | .overflow cause => .overflow cause

def createUserWith (now : Moment) (new : NewUser) (follow : User → Query Event Answer (List NewTask)) :
    Query Event Answer (User × List OutboxEntry) := do
  let user ← createUser now new
  let tasks ← tryCatch (follow user) fun e => throw (afterFailure e)
  let entries ← tasks.mapM (insertOutbox now)
  return (user, entries)

end Query
end Teller
