import Teller.Task.Options
import Teller.Task.State
import Teller.Status

/-! Tasks: as they are handed in, as a queue keeps them, and as a handler sees them. -/
namespace Teller

structure NewTask where
  id : Uuid
  type : String
  payload : List UInt8
  options : TaskOptions
  deriving DecidableEq

structure TaskRecord where
  id : Uuid
  type : String
  payload : List UInt8
  queue : String
  maxRetry : UInt32
  notBefore : Moment
  retried : UInt32
  state : TaskState
  lastError : Option String
  enqueuedAt : Moment
  deriving DecidableEq

structure Task where
  id : Uuid
  type : String
  payload : List UInt8
  queue : String
  retried : UInt32
  maxRetry : UInt32
  deriving DecidableEq

structure Lease where
  taskId : Uuid
  queue : String
  leaseId : Uuid
  expiresAt : Moment
  deriving DecidableEq

structure LeasedTask where
  record : TaskRecord
  lease : Lease
  deriving DecidableEq

structure TaskInfo where
  id : Uuid
  type : String
  queue : String
  maxRetry : UInt32
  notBefore : Moment
  deriving DecidableEq

inductive TaskError where
  | retry (reason : String)
  | skip (reason : String)
  deriving DecidableEq, Repr, Inhabited

namespace TaskError

def message : TaskError → String
  | retry reason => reason
  | skip reason => reason ++ ": skip retry"

def status : TaskError → Status
  | retry _ => .taskTransientFailure
  | skip _ => .taskMalformed

end TaskError

namespace TaskRecord

def pending (task : NewTask) (now : Moment) : Except Overflow TaskRecord :=
  (task.options.resolve now).map fun notBefore =>
    { id := task.id, type := task.type, payload := task.payload, queue := task.options.queue
      maxRetry := task.options.maxRetry, notBefore, retried := 0, state := .pending
      lastError := none, enqueuedAt := now }

theorem pendingMade {task : NewTask} {now : Moment} {r : TaskRecord} (ok : pending task now = .ok r) :
    (r.id = task.id ∧ r.type = task.type ∧ r.payload = task.payload) ∧ r.state = .pending ∧ r.retried = 0 ∧
      task.options.resolve now = .ok r.notBefore := by
  unfold pending at ok
  cases resolved : task.options.resolve now with
  | error e => rw [resolved] at ok; cases ok
  | ok notBefore =>
    rw [resolved] at ok
    cases ok
    exact ⟨⟨rfl, rfl, rfl⟩, rfl, rfl, rfl⟩

def readyAt (r : TaskRecord) : Option Moment :=
  match r.state with
  | .pending => some r.notBefore
  | .active _ expiresAt => some expiresAt
  | .archived _ => none

def isExhausted (r : TaskRecord) : Bool := r.retried ≥ r.maxRetry

def toTask (r : TaskRecord) : Task :=
  ⟨r.id, r.type, r.payload, r.queue, r.retried, r.maxRetry⟩

def info (r : TaskRecord) : TaskInfo := ⟨r.id, r.type, r.queue, r.maxRetry, r.notBefore⟩

open Json (Fields Codec)

def fields : Fields [Uuid, String, List UInt8, String, UInt32, Moment, UInt32, TaskState,
    Option String, Moment] :=
  .cons "id" .uuid <| .cons "type" .string <| .cons "payload" Codec.uint8.list <|
    .cons "queue" .string <| .cons "max_retry" .uint32 <| .cons "not_before" Moment.codec <|
    .cons "retried" .uint32 <| .cons "state" TaskState.codec <|
    .cons "last_error" Codec.string.option <| .cons "enqueued_at" Moment.codec .nil

def codec : Codec TaskRecord :=
  .ofFields "struct TaskRecord" fields
    (fun (id, type, payload, queue, maxRetry, notBefore, retried, state, lastError, enqueuedAt, ()) =>
      ⟨id, type, payload, queue, maxRetry, notBefore, retried, state, lastError, enqueuedAt⟩)
    fun r => (r.id, r.type, r.payload, r.queue, r.maxRetry, r.notBefore, r.retried, r.state,
      r.lastError, r.enqueuedAt, ())

end TaskRecord

namespace NewTask
open Json (Fields Codec)

def fields : Fields [Uuid, String, List UInt8, TaskOptions] :=
  .cons "id" .uuid <| .cons "type" .string <| .cons "payload" Codec.uint8.list <|
    .cons "options" TaskOptions.codec .nil

def codec : Codec NewTask :=
  .ofFields "struct NewTask" fields
    (fun (id, type, payload, options, ()) => ⟨id, type, payload, options⟩)
    fun t => (t.id, t.type, t.payload, t.options, ())

end NewTask
end Teller
