import Teller.Bank.Worker
import Teller.Proofs.TaskCustody

/-! What workers ask of the broker. They settle what they were given by how its handler ended, in time or late,
or never. -/
namespace Teller
open Broker

def LeasedTask.settling (leased : LeasedTask) (ended : Except TaskError Unit) (now runAt : Moment) : Request :=
  match leased.verdict ended with
  | .acknowledge => .acknowledge leased.lease
  | .archive reason => .archive leased.lease now reason
  | .retry reason => .retry leased.lease runAt reason

namespace Broker

def Request.handed? : Request → Option TaskRecord
  | .enqueue r => some r
  | _ => none

def Call.granted? : Call → Option LeasedTask
  | ⟨.lease _ _ _, .granted task⟩ => task
  | _ => none

def handedIn (log : List Entry) : List TaskRecord := log.filterMap (·.call.request.handed?)

def grantedIn (log : List Entry) : List LeasedTask := log.filterMap (·.call.granted?)

def HeldFrom (log : List Entry) (leased : LeasedTask) : Prop :=
  ∃ t ∈ grantedIn log, leased.record = t.record ∧ Same t.lease leased.lease

inductive Worked (log : List Entry) : Request → Prop where
  | handed {task now r} (fresh : TaskRecord.pending task now = .ok r) : Worked log (.enqueue r)
  | polled {queue now duration} : Worked log (.lease queue now duration)
  | extended {leased deadline} (held : HeldFrom log leased) : Worked log (.extend leased.lease deadline)
  | settled {leased ended now runAt} (held : HeldFrom log leased) : Worked log (leased.settling ended now runAt)

variable {log more : List Entry} {e : Entry} {r : TaskRecord} {t leased : LeasedTask}
  {ended : Except TaskError Unit} {now runAt : Moment}

theorem handedAppend : handedIn (log ++ more) = handedIn log ++ handedIn more := List.filterMap_append

theorem grantedAppend : grantedIn (log ++ more) = grantedIn log ++ grantedIn more := List.filterMap_append

theorem handedLater (mem : r ∈ handedIn log) : r ∈ handedIn (log ++ more) := by
  rw [handedAppend]
  exact List.mem_append_left _ mem

theorem handedLast (handed : e.call.request.handed? = some r) : r ∈ handedIn (log ++ [e]) := by
  rw [handedAppend]
  exact List.mem_append_right _ (by simp [handedIn, handed])

theorem workedLater (log more : List Entry) (request : Request) (h : Worked log request) :
    Worked (log ++ more) request := by
  have later {leased : LeasedTask} (held : HeldFrom log leased) : HeldFrom (log ++ more) leased := by
    obtain ⟨t, mem, same⟩ := held
    exact ⟨t, grantedAppend ▸ List.mem_append_left _ mem, same⟩
  cases h with
  | handed fresh => exact .handed fresh
  | polled => exact .polled
  | extended held => exact .extended (later held)
  | settled held => exact .settled (later held)

theorem settlingUnder (leased : LeasedTask) (ended : Except TaskError Unit) (now runAt : Moment) :
    (leased.settling ended now runAt).under? = some leased.lease := by
  unfold LeasedTask.settling
  cases leased.verdict ended <;> rfl

theorem settleAsks (leased : LeasedTask) (ended : Except TaskError Unit) (b : Bank) :
    ∃ kind runAt b', b'.queues = b.queues ∧ b'.plan = b.plan ∧ (Bank.settle leased ended b).2 =
      (Bank.ask kind ((leased.settling ended b.now runAt).body b.plan.archive) b').2 := by
  have followed {kind : BrokerRequest} {α : Type} (body : Body Empty Empty α) (f : α → Reply) (b' : Bank) :
      (Bank.ask kind (body.bind fun a => .done (.ok (f a))) b').2 = (Bank.ask kind body b').2 := by
    unfold Bank.ask Bank.brokerRun
    split
    · rfl
    · exact Work.transactFollowed _ _ (fun _ => body) f _ _ b'
  unfold Bank.settle LeasedTask.settling
  cases leased.verdict ended with
  | acknowledge =>
    exact ⟨.acknowledge, b.now, b, rfl, rfl, (followed (Broker.acknowledge leased.lease) (fun _ => .done) b).symm⟩
  | archive reason =>
    exact ⟨.archive, b.now, b, rfl, rfl,
      (followed (Broker.archive b.plan.archive leased.lease b.now reason) (fun _ => .done) b).symm⟩
  | retry reason =>
    exact ⟨.retry, _, b.drawNumber.2, rfl, rfl,
      (followed (Broker.retry leased.lease _ reason) (fun _ => .done) b.drawNumber.2).symm⟩

theorem enqueueWorked (h : Worked log (.enqueue r)) : ∃ task now, TaskRecord.pending task now = .ok r := by
  generalize asked : Request.enqueue r = request at h
  cases h with
  | handed fresh => cases asked; exact ⟨_, _, fresh⟩
  | polled | extended => cases asked
  | settled =>
    have under := congrArg Request.under? asked
    rw [settlingUnder] at under
    cases under

theorem settlingRetry {l : Lease} {date : Moment} {error : String}
    (asked : leased.settling ended now runAt = .retry l date error) :
    leased.verdict ended = .retry error ∧ leased.lease = l := by
  unfold LeasedTask.settling at asked
  split at asked
  · cases asked
  · cases asked
  · rename_i verdict
    cases asked
    exact ⟨verdict, rfl⟩

theorem verdictRetry {error : String} (verdict : leased.verdict ended = .retry error) :
    leased.record.isExhausted = false := by
  unfold LeasedTask.verdict at verdict
  split at verdict
  · cases verdict
  · cases verdict
  · split at verdict
    · cases verdict
    · rename_i left
      simpa using left

theorem retryWorked {l : Lease} {error : String} (h : Worked log (.retry l runAt error)) :
    ∃ t ∈ grantedIn log, Same t.lease l ∧ t.record.isExhausted = false := by
  generalize asked : Request.retry l runAt error = request at h
  cases h with
  | handed | polled | extended => cases asked
  | settled held =>
    obtain ⟨verdict, rfl⟩ := settlingRetry asked.symm
    obtain ⟨t, mem, record, same⟩ := held
    exact ⟨t, mem, same, record ▸ verdictRetry verdict⟩

theorem grantedCall (given : e.call.granted? = some t) :
    ∃ queue now duration, e.call = ⟨.lease queue now duration, .granted (some t)⟩ := by
  obtain ⟨⟨request, reply⟩, rows⟩ := e
  cases request with
  | lease queue now duration =>
    cases reply with
    | granted task => cases given; exact ⟨queue, now, duration, rfl⟩
    | done | extended => cases given
  | _ => cases given

end Broker
end Teller
