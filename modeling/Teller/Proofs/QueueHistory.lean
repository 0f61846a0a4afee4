import Teller.Proofs.QueueTurns

/-! The calls that came to an end, one after another, each with the rows it has left. A task stays under its
lease until it is settled under it, or until a call for which the lease has run out takes it over; and it
stays pending until it is handed out at a time when it may be. -/
namespace Teller

def TaskRecord.Free (r : TaskRecord) (now : Moment) : Prop :=
  match r.state with
  | .pending => r.notBefore ≤ now
  | .active _ expiry => expiry ≤ now
  | .archived _ => False

theorem TaskRecord.freeReady {r : TaskRecord} {date now : Moment} (ready : r.readyAt = some date)
    (due : date ≤ now) : r.Free now := by
  cases state : r.state with
  | pending =>
    simp only [readyAt, state] at ready
    cases ready
    simpa only [Free, state] using due
  | active leaseId expiry =>
    simp only [readyAt, state] at ready
    cases ready
    simpa only [Free, state] using due
  | archived archivedAt =>
    simp only [readyAt, state] at ready
    cases ready

namespace State

def Leases (s : State) (l : Lease) : Prop :=
  ∃ r, s.queued l.queue l.taskId = some r ∧ r.state = .active l.leaseId l.expiresAt

def Awaits (s : State) (queue : String) (id : Uuid) (date : Moment) : Prop :=
  ∃ r, s.queued queue id = some r ∧ r.state = .pending ∧ r.notBefore = date

end State

namespace Broker

def Same (l l' : Lease) : Prop := l'.queue = l.queue ∧ l'.taskId = l.taskId ∧ l'.leaseId = l.leaseId

instance (l l' : Lease) : Decidable (Same l l') := inferInstanceAs (Decidable (_ ∧ _ ∧ _))

namespace Request

def under? : Request → Option Lease
  | extend l _ | acknowledge l | retry l _ _ | archive l _ _ => some l
  | enqueue _ | lease _ _ _ => none

def Settles (l : Lease) : Request → Prop
  | acknowledge l' | retry l' _ _ | archive l' _ _ => Same l l'
  | enqueue _ | lease _ _ _ | extend _ _ => False

def onto (l : Lease) : Request → Lease
  | extend l' deadline => if Same l l' then { l with expiresAt := deadline } else l
  | _ => l

end Request

structure Entry where
  call : Call
  rows : State

def rowsAfter (s : State) (log : List Entry) : State := log.foldl (fun _ e => e.rows) s

def extendedBy (l : Lease) (log : List Entry) : Lease := log.foldl (fun l e => e.call.request.onto l) l

def SettledUnder (l : Lease) (log : List Entry) : Prop := ∃ e ∈ log, e.call.request.Settles l

def TakenOver (l : Lease) (log : List Entry) : Prop := ∃ before e after now duration task,
  log = before ++ e :: after ∧ e.call = ⟨.lease l.queue now duration, .granted task⟩ ∧
    (extendedBy l before).expiresAt ≤ now ∧
    ((∃ t, task = some t ∧ t.record.id = l.taskId) ∨ e.rows.queued l.queue l.taskId = none)

def HandedOut (queue : String) (id : Uuid) (date : Moment) (log : List Entry) : Prop := ∃ e ∈ log, ∃ now duration t,
  e.call = ⟨.lease queue now duration, .granted (some t)⟩ ∧ t.record.id = id ∧ date ≤ now

def Traced : State → List Entry → Prop
  | _, [] => True
  | s, e :: log =>
      (∀ queue id, Turn e.call queue id (s.queued queue id) (e.rows.queued queue id)) ∧ Traced e.rows log

variable {s : State} {log later : List Entry} {e : Entry} {call : Call} {queue : String} {id : Uuid}
  {held left : Option TaskRecord} {r : TaskRecord} {l : Lease} {date : Moment}

theorem tracedAppend : Traced s (log ++ later) ↔ Traced s log ∧ Traced (rowsAfter s log) later := by
  induction log generalizing s with
  | nil => simp [Traced, rowsAfter]
  | cons e log ih =>
    rw [List.cons_append, Traced, Traced, ih, and_assoc]
    rfl

theorem ontoSame (l : Lease) (request : Request) : Same l (request.onto l) := by
  unfold Request.onto
  split
  · split <;> exact ⟨rfl, rfl, rfl⟩
  · exact ⟨rfl, rfl, rfl⟩

theorem ontoOther (other : ¬ call.Names l.queue l.taskId) : call.request.onto l = l := by
  obtain ⟨request, reply⟩ := call
  cases request with
  | extend l' deadline => exact if_neg fun same => other ⟨same.1, same.2.1⟩
  | _ => rfl

theorem namesUnder (under : call.request.under? = some l) : call.Names l.queue l.taskId := by
  obtain ⟨request, reply⟩ := call
  cases request <;> cases under <;> exact ⟨rfl, rfl⟩

theorem grantedTurn {now : Moment} {duration : Span} {t : LeasedTask}
    (turn : Turn ⟨.lease queue now duration, .granted (some t)⟩ queue t.record.id held left) :
    (∃ r, held = some r ∧ r.Free now) ∧ left = some t.record ∧
      t.record.state = .active t.lease.leaseId t.lease.expiresAt ∧ now.add? duration = some t.lease.expiresAt ∧
      t.lease.queue = queue ∧ t.lease.taskId = t.record.id := by
  generalize name : t.record.id = id at turn
  cases turn with
  | kept other => exact absurd ⟨rfl, name⟩ other
  | granted place ready due grants =>
    refine ⟨⟨_, rfl, TaskRecord.freeReady ready due⟩, rfl, ?_⟩
    obtain ⟨leaseId, expiresAt, expires, rfl⟩ := grants
    exact ⟨rfl, expires, place, (reclaimedRow _).1.symm⟩
  | lost other active expired => exact absurd ⟨rfl, name⟩ other

theorem retriedTurn {runAt : Moment} {error : String} (turn : Turn call l.queue l.taskId held left)
    (retries : call.request = .retry l runAt error) :
    ∃ r, left = some r ∧ r.state = .pending ∧ r.notBefore = runAt := by
  generalize place : l.queue = queue, name : l.taskId = id at turn
  cases turn with
  | kept other =>
    rw [← place, ← name] at other
    exact absurd (namesUnder (by rw [retries]; rfl)) other
  | retried active => cases retries; exact ⟨_, rfl, rfl, rfl⟩
  | enqueued => cases retries
  | granted place' ready due grants => cases retries
  | lost other active expired => cases retries
  | extended active => cases retries
  | acknowledged active => cases retries
  | archived active => cases retries

theorem leasedTurn (turn : Turn call l.queue l.taskId (some r) left)
    (active : r.state = .active l.leaseId l.expiresAt) : call.request.Settles l ∨
      (∃ now duration task, call = ⟨.lease l.queue now duration, .granted task⟩ ∧ l.expiresAt ≤ now ∧
        ((∃ t, task = some t ∧ t.record.id = l.taskId) ∨ left = none)) ∨
      ∃ r', left = some r' ∧ r'.state = .active l.leaseId (call.request.onto l).expiresAt := by
  have own {leaseId expiry} (h : r.state = .active leaseId expiry) : leaseId = l.leaseId ∧ expiry = l.expiresAt :=
    TaskState.active.inj (h.symm.trans active)
  generalize place : l.queue = queue, name : l.taskId = id at turn
  cases turn with
  | kept other =>
    rw [← place, ← name] at other
    exact .inr (.inr ⟨r, rfl, by rw [ontoOther other]; exact active⟩)
  | granted place' ready due grants =>
    rw [TaskRecord.readyAt, active] at ready
    cases ready
    exact .inr (.inl ⟨_, _, _, rfl, due, .inl ⟨_, rfl, rfl⟩⟩)
  | lost other active' expired =>
    obtain ⟨rfl, rfl⟩ := own active'
    exact .inr (.inl ⟨_, _, _, rfl, expired, .inr rfl⟩)
  | @extended l' deadline _ _ active' =>
    have same : Same l l' := ⟨place.symm, name.symm, (own active').1⟩
    refine .inr (.inr ⟨_, rfl, ?_⟩)
    rw [Request.onto, if_pos same, same.2.2]
  | acknowledged active' => exact .inl ⟨place.symm, name.symm, (own active').1⟩
  | retried active' => exact .inl ⟨place.symm, name.symm, (own active').1⟩
  | archived active' => exact .inl ⟨place.symm, name.symm, (own active').1⟩

theorem leasedTrace (h : Traced s log) (leases : s.Leases l) :
    SettledUnder l log ∨ TakenOver l log ∨ (rowsAfter s log).Leases (extendedBy l log) := by
  induction log generalizing s l with
  | nil => exact .inr (.inr leases)
  | cons e log ih =>
    obtain ⟨turns, later⟩ := h
    obtain ⟨r, stored, active⟩ := leases
    have turn := turns l.queue l.taskId
    rw [stored] at turn
    rcases leasedTurn turn active with settles | ⟨now, duration, task, call, expired, taken⟩ | ⟨r', left, active⟩
    · exact .inl ⟨e, List.mem_cons_self, settles⟩
    · exact .inr (.inl ⟨[], e, log, now, duration, task, rfl, call, expired, taken⟩)
    · obtain ⟨place, name, leaseId⟩ := ontoSame l e.call.request
      have still : e.rows.Leases (e.call.request.onto l) :=
        ⟨r', by rw [place, name]; exact left, by rw [leaseId]; exact active⟩
      rcases ih later still with ⟨x, mem, settles⟩ | ⟨before, x, after, now, duration, task, rfl, rest⟩ | leases
      · refine .inl ⟨x, List.mem_cons_of_mem e mem, ?_⟩
        revert settles
        unfold Request.Settles Same
        rw [place, name, leaseId]
        exact id
      · rw [place, name] at rest
        exact .inr (.inl ⟨e :: before, x, after, now, duration, task, rfl, rest⟩)
      · exact .inr (.inr leases)

theorem pendingTurn (turn : Turn call queue id (some r) left) (pending : r.state = .pending) :
    (∃ now duration t, call = ⟨.lease queue now duration, .granted (some t)⟩ ∧ t.record.id = id ∧
      r.notBefore ≤ now) ∨ left = some r := by
  have apart {leaseId expiry} (h : r.state = .active leaseId expiry) : False := by
    rw [pending] at h
    cases h
  cases turn with
  | kept other => exact .inr rfl
  | granted place' ready due grants =>
    rw [TaskRecord.readyAt, pending] at ready
    cases ready
    exact .inl ⟨_, _, _, rfl, rfl, due⟩
  | lost other active expired => exact (apart active).elim
  | extended active => exact (apart active).elim
  | acknowledged active => exact (apart active).elim
  | retried active => exact (apart active).elim
  | archived active => exact (apart active).elim

theorem pendingTrace (h : Traced s log) (awaits : s.Awaits queue id date) :
    HandedOut queue id date log ∨ (rowsAfter s log).Awaits queue id date := by
  induction log generalizing s with
  | nil => exact .inr awaits
  | cons e log ih =>
    obtain ⟨turns, later⟩ := h
    obtain ⟨r, stored, pending, rfl⟩ := awaits
    have turn := turns queue id
    rw [stored] at turn
    rcases pendingTurn turn pending with ⟨now, duration, t, call, same, due⟩ | left
    · exact .inl ⟨e, List.mem_cons_self, now, duration, t, call, same, due⟩
    · rcases ih later ⟨r, left, pending, rfl⟩ with ⟨x, mem, given⟩ | awaits
      · exact .inl ⟨x, List.mem_cons_of_mem e mem, given⟩
      · exact .inr awaits

theorem underTurn (turn : Turn call l.queue l.taskId held left) (under : call.request.under? = some l) :
    ∃ r expiry, held = some r ∧ r.state = .active l.leaseId expiry := by
  generalize place : l.queue = queue, name : l.taskId = id at turn
  cases turn with
  | kept other =>
    rw [← place, ← name] at other
    exact absurd (namesUnder under) other
  | enqueued => cases under
  | granted place' ready due grants => cases under
  | lost other active expired => cases under
  | extended active => cases under; exact ⟨_, _, rfl, active⟩
  | acknowledged active => cases under; exact ⟨_, _, rfl, active⟩
  | retried active => cases under; exact ⟨_, _, rfl, active⟩
  | archived active => cases under; exact ⟨_, _, rfl, active⟩

end Broker
end Teller
