import Teller.Proofs.CallsInTurn
import Teller.Proofs.TaskPassages

/-! The broker loses no task and keeps none twice. Whatever was handed in is in its queue or in the queue's
archive from then on, unless it was acknowledged or the archive had no room for it any more. -/
namespace Teller
open Broker
open Transaction (Buffer)

namespace Broker

def Request.Handed (request : Request) : Prop :=
  ∀ r, request = .enqueue r → ∃ task now, TaskRecord.pending task now = .ok r

theorem pendingFresh {task : NewTask} {now : Moment} {r : TaskRecord} (fresh : TaskRecord.pending task now = .ok r) :
    r.state = .pending ∧ r.retried = 0 := by
  obtain ⟨-, pending, untried, -⟩ := TaskRecord.pendingMade fresh
  exact ⟨pending, untried⟩

def Passed (limits : ArchiveLimits) : State → List Entry → Prop
  | _, [] => True
  | s, e :: log =>
      (e.rows.committed.Tidy ∧ ∀ queue id, Passage limits s.committed e.call queue id
        (s.committed.stage queue id) (e.rows.committed.stage queue id)) ∧ Passed limits e.rows log

inductive Leaves (queue : String) (id : Uuid) (r : TaskRecord) : Request → Prop where
  | acknowledged {l expiry} (place : l.queue = queue) (name : l.taskId = id)
      (active : r.state = .active l.leaseId expiry) : Leaves queue id r (.acknowledge l)
  | archived {l now error expiry} (place : l.queue = queue) (name : l.taskId = id)
      (active : r.state = .active l.leaseId expiry) : Leaves queue id r (.archive l now error)
  | expired {now duration leaseId expiry} (active : r.state = .active leaseId expiry) (late : expiry ≤ now)
      (exhausted : r.isExhausted = true) : Leaves queue id r (.lease queue now duration)

def AcknowledgedIn (queue : String) (id : Uuid) (log : List Entry) : Prop :=
  ∃ e ∈ log, ∃ l : Lease, e.call.request = .acknowledge l ∧ l.queue = queue ∧ l.taskId = id

def Entry.Drops (limits : ArchiveLimits) (before : Rows) (queue : String) (id : Uuid) (e : Entry) : Prop :=
  ∃ k x, e.call.clearance? limits before = some k ∧ k.queue = queue ∧ x.id = id ∧ k.GivesUp x ∧
    e.rows.committed.stage queue id = .nowhere

def DroppedIn (limits : ArchiveLimits) (s : State) (queue : String) (id : Uuid) (log : List Entry) : Prop :=
  ∃ before e after, log = before ++ e :: after ∧ e.Drops limits (rowsAfter s before).committed queue id

variable {limits : ArchiveLimits} {s : State} {log later : List Entry} {call : Call} {queue : String} {id : Uuid}
  {rows : Rows} {stage stage' : Stage}

theorem passedAppend :
    Passed limits s (log ++ later) ↔ Passed limits s log ∧ Passed limits (rowsAfter s log) later := by
  induction log generalizing s with
  | nil => simp [Passed, rowsAfter]
  | cons e log ih =>
    rw [List.cons_append, Passed, ih, ← and_assoc]
    rfl

theorem passedInTurn (tidy : s.committed.Tidy) (inTurn : InTurn limits s log)
    (handed : ∀ e ∈ log, e.call.request.Handed) : Passed limits s log := by
  induction log generalizing s with
  | nil => trivial
  | cons e log ih =>
    obtain ⟨⟨own, ends, after⟩, inTurn⟩ := inTurn
    have step := passage tidy (fun r same => ?_) after ends
    · exact ⟨step, ih step.1 inTurn fun x mem => handed x (List.mem_cons_of_mem e mem)⟩
    · obtain ⟨task, now, fresh⟩ := handed e List.mem_cons_self r same
      exact .inl (pendingFresh fresh).1

theorem tidyAfter (tidy : s.committed.Tidy) (passed : Passed limits s log) : (rowsAfter s log).committed.Tidy := by
  induction log generalizing s with
  | nil => exact tidy
  | cons e log ih => exact ih passed.1.1 passed.2

theorem enqueuedPassage {r : TaskRecord} (asked : call.request = .enqueue r)
    (passage : Passage limits rows call r.queue r.id stage stage') : stage' ≠ .nowhere := by
  generalize place : r.queue = queue, name : r.id = id at passage
  cases passage with
  | still untouched => exact fun nowhere => untouched (.inr ⟨r, asked, place, name, nowhere⟩)
  | enqueued => simp
  | cleared clears =>
    obtain ⟨request, reply⟩ := call
    cases asked
    cases clears
  | _ => cases asked

theorem clearanceCases {k : Clearance} {r : TaskRecord} (clears : call.clearance? limits rows = some k)
    (gone : k.gone r) : k.before = rows ∧ Leaves k.queue r.id r call.request := by
  obtain ⟨request, reply⟩ := call
  cases request with
  | lease queue now duration =>
    cases clears
    obtain ⟨lost, leaseId, expiry, active, late⟩ := gone
    exact ⟨rfl, .expired active late (by simpa only [isLost, active] using lost)⟩
  | archive l now error =>
    cases clears
    obtain ⟨name, expiry, active⟩ := gone
    exact ⟨rfl, .archived rfl name.symm active⟩
  | enqueue | extend | acknowledge | retry => cases clears

theorem leavesPassage {r : TaskRecord} (passage : Passage limits rows call queue r.id (.queued r) stage)
    (gone : ∀ x, stage ≠ .queued x) : Leaves queue r.id r call.request := by
  generalize name : r.id = id at passage
  cases passage with
  | still => exact absurd rfl (gone r)
  | granted => exact absurd rfl (gone _)
  | extended => exact absurd rfl (gone _)
  | acknowledged active => exact .acknowledged rfl rfl active
  | retried => exact absurd rfl (gone _)
  | cleared clears other moves =>
    subst name
    cases moves with
    | shelved gone | passed gone => exact (clearanceCases clears ‹_›).2

theorem gonePassage {e : Entry} (passage : Passage limits rows e.call queue id (rows.stage queue id)
    (e.rows.committed.stage queue id)) (tidy : rows.Tidy) (there : rows.stage queue id ≠ .nowhere) :
    e.rows.committed.stage queue id ≠ .nowhere ∨
      (∃ l : Lease, e.call.request = .acknowledge l ∧ l.queue = queue ∧ l.taskId = id) ∨
      e.Drops limits rows queue id := by
  have stands := Rows.tidyStands tidy queue id
  generalize called : e.call = call, before : rows.stage queue id = stage,
    after : e.rows.committed.stage queue id = stage' at passage there stands ⊢
  cases passage with
  | still => exact .inl there
  | enqueued => exact absurd rfl there
  | granted | extended | retried => exact .inl (by simp)
  | @acknowledged l => exact .inr (.inl ⟨l, rfl, rfl, rfl⟩)
  | cleared clears other moves =>
    rw [← called] at clears
    cases moves with
    | shelved => exact .inl (by simp)
    | @passed r _ gives => exact .inr (.inr ⟨_, shelved _ _ r, clears, rfl, stands.2.2.2.1, gives, after⟩)
    | dropped gives => exact .inr (.inr ⟨_, _, clears, rfl, stands.2.2.2.1, gives, after⟩)

theorem accounted (tidy : s.committed.Tidy) (passed : Passed limits s log)
    (there : s.committed.stage queue id ≠ .nowhere) :
    (rowsAfter s log).committed.stage queue id ≠ .nowhere ∨ AcknowledgedIn queue id log ∨
      DroppedIn limits s queue id log := by
  induction log generalizing s with
  | nil => exact .inl there
  | cons e log ih =>
    obtain ⟨⟨left, passage⟩, passed⟩ := passed
    rcases gonePassage (passage queue id) tidy there with still | acknowledged | drops
    · rcases ih left passed still with still | ⟨x, mem, acknowledged⟩ | ⟨before, x, after, rfl, drops⟩
      · exact .inl still
      · exact .inr (.inl ⟨x, List.mem_cons_of_mem e mem, acknowledged⟩)
      · exact .inr (.inr ⟨e :: before, x, after, rfl, drops⟩)
    · exact .inr (.inl ⟨e, List.mem_cons_self, acknowledged⟩)
    · exact .inr (.inr ⟨[], e, log, rfl, drops⟩)

end Broker

namespace SharedBroker

/-- No task is lost or kept twice: a queue and its archive have none in common, and a task that was handed in
is in one of the two until it is acknowledged or the archive gives it up. It leaves its queue only when it is
acknowledged, when it is archived, or when its lease runs out at the last attempt. -/
theorem tasksAccountedFor (limits : ArchiveLimits) {db : Database} (opened : db.Opened)
    (tidy : db.state.committed.Tidy) (moves : List Move)
    (asks : ∀ who request, .begin who request ∈ moves → request.Handed) :
    let c := (start limits db).run moves
    c.shared.db.state = rowsAfter db.state c.log ∧
    (∀ earlier later, c.log = earlier ++ later → (rowsAfter db.state earlier).committed.Tidy) ∧
    ∀ earlier e later, c.log = earlier ++ e :: later →
      (∀ r, e.call.request = .enqueue r →
        c.shared.db.state.value? (queueRow r) ≠ none ∨ c.shared.db.state.value? (archiveRow r) ≠ none ∨
        AcknowledgedIn r.queue r.id later ∨ DroppedIn limits e.rows r.queue r.id later) ∧
      ∀ queue key value, (rowsAfter db.state earlier).value? ⟨queueTable queue, key⟩ = some value →
        e.rows.value? ⟨queueTable queue, key⟩ = none →
        ∃ r, value = Json.encode TaskRecord.codec r ∧ r.id.key = key ∧ Leaves queue r.id r e.call.request := by
  intro c
  obtain ⟨rows, inTurn, logged⟩ := runInTurn limits opened (filedTidy tidy) (fun _ _ _ => id)
    (askingAlways asks (start limits db))
  have passed : Passed limits db.state c.log := passedInTurn tidy inTurn fun e mem => by
    obtain ⟨earlier, later, split⟩ := List.append_of_mem mem
    exact logged earlier e later split
  refine ⟨rows.symm, fun earlier later log => ?_, fun earlier e later log => ?_⟩
  · rw [log, passedAppend] at passed
    exact tidyAfter tidy passed.1
  rw [log, passedAppend] at passed
  obtain ⟨before, ⟨left, passages⟩, behind⟩ := passed
  have found := tidyAfter tidy before
  refine ⟨fun r asked => ?_, fun queue key value held gone => ?_⟩
  · rcases accounted left behind (enqueuedPassage asked (passages r.queue r.id)) with still | gone
    · have last : c.shared.db.state = rowsAfter e.rows later := by
        rw [← rows, log, rowsAfter, List.foldl_append]
        rfl
      have stands := Rows.tidyStands (tidyAfter left behind) r.queue r.id
      rw [last]
      cases stage : (rowsAfter e.rows later).committed.stage r.queue r.id with
      | nowhere => exact absurd stage still
      | queued x =>
        rw [stage] at stands
        exact .inl (Option.ne_none_iff_exists'.mpr ⟨_, stands.1⟩)
      | archived x =>
        rw [stage] at stands
        exact .inr (.inl (Option.ne_none_iff_exists'.mpr ⟨_, stands.2.1⟩))
    · exact .inr (.inr gone)
  · obtain ⟨r, rfl, rfl, place, -⟩ := found.queue queue key value held
    have passage := passages queue r.id
    rw [(Rows.queuedIff found).mpr held] at passage
    exact ⟨r, rfl, rfl, leavesPassage passage ((Rows.unqueuedIff left).mp gone)⟩

def letterTask : NewTask := ⟨letter.id, letter.type, letter.payload, ⟨letter.queue, letter.maxRetry, none, none⟩⟩

def sentBack : List Move :=
  let act (who : Nat) : Move := .act who (.versionFour who)
  [.begin 0 (.enqueue letter), act 0, act 0, act 0, .commit 0,
    .begin 1 (.lease "mail" .epoch minute), act 1, act 1, act 1, .commit 1,
    .begin 1 (.archive firstLease .epoch "sent back"), act 1, act 1, act 1, act 1, act 1, .commit 1]

theorem tasksAccountedForWithoutRoom :
    let limits : ArchiveLimits := ⟨0, minute⟩
    let c := (start limits .inMemory).run sentBack
    let t : LeasedTask := ⟨{ letter with state := .active firstLease.leaseId firstLease.expiresAt }, firstLease⟩
    ∃ e later, c.log = e :: later ∧ e.call.request = .enqueue letter ∧
      later.map (·.call) = [⟨.lease "mail" .epoch minute, .granted (some t)⟩,
        ⟨.archive firstLease .epoch "sent back", .done⟩] ∧
      DroppedIn limits e.rows "mail" letter.id later := by
  intro limits c t
  have handed : ∀ who request, .begin who request ∈ sentBack → request.Handed := by
    rintro who request mem r rfl
    obtain ⟨rfl, rfl⟩ : who = 0 ∧ r = letter := by simpa [sentBack] using mem
    exact ⟨letterTask, .epoch, by decide⟩
  have nothing : Database.inMemory.state.committed.Tidy := ⟨nofun, nofun, fun _ _ => .inl rfl⟩
  obtain ⟨-, -, fate⟩ := tasksAccountedFor limits .inMemory nothing sentBack handed
  obtain ⟨calls, queued, archived⟩ : c.log.map (·.call) = [⟨.enqueue letter, .done⟩,
      ⟨.lease "mail" .epoch minute, .granted (some t)⟩, ⟨.archive firstLease .epoch "sent back", .done⟩] ∧
      ((start limits .inMemory).run sentBack).shared.db.state.value? (queueRow letter) = none ∧
      ((start limits .inMemory).run sentBack).shared.db.state.value? (archiveRow letter) = none := by
    decide +kernel
  obtain ⟨e, later, log, enqueued, rest⟩ := List.map_eq_cons_iff.mp calls
  have asked : e.call.request = .enqueue letter := by rw [enqueued]
  refine ⟨e, later, log, asked, rest, ?_⟩
  rcases (fate [] e later log).1 letter asked with there | there | ⟨x, mem, l, acknowledges, -⟩ | dropped
  · exact absurd queued there
  · exact absurd archived there
  · have call : x.call ∈ later.map (·.call) := List.mem_map_of_mem mem
    rw [rest] at call
    simp only [List.mem_cons, List.not_mem_nil, or_false] at call
    rcases call with called | called
    · rw [called] at acknowledges
      cases acknowledges
    · rw [called] at acknowledges
      cases acknowledges
  · exact dropped

end SharedBroker
end Teller
