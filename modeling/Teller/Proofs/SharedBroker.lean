import Teller.Proofs.QueueHistory

/-! Any number of workers with one broker, each with the transaction of one call at a time, and
everything they do in any order. A call has come to an end when its transaction commits; one that conflicts
is begun again. -/
namespace Teller
open Broker
open Transaction (Underway)

structure PendingCall where
  request : Request
  rest : Body Empty Empty Reply

structure SharedBroker where
  limits : ArchiveLimits
  shared : SharedDatabase
  pendingCalls : Nat → Option PendingCall := fun _ => none
  log : List Entry := []

namespace SharedBroker

inductive Move where
  | begin (who : Nat) (request : Request)
  | act (who : Nat) (drawn : Uuid)
  | commit (who : Nat)
  | leave (who : Nat)
  | checkpoint
  | block (on : Bool)

def start (limits : ArchiveLimits) (db : Database) : SharedBroker := { limits, shared := .start db }

def step (c : SharedBroker) : Move → SharedBroker
  | .begin who request => { c with
      shared := c.shared.step (.begin who)
      pendingCalls := setAt c.pendingCalls who (some ⟨request, request.body c.limits⟩) }
  | .act who drawn => match c.pendingCalls who, c.shared.underway who with
    | some ⟨request, .fresh next⟩, _ =>
        { c with pendingCalls := setAt c.pendingCalls who (some ⟨request, next drawn⟩) }
    | some ⟨request, rest⟩, some v => match rest.ask with
      | some op => { c with
          shared := c.shared.step (.act who op)
          pendingCalls := setAt c.pendingCalls who
            (some ⟨request, rest.told (v.txn.perform c.shared.db.state op).1⟩) }
      | none => c
    | _, _ => c
  | .commit who => match c.pendingCalls who, c.shared.underway who with
    | some ⟨request, rest⟩, some v => match rest.result? with
      | some reply =>
          let (committed, db) := c.shared.db.commit v.txn
          { c with
            shared := c.shared.step (.commit who)
            pendingCalls := setAt c.pendingCalls who none
            log := match committed with
              | .ok () => c.log ++ [⟨⟨request, reply⟩, db.state⟩]
              | .error _ => c.log }
      | none => c
    | _, _ => c
  | .leave who => { c with shared := c.shared.step (.leave who), pendingCalls := setAt c.pendingCalls who none }
  | .checkpoint => { c with shared := c.shared.step .checkpoint }
  | .block on => { c with shared := c.shared.step (.block on) }

def run (c : SharedBroker) (moves : List Move) : SharedBroker := moves.foldl step c

def Completes (c : SharedBroker) (who : Nat) (call : Call) : Prop := ∃ rest v,
  c.pendingCalls who = some ⟨call.request, rest⟩ ∧ c.shared.underway who = some v ∧
    rest.result? = some call.reply ∧ (c.shared.db.commit v.txn).1 = .ok ()

def Fits (limits : ArchiveLimits) (x : PendingCall) (ongoing : Option Underway) : Prop :=
  ∃ v, ongoing = some v ∧ Work.Progress (x.request.body limits) x.rest v

structure Sound (first : State) (c : SharedBroker) : Prop where
  kept : c.shared.Kept
  works : ∀ who x, c.pendingCalls who = some x → Fits c.limits x (c.shared.underway who)
  filed : c.shared.db.state.Filed
  rows : rowsAfter first c.log = c.shared.db.state
  traced : Traced first c.log

variable {first : State} {c : SharedBroker} {who : Nat} {call : Call}

theorem soundStart (limits : ArchiveLimits) {db : Database} (opened : db.Opened) (filed : db.state.Filed) :
    (start limits db).Sound db.state where
  kept := SharedDatabase.keptStart opened
  works _ _ h := by cases h
  filed := filed
  rows := rfl
  traced := trivial

theorem worksWith (h : c.Sound first) {shared : SharedDatabase} {working : Option PendingCall}
    (others : ∀ other, other ≠ who → shared.underway other = c.shared.underway other)
    (own : ∀ x, working = some x → Fits c.limits x (shared.underway who)) (other : Nat) (x : PendingCall)
    (found : setAt c.pendingCalls who working other = some x) : Fits c.limits x (shared.underway other) := by
  by_cases here : other = who
  · subst here
    rw [setAtSelf] at found
    exact own x found
  · rw [setAtOther here] at found
    rw [others other here]
    exact h.works other x found

theorem soundAside (h : c.Sound first) {shared : SharedDatabase} {working : Option PendingCall} (kept : shared.Kept)
    (same : shared.db.state = c.shared.db.state)
    (others : ∀ other, other ≠ who → shared.underway other = c.shared.underway other)
    (own : ∀ x, working = some x → Fits c.limits x (shared.underway who)) :
    Sound first { c with shared, pendingCalls := setAt c.pendingCalls who working } where
  kept := kept
  works := worksWith h others own
  filed := by dsimp only; rw [same]; exact h.filed
  rows := by dsimp only; rw [same]; exact h.rows
  traced := h.traced

theorem commitTurn (h : c.Sound first) {request : Request} {rest : Body Empty Empty Reply} {reply : Reply}
    {v : Underway}
    (working : c.pendingCalls who = some ⟨request, rest⟩) (ongoing : c.shared.underway who = some v)
    (ended : rest.result? = some reply) (ok : (c.shared.db.commit v.txn).1 = .ok ()) :
    (c.shared.db.commit v.txn).2.state.Filed ∧ ∀ queue id, Turn ⟨request, reply⟩ queue id
      (c.shared.db.state.queued queue id) ((c.shared.db.commit v.txn).2.state.queued queue id) := by
  obtain ⟨v', ongoing', progress⟩ := h.works who _ working
  obtain rfl : v = v' := Option.some.inj (ongoing.symm.trans ongoing')
  obtain rfl := Work.resultIff.mp ended
  exact turn h.filed (fun r => Database.valueAfterCommit ok r) (Work.endsCommitted h.kept ongoing progress ok)

theorem soundAct (h : c.Sound first) (who : Nat) (drawn : Uuid) : (c.step (.act who drawn)).Sound first := by
  simp only [step]
  split
  · rename_i request next working
    obtain ⟨v, ongoing, progress⟩ := h.works who _ working
    refine soundAside h h.kept rfl (fun _ _ => rfl) ?_
    intro _ same
    cases same
    exact ⟨v, ongoing, Work.progressDrew progress drawn⟩
  · rename_i request rest v _ working ongoing
    split
    · rename_i op asked
      obtain ⟨v', ongoing', progress⟩ := h.works who _ working
      obtain rfl : v = v' := Option.some.inj (ongoing.symm.trans ongoing')
      refine soundAside h (SharedDatabase.keptStep h.kept (.act who op)) ?_ ?_ ?_
      · simp only [SharedDatabase.step, ongoing]
      · intro other apart
        simp only [SharedDatabase.step, ongoing, setAtOther apart]
      · intro _ same
        cases same
        simp only [SharedDatabase.step, ongoing, setAtSelf]
        exact ⟨_, rfl, Work.progressAct progress asked c.shared.db.state⟩
    · exact h
  · exact h

theorem soundCommit (h : c.Sound first) (who : Nat) : (c.step (.commit who)).Sound first := by
  simp only [step]
  split
  · rename_i request rest v working ongoing
    split
    · rename_i reply ended
      have others (other : Nat) (apart : other ≠ who) :
          (c.shared.step (.commit who)).underway other = c.shared.underway other := by
        simp only [SharedDatabase.step, ongoing, setAtOther apart]
      split
      · rename_i ok
        obtain ⟨filed, turns⟩ := commitTurn h working ongoing ended ok
        have committed : (c.shared.step (.commit who)).db = (c.shared.db.commit v.txn).2 := by
          simp only [SharedDatabase.step, ongoing]
        refine ⟨SharedDatabase.keptStep h.kept (.commit who), worksWith h others ?_, ?_, ?_, ?_⟩
        · intro _ same
          cases same
        · rw [← committed] at filed
          exact filed
        · rw [rowsAfter, List.foldl_append]
          exact congrArg Database.state committed.symm
        · refine tracedAppend.mpr ⟨h.traced, ?_, trivial⟩
          rw [h.rows]
          exact turns
      · rename_i cause failed
        refine soundAside h (SharedDatabase.keptStep h.kept (.commit who)) ?_ others ?_
        · simp only [SharedDatabase.step, ongoing]
          rw [Database.commitRefused failed]
        · intro _ same
          cases same
    · exact h
  · exact h

theorem soundStep (h : c.Sound first) (m : Move) : (c.step m).Sound first := by
  cases m with
  | begin who request =>
    refine soundAside h (SharedDatabase.keptStep h.kept (.begin who)) rfl ?_ ?_
    · intro other apart
      simp only [SharedDatabase.step, setAtOther apart]
    · intro _ same
      cases same
      simp only [SharedDatabase.step, setAtSelf]
      exact ⟨_, rfl, Work.progressBegin (keepsBody c.limits request) _⟩
  | act who drawn => exact soundAct h who drawn
  | commit who => exact soundCommit h who
  | leave who =>
    refine soundAside h (SharedDatabase.keptStep h.kept (.leave who)) rfl ?_ ?_
    · intro other apart
      simp only [SharedDatabase.step, setAtOther apart]
    · intro _ same
      cases same
  | checkpoint =>
    refine ⟨SharedDatabase.keptStep h.kept .checkpoint, h.works, ?_, ?_, h.traced⟩
    · simpa [step, SharedDatabase.step] using h.filed
    · simpa [step, SharedDatabase.step] using h.rows
  | block on =>
    refine ⟨SharedDatabase.keptStep h.kept (.block on), h.works, ?_, ?_, h.traced⟩
    · simpa [step, SharedDatabase.step] using h.filed
    · simpa [step, SharedDatabase.step] using h.rows

theorem soundRun (h : c.Sound first) (moves : List Move) : (c.run moves).Sound first := by
  induction moves generalizing c with
  | nil => exact h
  | cons m moves ih => exact ih (soundStep h m)

theorem completesActive (h : c.Sound first) (completes : c.Completes who call) {l : Lease}
    (under : call.request.under? = some l) : ∃ r expiry, c.shared.db.state.queued l.queue l.taskId = some r ∧
      r.state = .active l.leaseId expiry := by
  obtain ⟨rest, v, working, ongoing, ended, ok⟩ := completes
  obtain ⟨_, turns⟩ := commitTurn h working ongoing ended ok
  exact underTurn (turns l.queue l.taskId) under

/-- A lease is exclusive. A task is leased only when it may be, and from then on it is that lease's until it
is settled under it or taken over once the lease, as far as it was extended, has run out; what is done under
a lease finds the task active under it. -/
theorem leaseExclusive (limits : ArchiveLimits) {db : Database} (opened : db.Opened) (filed : db.state.Filed)
    (moves : List Move) :
    let c := (start limits db).run moves
    c.shared.db.state = rowsAfter db.state c.log ∧
    (∀ earlier e between rest, c.log = earlier ++ e :: (between ++ rest) →
      let found := rowsAfter db.state earlier
      let left := rowsAfter e.rows between
      (∀ queue now duration t, e.call = ⟨.lease queue now duration, .granted (some t)⟩ →
        (∃ r, found.queued queue t.record.id = some r ∧ r.Free now) ∧
        e.rows.queued queue t.record.id = some t.record ∧
        t.record.state = .active t.lease.leaseId t.lease.expiresAt ∧
        now.add? duration = some t.lease.expiresAt ∧ t.lease.queue = queue ∧ t.lease.taskId = t.record.id ∧
        (SettledUnder t.lease between ∨ TakenOver t.lease between ∨ left.Leases (extendedBy t.lease between))) ∧
      (∀ l, e.call.request.under? = some l → ∃ r expiry,
        found.queued l.queue l.taskId = some r ∧ r.state = .active l.leaseId expiry) ∧
      ∀ l runAt error, e.call.request = .retry l runAt error →
        HandedOut l.queue l.taskId runAt between ∨ left.Awaits l.queue l.taskId runAt) ∧
    ∀ who who' call call' l l', c.Completes who call → c.Completes who' call' →
      call.request.under? = some l → call'.request.under? = some l' →
      l.queue = l'.queue → l.taskId = l'.taskId → l.leaseId = l'.leaseId := by
  intro c
  have sound : c.Sound db.state := soundRun (soundStart limits opened filed) moves
  refine ⟨sound.rows.symm, fun earlier e between rest log => ?_, ?_⟩
  · have traced := sound.traced
    rw [log, tracedAppend] at traced
    obtain ⟨-, turns, later⟩ := traced
    have later := (tracedAppend.mp later).1
    refine ⟨fun queue now duration t call => ?_, fun l under => underTurn (turns _ _) under,
      fun l runAt error call => ?_⟩
    · have turn := turns queue t.record.id
      rw [call] at turn
      obtain ⟨free, stored, active, expires, place, name⟩ := grantedTurn turn
      have leases : e.rows.Leases t.lease := ⟨t.record, by rw [place, name]; exact stored, active⟩
      exact ⟨free, stored, active, expires, place, name, leasedTrace later leases⟩
    · obtain ⟨r, stored, pending, date⟩ := retriedTurn (turns _ _) call
      exact pendingTrace later ⟨r, stored, pending, date⟩
  · intro who who' call call' l l' one other under under' queue task
    obtain ⟨r, expiry, stored, active⟩ := completesActive sound one under
    obtain ⟨r', expiry', stored', active'⟩ := completesActive sound other under'
    rw [queue, task, stored'] at stored
    cases stored
    exact (TaskState.active.inj (active.symm.trans active')).1

def letter : TaskRecord := ⟨.versionFour 0, "send", [], "mail", 3, .epoch, 0, .pending, none, .epoch⟩

def minute : Span := ⟨60000, by decide⟩

def firstLease : Lease := ⟨letter.id, "mail", .versionFour 1, ⟨60000, by decide⟩⟩

def rivals : List Move :=
  let act (who : Nat) : Move := .act who (.versionFour who)
  [.begin 0 (.enqueue letter), act 0, act 0, act 0, .commit 0,
    .begin 1 (.lease "mail" .epoch minute), .begin 2 (.lease "mail" .epoch minute),
    act 1, act 1, act 1, act 2, act 2, act 2, .commit 1, .commit 2,
    .begin 1 (.extend firstLease ⟨90000, by decide⟩), act 1, act 1, .commit 1,
    .begin 2 (.lease "mail" ⟨80000, by decide⟩ minute), act 2, .commit 2]

theorem leaseExclusiveAmongRivals :
    let c := (start .standard .inMemory).run rivals
    let t : LeasedTask := ⟨{ letter with state := .active firstLease.leaseId firstLease.expiresAt }, firstLease⟩
    let longer : Lease := { firstLease with expiresAt := ⟨90000, by decide⟩ }
    ∃ earlier e between, c.log = earlier ++ e :: (between ++ []) ∧
      e.call = ⟨.lease "mail" .epoch minute, .granted (some t)⟩ ∧
      between.map (·.call.reply) = [.extended longer, .granted none] ∧
      (∃ r, (rowsAfter Database.inMemory.state earlier).queued "mail" letter.id = some r ∧ r.Free .epoch) ∧
      (rowsAfter e.rows between).Leases longer := by
  intro c t longer
  have calls : c.log.map (·.call) = [⟨.enqueue letter, .done⟩, ⟨.lease "mail" .epoch minute, .granted (some t)⟩,
      ⟨.extend firstLease longer.expiresAt, .extended longer⟩,
      ⟨.lease "mail" ⟨80000, by decide⟩ minute, .granted none⟩] := by decide +kernel
  simp only [List.map_eq_cons_iff, List.map_eq_nil_iff] at calls
  obtain ⟨e₀, _, log, _, e₁, _, rfl, granted, e₂, _, rfl, extended, e₃, _, rfl, refused, rfl⟩ := calls
  obtain ⟨_, exclusive, _⟩ := leaseExclusive .standard .inMemory (fun _ _ _ held => by cases held) rivals
  obtain ⟨free, _, _, _, _, _, tenure⟩ := (exclusive [e₀] e₁ [e₂, e₃] [] log).1 "mail" .epoch minute t granted
  refine ⟨[e₀], e₁, [e₂, e₃], log, granted, by simp [extended, refused], free, ?_⟩
  have kept : extendedBy firstLease [e₂] = longer := by
    simp [extendedBy, extended, Request.onto, Same, longer]
  rcases tenure with ⟨e, mem, settles⟩ | ⟨before, e, after, now, duration, task, split, call, late, _⟩ | leases
  · simp only [List.mem_cons, List.not_mem_nil, or_false] at mem
    rcases mem with rfl | rfl
    · rw [extended] at settles
      exact settles.elim
    · rw [refused] at settles
      exact settles.elim
  -- Only the second call leases, and it comes ten seconds too early.
  · rcases before with _ | ⟨x, _ | ⟨y, before⟩⟩
    · cases split
      rw [extended] at call
      cases call
    · cases split
      rw [refused] at call
      cases call
      rw [show t.lease = firstLease from rfl, kept] at late
      exact absurd late (by decide)
    · simp at split
  · have still : extendedBy firstLease [e₂, e₃] = longer := by
      simp [extendedBy, extended, refused, Request.onto, Same, longer]
    rw [show t.lease = firstLease from rfl, still] at leases
    exact leases

end SharedBroker
end Teller
