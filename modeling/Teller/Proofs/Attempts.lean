import Mathlib.Data.List.Nodup
import Teller.Proofs.Workers

/-! How often a task is tried. Whichever way an attempt fails, with its handler, too late or with its worker, it
is counted once. -/
namespace Teller
open Broker

namespace Broker
variable {limits : ArchiveLimits} {log more : List Entry} {e : Entry} {rows : Rows} {queue : String} {id : Uuid}
  {r : TaskRecord} {t : LeasedTask}

def attempts (id : Uuid) (log : List Entry) : List LeasedTask := (grantedIn log).filter (·.record.id = id)

theorem attemptsSame (other : ∀ t, e.call.granted? = some t → t.record.id ≠ id) :
    attempts id (log ++ [e]) = attempts id log := by
  rw [attempts, grantedAppend, List.filter_append, attempts]
  cases given : e.call.granted? with
  | none => simp [grantedIn, given]
  | some t => simp [grantedIn, given, other t given]

theorem attemptsMore (given : e.call.granted? = some t) :
    attempts t.record.id (log ++ [e]) = attempts t.record.id log ++ [t] := by
  rw [attempts, grantedAppend, List.filter_append, attempts]
  simp [grantedIn, given]

structure Tally (log : List Entry) (r : TaskRecord) : Prop where
  bounded : r.retried ≤ r.maxRetry
  handed : ∃ first ∈ handedIn log, first.id = r.id ∧ first.queue = r.queue ∧ first.maxRetry = r.maxRetry
  pending : r.state = .pending → (attempts r.id log).length = r.retried.toNat
  active : ∀ leaseId expiry, r.state = .active leaseId expiry →
    (attempts r.id log).length = r.retried.toNat + 1 ∧ ∀ t ∈ attempts r.id log, t.lease.leaseId = leaseId →
      t.record.retried = r.retried ∧ t.record.maxRetry = r.maxRetry

structure Counted (log : List Entry) (rows : Rows) : Prop where
  queued : ∀ queue id r, rows.stage queue id = .queued r → Tally log r
  known : ∀ queue id, rows.stage queue id ≠ .nowhere → ∃ r ∈ handedIn log, r.queue = queue ∧ r.id = id
  numbered : ∀ id, (attempts id log).map (·.record.retried.toNat) = List.range (attempts id log).length
  copied : ∀ t ∈ grantedIn log, t.lease.taskId = t.record.id ∧ t.record.retried ≤ t.record.maxRetry ∧
    ∃ r ∈ handedIn log, r.id = t.record.id ∧ r.maxRetry = t.record.maxRetry

theorem countUp {a b : UInt32} (less : a < b) : (a + 1).toNat = a.toNat + 1 ∧ a + 1 ≤ b := by
  have bound := b.toNat_lt
  have less : a.toNat < b.toNat := less
  have sum : (a + 1).toNat = a.toNat + 1 := by
    rw [UInt32.toNat_add]
    exact Nat.mod_eq_of_lt (by simp; omega)
  exact ⟨sum, UInt32.le_iff_toNat_le.mpr (by omega)⟩

theorem attemptsLeft {r : TaskRecord} (left : r.isExhausted = false) : r.retried < r.maxRetry := by
  simpa [TaskRecord.isExhausted] using left

theorem tallyReclaimed (h : Tally log r) (live : r.Live) (kept : isLost r = false) :
    (reclaimed r).retried.toNat = (attempts r.id log).length ∧ (reclaimed r).retried ≤ r.maxRetry ∧
      (reclaimed r).maxRetry = r.maxRetry := by
  rcases live with pending | ⟨leaseId, expiry, active⟩
  · have same : reclaimed r = r := by simp only [reclaimed, pending]
    rw [same]
    exact ⟨(h.pending pending).symm, h.bounded, rfl⟩
  · have left : r.isExhausted = false := by simpa only [isLost, active] using kept
    obtain ⟨sum, le⟩ := countUp (attemptsLeft left)
    rw [reclaimed, active]
    exact ⟨sum.trans (h.active leaseId expiry active).1.symm, le, rfl⟩

theorem drawnOnce (drawn : ((grantedIn (log ++ [e])).map (·.lease.leaseId)).Nodup) (given : e.call.granted? = some t)
    {t' : LeasedTask} (mem : t' ∈ grantedIn log) : t'.lease.leaseId ≠ t.lease.leaseId := by
  have last : grantedIn [e] = [t] := by simp [grantedIn, given]
  rw [grantedAppend, last, List.map_append] at drawn
  exact fun same => (List.nodup_append.mp drawn).2.2 _ (List.mem_map_of_mem mem) _ (by simp) same

theorem grantsRecord {now : Moment} {duration : Span} (grants : Grants now duration r t) :
    t.record.id = r.id ∧ t.record.queue = r.queue ∧ t.record.retried = (reclaimed r).retried ∧
      t.record.maxRetry = (reclaimed r).maxRetry ∧ t.record.state = .active t.lease.leaseId t.lease.expiresAt ∧
      t.lease.taskId = t.record.id := by
  obtain ⟨id, queue⟩ := reclaimedRow r
  obtain ⟨leaseId, expiresAt, -, rfl⟩ := grants
  exact ⟨id, queue, rfl, rfl, rfl, id.symm⟩

theorem tallyHanded (h : Tally log r) {x : TaskRecord} (id : x.id = r.id) (queue : x.queue = r.queue)
    (maxRetry : x.maxRetry = r.maxRetry) :
    ∃ first ∈ handedIn (log ++ more), first.id = x.id ∧ first.queue = x.queue ∧ first.maxRetry = x.maxRetry := by
  obtain ⟨first, mem, name, place, limit⟩ := h.handed
  exact ⟨first, handedLater mem, name.trans id.symm, place.trans queue.symm, limit.trans maxRetry.symm⟩

theorem tallyGranted {now : Moment} {duration : Span} (h : Tally log r) (live : r.Live) (kept : isLost r = false)
    (grants : Grants now duration r t) (given : e.call.granted? = some t)
    (drawn : ((grantedIn (log ++ [e])).map (·.lease.leaseId)).Nodup) : Tally (log ++ [e]) t.record := by
  obtain ⟨count, le, most⟩ := tallyReclaimed h live kept
  obtain ⟨id, queue, retried, maxRetry, active, -⟩ := grantsRecord grants
  have more : attempts t.record.id (log ++ [e]) = attempts t.record.id log ++ [t] := attemptsMore given
  refine ⟨?_, tallyHanded h id queue (maxRetry.trans most), fun pending => ?_, fun leaseId expiry held => ?_⟩
  · rw [retried, maxRetry, most]
    exact le
  · rw [active] at pending
    cases pending
  · rw [active] at held
    cases held
    rw [more, id, retried, List.length_append, count]
    refine ⟨rfl, fun x mem same => ?_⟩
    rcases List.mem_append.mp mem with before | last
    · exact absurd same (drawnOnce drawn given (List.mem_filter.mp before).1)
    · cases List.mem_singleton.mp last
      exact ⟨retried, rfl⟩

theorem tallyKept (h : Tally log r) {x : TaskRecord} (record : x.id = r.id ∧ x.queue = r.queue ∧
    x.retried = r.retried ∧ x.maxRetry = r.maxRetry) (state : x.state = r.state ∨ ∃ leaseId expiry expiry',
      r.state = .active leaseId expiry ∧ x.state = .active leaseId expiry')
    (other : ∀ t, e.call.granted? = some t → t.record.id ≠ r.id) : Tally (log ++ [e]) x := by
  obtain ⟨id, queue, retried, maxRetry⟩ := record
  have same : attempts x.id (log ++ [e]) = attempts r.id log := by rw [id, attemptsSame other]
  refine ⟨?_, tallyHanded h id queue maxRetry, fun pending => ?_, fun leaseId expiry active => ?_⟩
  · rw [retried, maxRetry]
    exact h.bounded
  · rcases state with state | ⟨_, _, _, _, active⟩
    · rw [same, retried]
      exact h.pending (state.symm.trans pending)
    · rw [active] at pending
      cases pending
  · rw [same, retried, maxRetry]
    rcases state with state | ⟨leaseId', expiry', _, before, after⟩
    · exact h.active leaseId expiry (state.symm.trans active)
    · rw [active] at after
      cases after
      exact h.active leaseId expiry' before

theorem tallyRetried (h : Tally log r) {l : Lease} {expiry runAt : Moment} {error : String}
    (active : r.state = .active l.leaseId expiry) (name : r.id = l.taskId) (worked : Worked log (.retry l runAt error))
    (copied : ∀ t ∈ grantedIn log, t.lease.taskId = t.record.id)
    (other : ∀ t, e.call.granted? = some t → t.record.id ≠ r.id) :
    Tally (log ++ [e]) { r with
      retried := r.retried + 1, notBefore := runAt, state := .pending, lastError := some error } := by
  obtain ⟨t, given, same, left⟩ := retryWorked worked
  have mem : t ∈ attempts r.id log := by
    refine List.mem_filter.mpr ⟨given, decide_eq_true ?_⟩
    rw [← copied t given, name, same.2.1]
  obtain ⟨count, copies⟩ := h.active l.leaseId expiry active
  obtain ⟨retried, maxRetry⟩ := copies t mem same.2.2.symm
  have less := attemptsLeft left
  rw [retried, maxRetry] at less
  obtain ⟨sum, le⟩ := countUp less
  refine ⟨le, tallyHanded h rfl rfl rfl, fun _ => ?_, fun _ _ held => ?_⟩
  · dsimp only
    rw [attemptsSame other, count, sum]
  · cases held

theorem tallyFresh {task : NewTask} {now : Moment} (fresh : TaskRecord.pending task now = .ok r)
    (handed : r ∈ handedIn (log ++ [e])) (never : attempts r.id (log ++ [e]) = []) : Tally (log ++ [e]) r := by
  obtain ⟨pending, untried⟩ := pendingFresh fresh
  refine ⟨?_, ⟨r, handed, rfl, rfl, rfl⟩, fun _ => ?_, fun leaseId expiry active => ?_⟩
  · rw [untried]
    exact UInt32.zero_le
  · rw [never, untried]
    rfl
  · rw [pending] at active
    cases active

theorem sameHanded (once : ((handedIn log).map (·.id)).Nodup) {x y : TaskRecord} (mem : x ∈ handedIn log)
    (mem' : y ∈ handedIn log) (same : x.id = y.id) : x = y :=
  List.inj_on_of_nodup_map once mem mem' same

theorem grantedFrom (passages : ∀ queue id, Passage limits rows e.call queue id (rows.stage queue id)
    (e.rows.committed.stage queue id)) (given : e.call.granted? = some t) :
    ∃ queue r now duration, e.call.Names queue t.record.id ∧ rows.stage queue t.record.id = .queued r ∧
      isLost r = false ∧ Grants now duration r t := by
  obtain ⟨queue, now, duration, call⟩ := grantedCall given
  have passage := passages queue t.record.id
  rw [call] at passage
  generalize name : t.record.id = id at passage ⊢
  generalize before : rows.stage queue id = stage, e.rows.committed.stage queue id = stage' at passage
  cases passage with
  | still untouched => exact absurd (.inl ⟨rfl, name⟩) untouched
  | granted place ready due kept grants =>
    exact ⟨queue, _, now, duration, by rw [call]; exact ⟨rfl, name⟩, before, kept, grants⟩
  | cleared clears other => exact absurd name (other t rfl)

section
variable (h : Counted log rows)
  (passages : ∀ queue id, Passage limits rows e.call queue id (rows.stage queue id) (e.rows.committed.stage queue id))
  (once : ((handedIn (log ++ [e])).map (·.id)).Nodup)
include h passages once

theorem grantedPlace (given : e.call.granted? = some t) {place : String}
    (there : rows.stage place t.record.id ≠ .nowhere) : e.call.Names place t.record.id := by
  obtain ⟨queue, r, now, duration, named, queued, -⟩ := grantedFrom passages given
  obtain ⟨x, mem, rfl, name⟩ := h.known place t.record.id there
  obtain ⟨y, mem', rfl, name'⟩ := h.known queue t.record.id (by rw [queued]; simp)
  rw [sameHanded once (handedLater mem) (handedLater mem') (name.trans name'.symm)]
  exact named

theorem attemptsStill {place : String} (there : rows.stage place id ≠ .nowhere) (unnamed : ¬ e.call.Names place id) :
    ∀ t, e.call.granted? = some t → t.record.id ≠ id := by
  rintro t given rfl
  exact unnamed (grantedPlace h passages once given there)

omit passages in
theorem attemptsNever (handed : e.call.request.handed? = some r) : attempts r.id (log ++ [e]) = [] := by
  have last : handedIn [e] = [r] := by simp [handedIn, handed]
  rw [attemptsSame fun t given => ?_]
  · refine List.filter_eq_nil_iff.mpr fun t mem => ?_
    obtain ⟨-, -, first, mem, name, -⟩ := h.copied t mem
    rw [handedAppend, last, List.map_append] at once
    have apart := (List.nodup_append.mp once).2.2 _ (List.mem_map_of_mem mem) r.id (by simp)
    simpa only [decide_eq_true_eq, ← name] using apart
  · obtain ⟨queue, now, duration, call⟩ := grantedCall given
    rw [call] at handed
    cases handed

theorem tallyStep (tidy : rows.Tidy) (worked : Worked log e.call.request)
    (drawn : ((grantedIn (log ++ [e])).map (·.lease.leaseId)).Nodup) {place : String} {id : Uuid} {x : TaskRecord}
    (queued : e.rows.committed.stage place id = .queued x) : Tally (log ++ [e]) x := by
  have passage := passages place id
  have stands := Rows.tidyStands tidy place id
  have still : rows.stage place id ≠ .nowhere → ¬ e.call.Names place id → _ := attemptsStill h passages once
  have tally := h.queued place id
  generalize called : e.call = call, before : rows.stage place id = stage,
    after : e.rows.committed.stage place id = stage' at passage stands still tally queued
  subst queued
  cases passage with
  | still untouched =>
    refine tallyKept (tally x rfl) ⟨rfl, rfl, rfl, rfl⟩ (.inl rfl) ?_
    rw [called, show x.id = id from stands.2.2.2.1]
    exact still (by simp) fun named => untouched (.inl named)
  | enqueued =>
    rw [called] at worked
    obtain ⟨task, now, fresh⟩ := enqueueWorked worked
    have handed : e.call.request.handed? = some x := by
      rw [called]
      rfl
    exact tallyFresh fresh (handedLast handed) (attemptsNever h once handed)
  | granted own ready due kept grants =>
    refine tallyGranted (tally _ rfl) stands.2.2.2.2 kept grants ?_ drawn
    rw [called]
    rfl
  | extended active =>
    refine tallyKept (tally _ rfl) ⟨rfl, rfl, rfl, rfl⟩ (.inr ⟨_, _, _, active, rfl⟩) fun t given => ?_
    rw [called] at given
    cases given
  | retried active =>
    rw [called] at worked
    refine tallyRetried (tally _ rfl) active stands.2.2.2.1 worked (fun t mem => (h.copied t mem).1) fun t given => ?_
    rw [called] at given
    cases given
  | cleared clears other moves => cases moves

omit once in
theorem knownStep {place : String} (there : e.rows.committed.stage place id ≠ .nowhere) :
    ∃ r ∈ handedIn (log ++ [e]), r.queue = place ∧ r.id = id := by
  have passage := passages place id
  have known := h.known place id
  generalize called : e.call = call, rows.stage place id = stage, e.rows.committed.stage place id = stage'
    at passage known there
  have earlier (before : stage ≠ .nowhere) : ∃ r ∈ handedIn (log ++ [e]), r.queue = place ∧ r.id = id := by
    obtain ⟨r, mem, rest⟩ := known before
    exact ⟨r, handedLater mem, rest⟩
  cases passage with
  | still => exact earlier there
  | @enqueued r => exact ⟨r, handedLast (by rw [called]; rfl), rfl, rfl⟩
  | cleared clears other moves =>
    cases moves with
    | shelved => exact earlier (by simp)
    | passed | dropped => exact absurd rfl there
  | _ => exact earlier (by simp)

omit once in
theorem tallyGiven (tidy : rows.Tidy) (given : e.call.granted? = some t) :
    ∃ r now duration, Tally log r ∧ r.Live ∧ isLost r = false ∧ Grants now duration r t := by
  obtain ⟨queue, r, now, duration, -, queued, kept, grants⟩ := grantedFrom passages given
  have stands := Rows.tidyStands tidy queue t.record.id
  rw [queued] at stands
  exact ⟨r, now, duration, h.queued _ _ r queued, stands.2.2.2.2, kept, grants⟩

theorem countedStep (tidy : rows.Tidy) (worked : Worked log e.call.request)
    (drawn : ((grantedIn (log ++ [e])).map (·.lease.leaseId)).Nodup) : Counted (log ++ [e]) e.rows.committed := by
  refine ⟨fun place id x => tallyStep h passages once tidy worked drawn, fun place id => knownStep h passages,
    fun id => ?_, fun t mem => ?_⟩
  · by_cases here : ∃ t, e.call.granted? = some t ∧ t.record.id = id
    · obtain ⟨t, given, rfl⟩ := here
      obtain ⟨r, now, duration, tally, live, kept, grants⟩ := tallyGiven h passages tidy given
      obtain ⟨name, -, retried, -⟩ := grantsRecord grants
      have count := (tallyReclaimed tally live kept).1
      rw [← retried, ← name] at count
      rw [attemptsMore given, List.map_append, h.numbered, List.length_append, List.map_singleton, count]
      exact List.range_succ.symm
    · rw [attemptsSame fun t given same => here ⟨t, given, same⟩]
      exact h.numbered id
  · rw [grantedAppend] at mem
    rcases List.mem_append.mp mem with before | last
    · obtain ⟨name, le, first, there, rest⟩ := h.copied t before
      exact ⟨name, le, first, handedLater there, rest⟩
    · have given : e.call.granted? = some t := by simpa [grantedIn] using last
      obtain ⟨r, now, duration, tally, live, kept, grants⟩ := tallyGiven h passages tidy given
      obtain ⟨name, -, retried, maxRetry, -, task⟩ := grantsRecord grants
      obtain ⟨-, le, most⟩ := tallyReclaimed tally live kept
      obtain ⟨first, there, same, -, limit⟩ := tally.handed
      refine ⟨task, ?_, first, handedLater there, same.trans name.symm, limit.trans (maxRetry.trans most).symm⟩
      rw [retried, maxRetry, most]
      exact le

end

theorem attemptsAppend (id : Uuid) : attempts id (log ++ more) = attempts id log ++ attempts id more := by
  rw [attempts, grantedAppend, List.filter_append]
  rfl

theorem countedRun {s : State} {before : List Entry} (tidy : s.committed.Tidy) (h : Counted before s.committed)
    (passed : Passed limits s log)
    (worked : ∀ earlier e later, log = earlier ++ e :: later → Worked (before ++ earlier) e.call.request)
    (once : ((handedIn (before ++ log)).map (·.id)).Nodup)
    (drawn : ((grantedIn (before ++ log)).map (·.lease.leaseId)).Nodup) :
    Counted (before ++ log) (rowsAfter s log).committed := by
  induction log generalizing s before with
  | nil =>
    rw [List.append_nil]
    exact h
  | cons e log ih =>
    obtain ⟨⟨left, passages⟩, passed⟩ := passed
    rw [List.append_cons] at once drawn ⊢
    have first := worked [] e log rfl
    rw [List.append_nil] at first
    have step : Counted (before ++ [e]) e.rows.committed := by
      rw [handedAppend, List.map_append] at once
      rw [grantedAppend, List.map_append] at drawn
      exact countedStep h passages once.of_append_left tidy first drawn.of_append_left
    refine ih left step passed (fun earlier x later split => ?_) once drawn
    have asked := worked (e :: earlier) x later (by rw [split]; rfl)
    rwa [List.append_cons] at asked

theorem attemptsOver {s : State} (passed : Passed limits s log)
    (gone : ∀ queue x, s.committed.stage queue id ≠ .queued x) (handed : ∀ r ∈ handedIn log, r.id ≠ id) :
    attempts id log = [] := by
  induction log generalizing s with
  | nil => rfl
  | cons e log ih =>
    obtain ⟨⟨-, passages⟩, passed⟩ := passed
    rw [← List.singleton_append, handedAppend] at handed
    rw [← List.singleton_append, attemptsAppend, List.append_eq_nil_iff]
    refine ⟨?_, ih passed (fun queue x queued => ?_) fun r mem => handed r (List.mem_append_right _ mem)⟩
    · rw [← List.nil_append [e], attemptsSame]
      · rfl
      · rintro t given rfl
        obtain ⟨queue, r, now, duration, -, queued, -⟩ := grantedFrom passages given
        exact gone queue r queued
    · have passage := passages queue id
      have nowhere := gone queue
      rw [queued] at passage
      generalize called : e.call = call, s.committed.stage queue id = stage at passage nowhere
      cases passage with
      | still => exact nowhere x rfl
      | enqueued => exact handed x (List.mem_append_left _ (by simp [handedIn, called, Request.handed?])) rfl
      | cleared clears other moves => cases moves
      | _ => exact nowhere _ rfl

theorem attemptsWithin (h : Counted log rows) (once : ((handedIn log).map (·.id)).Nodup) (mem : r ∈ handedIn log) :
    (attempts r.id log).length ≤ r.maxRetry.toNat + 1 := by
  cases count : (attempts r.id log).length with
  | zero => exact Nat.zero_le _
  | succ n =>
    have inside : n < (attempts r.id log).length := by omega
    have number : (attempts r.id log)[n].record.retried.toNat = n := by
      have numbered := congrArg (fun l => l[n]?) (h.numbered r.id)
      simpa [inside] using numbered
    obtain ⟨given, name⟩ := List.mem_filter.mp (List.getElem_mem inside)
    obtain ⟨-, le, first, there, same, limit⟩ := h.copied _ given
    rw [sameHanded once there mem (same.trans (of_decide_eq_true name))] at limit
    have le : (attempts r.id log)[n].record.retried.toNat ≤ (attempts r.id log)[n].record.maxRetry.toNat := le
    rw [number, ← limit] at le
    omega

theorem finishedPassage {call : Call} {l : Lease} {stage stage' : Stage}
    (passage : Passage limits rows call l.queue l.taskId stage stage')
    (finishes : call.request = .acknowledge l ∨ ∃ now error, call.request = .archive l now error) :
    stage ≠ .nowhere ∧ ∀ x, stage' ≠ .queued x := by
  have named : call.Names l.queue l.taskId := by
    refine namesUnder ?_
    rcases finishes with asked | ⟨now, error, asked⟩ <;> rw [asked] <;> rfl
  generalize l.queue = queue, l.taskId = id at passage named
  cases passage with
  | still untouched => exact absurd (.inl named) untouched
  | acknowledged active => exact ⟨by simp, by simp⟩
  | cleared clears other moves => cases moves <;> exact ⟨by simp, by simp⟩
  | _ => simp at finishes

theorem queuedNowhere (tidy : rows.Tidy) (h : Counted log rows) (once : ((handedIn log).map (·.id)).Nodup)
    (mem : r ∈ handedIn log) (gone : rows (queueRow r) = none) (queue : String) (x : TaskRecord) :
    rows.stage queue r.id ≠ .queued x := by
  intro queued
  obtain ⟨y, there, rfl, same⟩ := h.known queue r.id (by rw [queued]; simp)
  rw [sameHanded once there mem same] at queued
  exact (Rows.unqueuedIff tidy).mp gone x queued

theorem countedNone {s : State} (fresh : ∀ queue key, s.value? ⟨queueTable queue, key⟩ = none ∧
    s.value? ⟨archiveTable queue, key⟩ = none) : s.committed.Tidy ∧ Counted [] s.committed := by
  have nowhere (queue : String) (id : Uuid) : s.committed.stage queue id = .nowhere :=
    Rows.stageOf (fresh queue id.key)
  refine ⟨⟨fun queue key value held => ?_, fun queue key value held => ?_, fun queue key => .inl (fresh queue key).1⟩,
    fun queue id r queued => ?_, fun queue id there => absurd (nowhere queue id) there, fun _ => rfl, ?_⟩
  · cases (fresh queue key).1.symm.trans held
  · cases (fresh queue key).2.symm.trans held
  · rw [nowhere] at queued
    cases queued
  · simp [grantedIn]

end Broker

namespace SharedBroker

/-- Attempts are bounded. Of a task that is handed in once, the failures are never more than it allows, it is
leased once more than that at most, each time with as many failures as it was leased before, and never again
after it was acknowledged or put away. -/
theorem attemptsBounded (limits : ArchiveLimits) {db : Database} (opened : db.Opened)
    (fresh : ∀ queue key, db.state.value? ⟨queueTable queue, key⟩ = none ∧
      db.state.value? ⟨archiveTable queue, key⟩ = none)
    (moves : List Move) (asks : Asking Worked (start limits db) moves) :
    let c := (start limits db).run moves
    ((handedIn c.log).map (·.id)).Nodup → ((grantedIn c.log).map (·.lease.leaseId)).Nodup →
    c.shared.db.state = rowsAfter db.state c.log ∧
    (∀ earlier later, c.log = earlier ++ later → ∀ queue key value,
      (rowsAfter db.state earlier).value? ⟨queueTable queue, key⟩ = some value →
        ∃ r, value = Json.encode TaskRecord.codec r ∧ r.retried ≤ r.maxRetry) ∧
    (∀ id, (attempts id c.log).map (·.record.retried.toNat) = List.range (attempts id c.log).length) ∧
    (∀ r ∈ handedIn c.log, (attempts r.id c.log).length ≤ r.maxRetry.toNat + 1) ∧
    ∀ earlier e later, c.log = earlier ++ e :: later →
      (∀ l, (e.call.request = .acknowledge l ∨ ∃ now error, e.call.request = .archive l now error) →
        attempts l.taskId later = []) ∧
      ∀ r ∈ handedIn (earlier ++ [e]), e.rows.value? (queueRow r) = none → attempts r.id later = [] := by
  intro c once drawn
  obtain ⟨tidy, begins⟩ := countedNone fresh
  obtain ⟨rows, inTurn, worked⟩ := runInTurn limits opened (filedTidy tidy) workedLater asks
  have passed : Passed limits db.state c.log := passedInTurn tidy inTurn fun e mem r asked => by
    obtain ⟨earlier, later, split⟩ := List.append_of_mem mem
    exact enqueueWorked (asked ▸ worked earlier e later split)
  have counted {earlier later : List Entry} (split : c.log = earlier ++ later) :
      Counted earlier (rowsAfter db.state earlier).committed ∧ (rowsAfter db.state earlier).committed.Tidy := by
    rw [split, passedAppend] at passed
    rw [split, handedAppend, List.map_append] at once
    rw [split, grantedAppend, List.map_append] at drawn
    refine ⟨countedRun tidy begins passed.1 (fun before e after part => ?_) once.of_append_left drawn.of_append_left,
      tidyAfter tidy passed.1⟩
    exact worked before e (after ++ later) (by rw [split, part, List.append_assoc]; rfl)
  have whole := (counted (List.append_nil c.log).symm).1
  refine ⟨rows.symm, fun earlier later split queue key value held => ?_, whole.numbered,
    fun r mem => attemptsWithin whole once mem, fun earlier e later split => ?_⟩
  · obtain ⟨count, tidy⟩ := counted split
    obtain ⟨r, rfl, rfl, -⟩ := tidy.queue queue key value held
    exact ⟨r, rfl, (count.queued queue r.id r ((Rows.queuedIff tidy).mpr held)).bounded⟩
  have next : c.log = (earlier ++ [e]) ++ later := by rw [split, List.append_assoc]; rfl
  obtain ⟨count, tidy⟩ := counted next
  rw [rowsAfter, List.foldl_append] at count tidy
  rw [next, passedAppend, passedAppend] at passed
  obtain ⟨⟨-, ⟨-, passages⟩, -⟩, behind⟩ := passed
  rw [next, handedAppend, List.map_append] at once
  have ended (r : TaskRecord) (mem : r ∈ handedIn (earlier ++ [e])) (gone : e.rows.value? (queueRow r) = none) :
      attempts r.id later = [] := by
    refine attemptsOver behind ?_ fun x there => ?_
    · rw [rowsAfter, List.foldl_append]
      exact queuedNowhere tidy count once.of_append_left mem gone
    · exact ((List.nodup_append.mp once).2.2 _ (List.mem_map_of_mem mem) _ (List.mem_map_of_mem there)).symm
  refine ⟨fun l finishes => ?_, ended⟩
  obtain ⟨there, left⟩ := finishedPassage (passages l.queue l.taskId) finishes
  obtain ⟨r, mem, place, name⟩ := (counted split).1.known l.queue l.taskId there
  rw [← place, ← name] at left
  rw [← name]
  exact ended r (handedLater mem) ((Rows.unqueuedIff tidy).mpr left)

def turn (who : Nat) (request : Request) (operations : Nat) : List Move :=
  .begin who request :: (List.replicate operations (.act who (.versionFour who)) ++ [.commit who])

theorem askingTurn {such : List Entry → Request → Prop} {c : SharedBroker} {request : Request} (ok : such c.log request)
    (who operations : Nat) : Asking such c (turn who request operations) := by
  refine ⟨fun _ _ same => by cases same; exact ok, askingAppend.mpr ⟨?_, (fun _ _ same => by cases same), trivial⟩⟩
  generalize c.step _ = c
  induction operations generalizing c with
  | zero => trivial
  | succ n ih => exact ⟨fun _ _ same => (by cases same), ih _⟩

def postcard : TaskRecord := { letter with maxRetry := 1 }

def postcardTask : NewTask := ⟨postcard.id, postcard.type, postcard.payload, ⟨postcard.queue, 1, none, none⟩⟩

def firstCopy : LeasedTask := ⟨{ postcard with state := .active firstLease.leaseId firstLease.expiresAt }, firstLease⟩

def secondCopy : LeasedTask :=
  let expiry : Moment := ⟨121000, by decide⟩
  ⟨{ postcard with retried := 1, state := .active (.versionFour 2) expiry, lastError := some leaseExpired },
    ⟨postcard.id, "mail", .versionFour 2, expiry⟩⟩

def latecomer : List Move :=
  let failed : Except TaskError Unit := .error (.retry "no stamp")
  turn 0 (.enqueue postcard) 3 ++ (turn 1 (.lease "mail" .epoch minute) 3 ++
    (turn 2 (.lease "mail" ⟨61000, by decide⟩ minute) 3 ++
      (turn 1 (firstCopy.settling failed ⟨71000, by decide⟩ ⟨81000, by decide⟩) 1 ++
        (turn 2 (secondCopy.settling failed ⟨91000, by decide⟩ ⟨92000, by decide⟩) 4 ++
          turn 1 (.lease "mail" ⟨301000, by decide⟩ minute) 1))))

theorem latecomerAsks : Asking Worked (start .standard .inMemory) latecomer := by
  refine askingAppend.mpr ⟨askingTurn (.handed (by decide : TaskRecord.pending postcardTask .epoch = _)) _ _, ?_⟩
  refine askingAppend.mpr ⟨askingTurn .polled _ _, askingAppend.mpr ⟨askingTurn .polled _ _, ?_⟩⟩
  refine askingAppend.mpr ⟨askingTurn (.settled ⟨firstCopy, by decide +kernel, rfl, rfl, rfl, rfl⟩) _ _, ?_⟩
  refine askingAppend.mpr ⟨askingTurn (.settled ⟨secondCopy, by decide +kernel, rfl, rfl, rfl, rfl⟩) _ _, ?_⟩
  exact askingTurn .polled _ _

theorem attemptsBoundedForLatecomer :
    let c := (start .standard .inMemory).run latecomer
    grantedIn c.log = [firstCopy, secondCopy] ∧ c.log.length = 5 ∧
      (attempts postcard.id c.log).length ≤ postcard.maxRetry.toNat + 1 := by
  have facts : grantedIn ((start .standard .inMemory).run latecomer).log = [firstCopy, secondCopy] ∧
      ((start .standard .inMemory).run latecomer).log.length = 5 ∧
      handedIn ((start .standard .inMemory).run latecomer).log = [postcard] := by
    decide +kernel
  obtain ⟨granted, calls, handed⟩ := facts
  obtain ⟨-, -, -, within, -⟩ := attemptsBounded .standard .inMemory (fun _ _ => ⟨rfl, rfl⟩) latecomer latecomerAsks
    (by rw [handed]; decide) (by rw [granted]; decide)
  exact ⟨granted, calls, within postcard (by rw [handed]; exact List.mem_singleton_self _)⟩

end SharedBroker
end Teller
