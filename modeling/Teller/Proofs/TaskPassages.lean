import Teller.Proofs.Clearances
import Teller.Proofs.QueueHistory

/-! What one call does to each task, wherever it is. -/
namespace Teller
open Broker
open Transaction (Buffer)

def State.committed (s : State) : Rows := s.value?

theorem State.committedAfter {s s' : State} {own : Buffer} (after : s.After own s') :
    s'.committed = s.amended own := funext after

namespace Broker
variable {s s' : State} {own own' : Buffer} {Event Answer : Type} {limits : ArchiveLimits} {queue : String}
  {now : Moment} {duration : Span}

def Spent (now : Moment) (r : TaskRecord) : Prop :=
  isLost r = true ∧ ∃ leaseId expiry, r.state = .active leaseId expiry ∧ expiry ≤ now

def Call.clearance? (limits : ArchiveLimits) (before : Rows) : Call → Option Clearance
  | ⟨.lease queue now _, _⟩ => some ⟨limits, before, queue, now, leaseExpired, Spent now⟩
  | ⟨.archive l now error, _⟩ => some ⟨limits, before, l.queue, now, error, fun r =>
      r.id = l.taskId ∧ ∃ expiry, r.state = .active l.leaseId expiry⟩
  | _ => none

def Call.Touches (call : Call) (queue : String) (id : Uuid) (stage : Stage) : Prop :=
  call.Names queue id ∨ ∃ r, call.request = .enqueue r ∧ r.queue = queue ∧ r.id = id ∧ stage = .nowhere

inductive Passage (limits : ArchiveLimits) (before : Rows) : Call → String → Uuid → Stage → Stage → Prop where
  | still {call queue id stage} (untouched : ¬ call.Touches queue id stage) :
      Passage limits before call queue id stage stage
  | enqueued {r} : Passage limits before ⟨.enqueue r, .done⟩ r.queue r.id .nowhere (.queued r)
  | granted {queue now duration r t date} (place : r.queue = queue) (ready : r.readyAt = some date)
      (due : date ≤ now) (kept : isLost r = false) (grants : Grants now duration r t) :
      Passage limits before ⟨.lease queue now duration, .granted (some t)⟩ queue t.record.id (.queued r)
        (.queued t.record)
  | extended {l deadline r expiry} (active : r.state = .active l.leaseId expiry) :
      Passage limits before ⟨.extend l deadline, .extended { l with expiresAt := deadline }⟩ l.queue l.taskId
        (.queued r) (.queued { r with state := .active l.leaseId deadline })
  | acknowledged {l r expiry} (active : r.state = .active l.leaseId expiry) :
      Passage limits before ⟨.acknowledge l, .done⟩ l.queue l.taskId (.queued r) .nowhere
  | retried {l runAt error r expiry} (active : r.state = .active l.leaseId expiry) :
      Passage limits before ⟨.retry l runAt error, .done⟩ l.queue l.taskId (.queued r) (.queued { r with
        retried := r.retried + 1, notBefore := runAt, state := .pending, lastError := some error })
  | cleared {call k id stage stage'} (clears : call.clearance? limits before = some k)
      (other : ∀ t, call.reply = .granted (some t) → t.record.id ≠ id) (moves : k.Moves stage stage') :
      Passage limits before call k.queue id stage stage'

theorem dueListed (now : Moment) {rows : Rows} (h : rows.Tidy) {table : SortedMap Bytes Bytes}
    (scan : ∀ key value, (key, value) ∈ table.entries ↔ rows ⟨queueTable queue, key⟩ = some value) :
    ∃ records, decodedRows table.entries = .ok records ∧ ((due now records).map (·.id)).Nodup ∧
      ∀ r ∈ due now records, rows.stage queue r.id = .queued r ∧ r.queue = queue ∧
        ∃ date, r.readyAt = some date ∧ date ≤ now := by
  obtain ⟨records, read, distinct, listed⟩ := Rows.tableListed scan fun key value held => by
    obtain ⟨r, written, own, -⟩ := h.queue queue key value held
    exact ⟨r, written, own⟩
  refine ⟨records, read, ?_, fun r mem => ?_⟩
  · rw [due, List.map_map]
    refine pickedDistinct distinct ?_ sooner
    rintro r ⟨date, x⟩ ready
    exact (readySinceIff.mp ready).1
  · obtain ⟨⟨date, x⟩, picked, rfl⟩ := List.mem_map.mp mem
    obtain ⟨r, there, ready⟩ := List.mem_filterMap.mp (List.mem_mergeSort.mp picked)
    obtain ⟨rfl, since, le⟩ := readySinceIff.mp ready
    have queued := (Rows.queuedIff h).mpr ((listed x).mp there)
    have stands := Rows.tidyStands h queue x.id
    rw [queued] at stands
    exact ⟨queued, stands.2.2.1, date, since, le⟩

theorem stageGranted {rows : Rows} {r : TaskRecord} {t : LeasedTask} (h : rows.Tidy)
    (queued : rows.stage queue r.id = .queued r) (grants : Grants now duration r t) :
    let after := rows.set (queueRow t.record) (some (Json.encode TaskRecord.codec t.record))
    after.Tidy ∧ ∀ place id, after.stage place id =
      if place = queue ∧ id = t.record.id then .queued t.record else rows.stage place id := by
  have stands := Rows.tidyStands h queue r.id
  rw [queued] at stands
  obtain rfl : r.queue = queue := stands.2.2.1
  obtain ⟨place, name⟩ : t.record.queue = r.queue ∧ t.record.id = r.id := queueRowIff.mp (grantsRow grants)
  obtain ⟨leaseId, expiresAt, -, granted⟩ := grants
  have live : t.record.Live := .inr ⟨leaseId, expiresAt, congrArg (fun t => t.record.state) granted⟩
  rw [← place, ← name] at stands
  rw [← place]
  exact Rows.tidyPut h (by simp) stands live

def Hands (k : Clearance) (duration : Span) (after : Rows) : Option LeasedTask → Prop
  | none => k.Reaches after
  | some t => ∃ rows r date, k.Reaches rows ∧ rows.stage k.queue r.id = .queued r ∧ r.queue = k.queue ∧
      r.readyAt = some date ∧ date ≤ k.now ∧ isLost r = false ∧ Grants k.now duration r t ∧
      after = rows.set (queueRow t.record) (some (Json.encode TaskRecord.codec t.record))

theorem handsFirst {k : Clearance} {ready : List TaskRecord} {task : Option LeasedTask}
    (spent : ∀ r, k.gone r ↔ Spent now r) (why : k.now = now ∧ k.error = leaseExpired ∧ k.limits = limits)
    (h : k.Reaches (s.amended own)) (distinct : (ready.map (·.id)).Nodup)
    (waits : ∀ r ∈ ready, (s.amended own).stage k.queue r.id = .queued r ∧ r.queue = k.queue ∧
      ∃ date, r.readyAt = some date ∧ date ≤ now)
    (ends : Work.Ends s own (leaseFirst limits now duration ready : Body Event Answer _) own' (.ok task)) :
    Hands k duration (s.amended own') task := by
  obtain ⟨rfl, error, rfl⟩ := why
  induction ready generalizing own with
  | nil =>
    obtain ⟨rfl, same⟩ := Work.endsDone ends
    cases same
    exact h
  | cons r rest ih =>
    obtain ⟨queued, place, date, since, le⟩ := waits r List.mem_cons_self
    rw [leaseFirstRun] at ends
    split at ends
    · rename_i lost
      rcases Work.endsBind ends with ⟨mid, _, away, later⟩ | ⟨_, failed, _⟩
      · obtain ⟨fresh, distinct⟩ := List.nodup_cons.mp distinct
        rw [← error] at away
        obtain ⟨reaches, -, stay⟩ := Clearance.reachesAway h ((spent r).mpr ⟨lost, lostActive lost since le⟩) place
          queued away
        refine ih reaches distinct (fun x mem => ?_) later
        obtain ⟨there, rest⟩ := waits x (List.mem_cons_of_mem r mem)
        exact ⟨stay _ _ _ (fun same => fresh (List.mem_map.mpr ⟨x, mem, same⟩)) there, rest⟩
      · cases failed
    · rename_i kept
      rcases Work.endsBind ends with ⟨mid, t, given, later⟩ | ⟨_, failed, _⟩
      · obtain ⟨rfl, same⟩ := Work.endsDone later
        cases same
        obtain ⟨grants, rfl⟩ := endsGrant given
        exact ⟨_, r, date, h, queued, place, since, le, by simpa using kept, grants, State.amendedInsert ..⟩
      · cases failed

theorem passageCleared {k : Clearance} {call : Call} (clears : call.clearance? limits s.committed = some k)
    (begun : k.before = s.committed) {rows : Rows} (h : k.Reaches rows) {place : String} {id : Uuid}
    (untouched : rows.stage place id = s.committed.stage place id →
      ¬ call.Touches place id (s.committed.stage place id))
    (other : ∀ t, call.reply = .granted (some t) → t.record.id ≠ id) :
    Passage limits s.committed call place id (s.committed.stage place id) (rows.stage place id) := by
  rcases h.moves place id with same | ⟨rfl, moves⟩
  · rw [begun] at same
    rw [same]
    exact .still (untouched same)
  · rw [begun] at moves
    exact .cleared clears other moves

theorem passageOne {call : Call} {before after : Rows} {id : Uuid} {left : Stage}
    (stages : ∀ place name, after.stage place name =
      if place = queue ∧ name = id then left else before.stage place name)
    (touches : ∀ place name stage, call.Touches place name stage → place = queue ∧ name = id)
    (here : Passage limits before call queue id (before.stage queue id) left) (place : String) (name : Uuid) :
    Passage limits before call place name (before.stage place name) (after.stage place name) := by
  rw [stages]
  split
  · rename_i same
    obtain ⟨rfl, rfl⟩ := same
    exact here
  · rename_i other
    exact .still fun touched => other (touches _ _ _ touched)

theorem passageEnqueue {r : TaskRecord} {reply : Reply} (tidy : s.committed.Tidy) (live : r.Live)
    (ends : Work.Ends s ∅ ((Request.enqueue r).body limits : Body Event Answer Reply) own (.ok reply)) :
    (s.amended own).Tidy ∧ ∀ place id, Passage limits s.committed ⟨.enqueue r, reply⟩ place id
      (s.committed.stage place id) ((s.amended own).stage place id) := by
  rw [enqueueRun] at ends
  have ends := Work.endsGet (Work.endsGet ends)
  have stands := Rows.tidyStands tidy r.queue r.id
  split at ends
  · rename_i missing
    obtain ⟨rfl, same⟩ := Work.endsDone (Work.endsPut ends)
    cases same
    have nowhere : s.committed.stage r.queue r.id = .nowhere :=
      Rows.stageOf ⟨Option.isNone_iff_eq_none.mp missing.1, Option.isNone_iff_eq_none.mp missing.2⟩
    rw [nowhere] at stands
    rw [State.amendedInsert]
    obtain ⟨left, stages⟩ := Rows.tidyPut tidy (by simp) stands live
    refine ⟨left, passageOne stages ?_ (nowhere ▸ .enqueued)⟩
    rintro place name stage (named | ⟨_, same, rfl, rfl, -⟩)
    · exact named.elim
    · cases same
      exact ⟨rfl, rfl⟩
  · rename_i present
    obtain ⟨rfl, same⟩ := Work.endsDone ends
    cases same
    refine ⟨tidy, fun place id => .still ?_⟩
    rintro (named | ⟨_, same, rfl, rfl, nowhere⟩)
    · exact named.elim
    · cases same
      rw [nowhere] at stands
      exact present ⟨Option.isNone_iff_eq_none.mpr stands.1, Option.isNone_iff_eq_none.mpr stands.2⟩

theorem namesTouched {task : Option LeasedTask} {place : String} {id : Uuid} {stage : Stage}
    (touched : Call.Touches ⟨.lease queue now duration, .granted task⟩ place id stage) :
    Call.Names ⟨.lease queue now duration, .granted task⟩ place id := by
  rcases touched with named | ⟨_, same, _⟩
  · exact named
  · cases same

theorem passageHands {after : Rows} {task : Option LeasedTask}
    (hands : Hands ⟨limits, s.committed, queue, now, leaseExpired, Spent now⟩ duration after task) :
    after.Tidy ∧ ∀ place id, Passage limits s.committed ⟨.lease queue now duration, .granted task⟩ place id
      (s.committed.stage place id) (after.stage place id) := by
  cases task with
  | none =>
    refine ⟨hands.tidy, fun place id => passageCleared rfl rfl hands (fun _ touched => ?_) fun _ same => ?_⟩
    · exact namesTouched touched
    · cases same
  | some t =>
    obtain ⟨rows, r, date, reaches, queued, own, ready, due, kept, grants, rfl⟩ := hands
    have before : s.committed.stage queue r.id = .queued r := Clearance.reachesQueued reaches queued
    rw [← show t.record.id = r.id from (queueRowIff.mp (grantsRow grants)).2] at before
    obtain ⟨left, stages⟩ := stageGranted reaches.tidy queued grants
    refine ⟨left, fun place id => ?_⟩
    rw [stages]
    split
    · rename_i same
      obtain ⟨rfl, rfl⟩ := same
      rw [before]
      exact .granted own ready due kept grants
    · rename_i other
      by_cases same : t.record.id = id
      -- This is another queue, where the call does nothing.
      · subst same
        rcases reaches.moves place t.record.id with still | ⟨rfl, -⟩
        · rw [still]
          exact .still fun touched => other ⟨(namesTouched touched).1.symm, rfl⟩
        · exact absurd ⟨rfl, rfl⟩ other
      · refine passageCleared rfl rfl reaches (fun _ touched => same (namesTouched touched).2) fun _ given => ?_
        cases given
        exact same

theorem passageLease {reply : Reply} (tidy : s.committed.Tidy)
    (ends : Work.Ends s ∅ ((Request.lease queue now duration).body limits : Body Event Answer Reply) own (.ok reply)) :
    (s.amended own).Tidy ∧ ∀ place id, Passage limits s.committed ⟨.lease queue now duration, reply⟩ place id
      (s.committed.stage place id) ((s.amended own).stage place id) := by
  rw [leaseRun] at ends
  have ends := Work.endsScan ends
  obtain ⟨records, read, distinct, waits⟩ := dueListed now tidy (State.memScan s ∅ (queueTable queue))
  rw [read] at ends
  rcases Work.endsBind ends with ⟨mid, task, first, later⟩ | ⟨_, failed, _⟩
  · obtain ⟨rfl, same⟩ := Work.endsDone later
    cases same
    have begins : Clearance.Reaches ⟨limits, s.committed, queue, now, leaseExpired, Spent now⟩ (s.amended ∅) :=
      Clearance.reachesStart _ tidy
    exact passageHands (handsFirst (fun _ => .rfl) ⟨rfl, rfl, rfl⟩ begins distinct waits first)
  · cases failed

theorem filedTidy (tidy : s.committed.Tidy) : s.Filed := by
  intro queue key value held
  obtain ⟨r, written, rfl, rfl, -⟩ := tidy.queue queue key value held
  exact ⟨r, written, rfl⟩

theorem endsStaged {α : Type} {l : Lease} {next : TaskRecord → Body Event Answer α} {x : α} (tidy : s.committed.Tidy)
    (ends : Work.Ends s ∅ ((leased l).bind next) own (.ok x)) : ∃ r expiry, r.queue = l.queue ∧ r.id = l.taskId ∧
      s.committed.stage r.queue r.id = .queued r ∧ s.committed.Stands r.queue r.id (.queued r) ∧
      r.state = .active l.leaseId expiry ∧ Work.Ends s ∅ (next r) own (.ok x) := by
  obtain ⟨r, expiry, stored, row, active, later⟩ := endsLeased (filedTidy tidy) ends
  obtain ⟨place, name⟩ := queueRowIff.mp row
  rw [← place, ← name] at stored
  have queued : s.committed.stage r.queue r.id = .queued r := by
    unfold Rows.stage
    rw [show s.committed.record? (queueTable r.queue) r.id = some r from stored]
  have stands := Rows.tidyStands tidy r.queue r.id
  rw [queued] at stands
  exact ⟨r, expiry, place, name, queued, stands, active, later⟩

theorem touchesUnder {call : Call} {l : Lease} (under : call.request.under? = some l) {place : String} {id : Uuid}
    {stage : Stage} (touched : call.Touches place id stage) : place = l.queue ∧ id = l.taskId := by
  obtain ⟨request, reply⟩ := call
  rcases touched with named | ⟨_, same, _⟩
  · cases request with
    | enqueue r => cases under
    | lease queue now duration => cases under
    | extend | acknowledge | retry | archive =>
      cases under
      obtain ⟨rfl, rfl⟩ := named
      exact ⟨rfl, rfl⟩
  · cases same
    cases under

theorem passageUnder {call : Call} (l : Lease) (under : call.request.under? = some l) {before after : Rows}
    {left : Stage} (stages : ∀ place name, after.stage place name =
      if place = l.queue ∧ name = l.taskId then left else before.stage place name)
    (here : Passage limits before call l.queue l.taskId (before.stage l.queue l.taskId) left) (place : String)
    (name : Uuid) : Passage limits before call place name (before.stage place name) (after.stage place name) :=
  passageOne stages (fun _ _ _ => touchesUnder under) here place name

theorem passage {request : Request} {reply : Reply} (tidy : s.committed.Tidy)
    (handed : ∀ r, request = .enqueue r → r.Live) (after : s.After own s')
    (ends : Work.Ends s ∅ (request.body limits : Body Event Answer Reply) own (.ok reply)) :
    s'.committed.Tidy ∧ ∀ place id, Passage limits s.committed ⟨request, reply⟩ place id
      (s.committed.stage place id) (s'.committed.stage place id) := by
  rw [State.committedAfter after]
  cases request with
  | enqueue r => exact passageEnqueue tidy (handed r rfl) ends
  | lease queue now duration => exact passageLease tidy ends
  | extend l deadline =>
    obtain ⟨taskId, queue, leaseId, expiresAt⟩ := l
    rw [extendRun] at ends
    obtain ⟨r, expiry, rfl, rfl, queued, stands, active, ends⟩ := endsStaged tidy ends
    obtain ⟨rfl, same⟩ := Work.endsDone (Work.endsPut ends)
    cases same
    rw [State.amendedInsert]
    obtain ⟨left, stages⟩ := Rows.tidyPut (r := { r with state := .active leaseId deadline }) tidy (by simp) stands
      (.inr ⟨_, _, rfl⟩)
    refine ⟨left, passageUnder ⟨r.id, r.queue, leaseId, expiresAt⟩ rfl stages ?_⟩
    rw [queued]
    exact .extended active
  | acknowledge l =>
    obtain ⟨taskId, queue, leaseId, expiresAt⟩ := l
    rw [acknowledgeRun] at ends
    obtain ⟨r, expiry, rfl, rfl, queued, stands, active, ends⟩ := endsStaged tidy ends
    obtain ⟨rfl, same⟩ := Work.endsDone (Work.endsDelete ends)
    cases same
    rw [State.amendedInsert]
    obtain ⟨left, stages⟩ := Rows.tidyErase tidy queued
    refine ⟨left, passageUnder ⟨r.id, r.queue, leaseId, expiresAt⟩ rfl stages ?_⟩
    rw [queued]
    exact .acknowledged active
  | retry l runAt error =>
    obtain ⟨taskId, queue, leaseId, expiresAt⟩ := l
    rw [retryRun] at ends
    obtain ⟨r, expiry, rfl, rfl, queued, stands, active, ends⟩ := endsStaged tidy ends
    split at ends
    · cases (Work.endsDone ends).2
    · obtain ⟨rfl, same⟩ := Work.endsDone (Work.endsPut ends)
      cases same
      rw [State.amendedInsert]
      obtain ⟨left, stages⟩ := Rows.tidyPut (r := { r with
        retried := r.retried + 1, notBefore := runAt, state := .pending, lastError := some error }) tidy (by simp)
        stands (.inl rfl)
      refine ⟨left, passageUnder ⟨r.id, r.queue, leaseId, expiresAt⟩ rfl stages ?_⟩
      rw [queued]
      exact .retried active
  | archive l now error =>
    obtain ⟨taskId, queue, leaseId, expiresAt⟩ := l
    rw [archiveRun] at ends
    obtain ⟨r, expiry, rfl, rfl, queued, stands, active, ends⟩ := endsStaged tidy ends
    rcases Work.endsBind ends with ⟨mid, _, away, later⟩ | ⟨_, failed, _⟩
    · obtain ⟨rfl, same⟩ := Work.endsDone later
      cases same
      let k : Clearance := ⟨limits, s.committed, r.queue, now, error, fun x =>
        x.id = r.id ∧ ∃ expiry, x.state = .active leaseId expiry⟩
      have begins : k.Reaches (s.amended ∅) := Clearance.reachesStart k tidy
      obtain ⟨reaches, left, -⟩ := Clearance.reachesAway begins ⟨rfl, expiry, active⟩ rfl queued away
      refine ⟨reaches.tidy, fun place id => passageCleared rfl rfl reaches (fun still touched => ?_) (by simp)⟩
      obtain ⟨rfl, rfl⟩ := touchesUnder rfl touched
      dsimp only at still
      rw [queued] at still
      exact left r still
    · cases failed

end Broker
end Teller
