import Teller.Proofs.BrokerBodies

/-! What one request does to the places of a queue. A task is stored under its own queue and identifier,
so that a request that is done under a lease concerns one place, and so does a grant; beside the grant a
request for a task only puts away tasks whose lease ran out. -/
namespace Teller
open Broker
open Transaction (Buffer)

namespace State

def queued (s : State) (queue : String) (id : Uuid) : Option TaskRecord :=
  (s.value? ⟨queueTable queue, id.key⟩).bind fun value =>
    (Json.decode TaskRecord.codec value.data.toList).toOption

def Filed (s : State) : Prop := ∀ queue key value, s.value? ⟨queueTable queue, key⟩ = some value →
  ∃ r, value = Json.encode TaskRecord.codec r ∧ queueRow r = ⟨queueTable queue, key⟩

variable {s s' : State} {queue : String} {id : Uuid} {r : TaskRecord} {own : Buffer}

theorem queuedOf (held : s.value? ⟨queueTable queue, id.key⟩ = some (Json.encode TaskRecord.codec r)) :
    s.queued queue id = some r := by
  rw [queued, held, Option.bind_some, TaskRecord.decodeEncode]
  rfl

theorem filedRow (h : s.Filed) {key value : Bytes} (held : s.value? ⟨queueTable queue, key⟩ = some value)
    (read : decoded value = .ok r) : queueRow r = ⟨queueTable queue, key⟩ ∧ s.queued queue r.id = some r := by
  obtain ⟨r', rfl, place⟩ := h queue key value held
  obtain rfl : r' = r := Except.ok.inj ((decodedEncode r').symm.trans read)
  have here : r'.id.key = key := congrArg RowId.key place
  subst here
  exact ⟨place, queuedOf held⟩

def After (s : State) (own : Buffer) (s' : State) : Prop := ∀ r, s'.value? r = (own.get? r).getD (s.value? r)

theorem queuedKept (after : s.After own s') (untouched : own.get? ⟨queueTable queue, id.key⟩ = none) :
    s'.queued queue id = s.queued queue id := by
  rw [queued, queued, after, untouched, Option.getD_none]

theorem queuedGone (after : s.After own s') (erased : own.get? ⟨queueTable queue, id.key⟩ = some none) :
    s'.queued queue id = none := by
  rw [queued, after, erased]
  rfl

theorem queuedPut (after : s.After own s')
    (put : own.get? ⟨queueTable queue, id.key⟩ = some (some (Json.encode TaskRecord.codec r))) :
    s'.queued queue id = some r :=
  queuedOf (by rw [after, put]; rfl)

theorem filedAfter (h : s.Filed) (after : s.After own s')
    (files : ∀ queue key value, own.get? ⟨queueTable queue, key⟩ = some (some value) →
      ∃ r, value = Json.encode TaskRecord.codec r ∧ queueRow r = ⟨queueTable queue, key⟩) : s'.Filed := by
  intro queue key value held
  rw [after] at held
  cases left : own.get? ⟨queueTable queue, key⟩ with
  | none => rw [left] at held; exact h queue key value held
  | some left' =>
    rw [left] at held
    cases held
    exact files queue key value left

end State

namespace Broker
variable {s s' : State} {own own' : Buffer} {Event Answer α : Type}

theorem leasedInCases (filed : s.Filed) (l : Lease) :
    (∃ r expiry, s.queued l.queue l.taskId = some r ∧ r.state = .active l.leaseId expiry ∧
      queueRow r = leaseRow l ∧ leasedIn l (s.value? (leaseRow l)) = .ok r) ∨
    (¬ ∃ r expiry, s.queued l.queue l.taskId = some r ∧ r.state = .active l.leaseId expiry) ∧
      leasedIn l (s.value? (leaseRow l)) = .error (.failed .leaseLost) := by
  cases held : s.value? (leaseRow l) with
  | none =>
    have nothing : s.queued l.queue l.taskId = none := congrArg (Option.bind · _) held
    exact .inr ⟨by simp [nothing], rfl⟩
  | some value =>
    obtain ⟨r, rfl, place⟩ := filed l.queue l.taskId.key value held
    have stored : s.queued l.queue l.taskId = some r := State.queuedOf held
    simp only [leasedIn, decodedEncode, bind, Except.bind]
    cases state : r.state with
    | pending => exact .inr ⟨by simp [stored, state], by simp [isHeldBy, state]⟩
    | archived date => exact .inr ⟨by simp [stored, state], by simp [isHeldBy, state]⟩
    | active leaseId expiry =>
      by_cases own : leaseId = l.leaseId
      · exact .inl ⟨r, expiry, stored, by rw [state, own], place, by simp [isHeldBy, state, own, pure, Except.pure]⟩
      · exact .inr ⟨by simp [stored, state, own], by simp [isHeldBy, state, own]⟩

theorem endsLeased {l : Lease} {next : TaskRecord → Body Event Answer α} {x : α} (filed : s.Filed)
    (h : Work.Ends s ∅ ((leased l).bind next) own (.ok x)) : ∃ r expiry, s.queued l.queue l.taskId = some r ∧
      queueRow r = leaseRow l ∧ r.state = .active l.leaseId expiry ∧ Work.Ends s ∅ (next r) own (.ok x) := by
  rw [leasedRun] at h
  have h := Work.endsGet h
  rw [SortedMap.getEmpty, Option.getD_none] at h
  rcases leasedInCases filed l with ⟨r, expiry, stored, active, place, found⟩ | ⟨_, lost⟩
  · rw [found] at h
    exact ⟨r, expiry, stored, place, active, h⟩
  · rw [lost] at h
    cases (Work.endsDone h).2

theorem sparesPrune {limits : ArchiveLimits} {queue archive : String} {now : Moment} {key : Bytes} :
    (prune limits archive now : Body Event Answer Unit).Keeps
      (fun (_ : Unit) op _ => Work.Spares ⟨queueTable queue, key⟩ op) (fun _ _ => True) () :=
  Work.keepsMono (keepsPrune trivial fun _ same => queueApart queue archive (congrArg RowId.table same))
    fun _ _ _ => trivial

theorem endsPutAway {limits : ArchiveLimits} {r : TaskRecord} {now : Moment} {error : String}
    {result : Except (Stop BrokerError) Unit}
    (h : Work.Ends s own (putAway limits r now error : Body Event Answer Unit) own' result)
    (queue : String) (key : Bytes) : own'.get? ⟨queueTable queue, key⟩ =
      if (⟨queueTable queue, key⟩ : RowId) = queueRow r then some none else own.get? ⟨queueTable queue, key⟩ := by
  rw [putAwayRun] at h
  have apart : (⟨queueTable queue, key⟩ : RowId) ≠ archiveRow r := fun same =>
    queueApart queue r.queue (congrArg RowId.table same)
  rw [Work.endsSpares (Work.endsPut (Work.endsDelete h)) sparesPrune, SortedMap.getInsert, if_neg apart,
    SortedMap.getInsert]

def Grants (now : Moment) (duration : Span) (r : TaskRecord) (t : LeasedTask) : Prop :=
  ∃ leaseId expiresAt, now.add? duration = some expiresAt ∧
    t = ⟨{ reclaimed r with state := .active leaseId expiresAt }, ⟨r.id, r.queue, leaseId, expiresAt⟩⟩

theorem grantsRow {now : Moment} {duration : Span} {r : TaskRecord} {t : LeasedTask} (h : Grants now duration r t) :
    queueRow t.record = queueRow r := by
  obtain ⟨leaseId, expiresAt, _, rfl⟩ := h
  obtain ⟨id, queue⟩ := reclaimedRow r
  simp only [queueRow, id, queue]

theorem endsGrant {now : Moment} {duration : Span} {r : TaskRecord} {t : LeasedTask}
    (h : Work.Ends s own (grant now duration r : Body Event Answer LeasedTask) own' (.ok t)) :
    Grants now duration r t ∧ own' = own.insert (queueRow t.record) (some (Json.encode TaskRecord.codec t.record)) := by
  rw [grantRun] at h
  obtain ⟨leaseId, h⟩ := Work.endsFresh h
  cases expires : now.add? duration with
  | none =>
    rw [expires] at h
    cases (Work.endsDone h).2
  | some expiresAt =>
    rw [expires] at h
    obtain ⟨rfl, same⟩ := Work.endsDone (Work.endsPut h)
    cases same
    obtain ⟨id, queue⟩ := reclaimedRow r
    exact ⟨⟨leaseId, expiresAt, expires, by rw [id, queue]⟩, rfl⟩

theorem endsLeaseFirst {limits : ArchiveLimits} {now : Moment} {duration : Span} {ready : List TaskRecord}
    {task : Option LeasedTask}
    (h : Work.Ends s own (leaseFirst limits now duration ready : Body Event Answer _) own' (.ok task)) :
    (∀ queue key, own'.get? ⟨queueTable queue, key⟩ = own.get? ⟨queueTable queue, key⟩ ∨
      (∃ r ∈ ready, isLost r = true ∧ queueRow r = ⟨queueTable queue, key⟩ ∧
        own'.get? ⟨queueTable queue, key⟩ = some none) ∨
      ∃ t, task = some t ∧ queueRow t.record = ⟨queueTable queue, key⟩) ∧
    ∀ t, task = some t →
      own'.get? (queueRow t.record) = some (some (Json.encode TaskRecord.codec t.record)) ∧
        ∃ r ∈ ready, Grants now duration r t := by
  induction ready generalizing own with
  | nil =>
    obtain ⟨rfl, same⟩ := Work.endsDone h
    cases same
    exact ⟨fun _ _ => .inl rfl, fun t given => by cases given⟩
  | cons r rest ih =>
    rw [leaseFirstRun] at h
    split at h
    · rename_i lost
      rcases Work.endsBind h with ⟨mid, _, away, later⟩ | ⟨_, failed, _⟩
      · obtain ⟨rows, granted⟩ := ih later
        refine ⟨fun queue key => ?_, fun t same => ?_⟩
        · rcases rows queue key with kept | ⟨x, mem, gone⟩ | given
          · rw [endsPutAway away] at kept
            split at kept
            · rename_i here
              exact .inr (.inl ⟨r, List.mem_cons_self, lost, here.symm, kept⟩)
            · exact .inl kept
          · exact .inr (.inl ⟨x, List.mem_cons_of_mem _ mem, gone⟩)
          · exact .inr (.inr given)
        · obtain ⟨put, x, mem, grants⟩ := granted t same
          exact ⟨put, x, List.mem_cons_of_mem _ mem, grants⟩
      · cases failed
    · rcases Work.endsBind h with ⟨mid, t, given, later⟩ | ⟨_, failed, _⟩
      · obtain ⟨rfl, same⟩ := Work.endsDone later
        cases same
        obtain ⟨grants, rfl⟩ := endsGrant given
        refine ⟨fun queue key => ?_, fun _ same => ?_⟩
        · by_cases here : (⟨queueTable queue, key⟩ : RowId) = queueRow t.record
          · exact .inr (.inr ⟨t, rfl, here.symm⟩)
          · exact .inl (by rw [SortedMap.getInsert, if_neg here])
        · cases same
          exact ⟨by simp, r, List.mem_cons_self, grants⟩
      · cases failed

structure Call where
  request : Request
  reply : Reply
  deriving DecidableEq

def Call.Names (call : Call) (queue : String) (id : Uuid) : Prop :=
  match call.request, call.reply with
  | .lease asked _ _, .granted (some t) => asked = queue ∧ t.record.id = id
  | .extend l _, _ | .acknowledge l, _ | .retry l _ _, _ | .archive l _ _, _ => l.queue = queue ∧ l.taskId = id
  | _, _ => False

inductive Turn : Call → String → Uuid → Option TaskRecord → Option TaskRecord → Prop where
  | kept {call queue id held} (other : ¬ call.Names queue id) : Turn call queue id held held
  | enqueued {r} : Turn ⟨.enqueue r, .done⟩ r.queue r.id none (some r)
  | granted {queue now duration r t date} (own : r.queue = queue) (ready : r.readyAt = some date)
      (due : date ≤ now) (grants : Grants now duration r t) :
      Turn ⟨.lease queue now duration, .granted (some t)⟩ queue t.record.id (some r) (some t.record)
  | lost {queue now duration task id r leaseId expiry}
      (other : ¬ Call.Names ⟨.lease queue now duration, .granted task⟩ queue id)
      (active : r.state = .active leaseId expiry) (expired : expiry ≤ now) :
      Turn ⟨.lease queue now duration, .granted task⟩ queue id (some r) none
  | extended {l deadline r expiry} (active : r.state = .active l.leaseId expiry) :
      Turn ⟨.extend l deadline, .extended { l with expiresAt := deadline }⟩ l.queue l.taskId (some r)
        (some { r with state := .active l.leaseId deadline })
  | acknowledged {l r expiry} (active : r.state = .active l.leaseId expiry) :
      Turn ⟨.acknowledge l, .done⟩ l.queue l.taskId (some r) none
  | retried {l runAt error r expiry} (active : r.state = .active l.leaseId expiry) :
      Turn ⟨.retry l runAt error, .done⟩ l.queue l.taskId (some r) (some { r with
        retried := r.retried + 1, notBefore := runAt, state := .pending, lastError := some error })
  | archived {l now error r expiry} (active : r.state = .active l.leaseId expiry) :
      Turn ⟨.archive l now error, .done⟩ l.queue l.taskId (some r) none

section
variable {r : TaskRecord} {call : Call}

theorem rowsInserted (r : TaskRecord) (left : Option Bytes) (queue : String) (key : Bytes) :
    (SortedMap.insert ∅ (queueRow r) left : Buffer).get? ⟨queueTable queue, key⟩ =
      if (⟨queueTable queue, key⟩ : RowId) = queueRow r then some left else none := by
  rw [SortedMap.getInsert, SortedMap.getEmpty]

theorem turnOne {queue : String} {id : Uuid} (left : Option TaskRecord) (filed : s.Filed)
    (after : s.After own s') (spot : queueRow r = ⟨queueTable queue, id.key⟩)
    (rows : ∀ queue key, own.get? ⟨queueTable queue, key⟩ =
      if (⟨queueTable queue, key⟩ : RowId) = queueRow r then some (left.map (Json.encode TaskRecord.codec)) else none)
    (place : ∀ r', left = some r' → queueRow r' = queueRow r)
    (names : ∀ queue' id', call.Names queue' id' → queue = queue' ∧ id = id')
    (here : Turn call queue id (s.queued queue id) left) :
    s'.Filed ∧ ∀ queue id, Turn call queue id (s.queued queue id) (s'.queued queue id) := by
  refine ⟨State.filedAfter filed after fun queue key value put => ?_, fun queue' id' => ?_⟩
  · rw [rows] at put
    split at put
    · rename_i same
      obtain ⟨r', written, rfl⟩ := Option.map_eq_some_iff.mp (Option.some.inj put)
      exact ⟨r', rfl, (place r' written).trans same.symm⟩
    · cases put
  · have written := rows queue' id'.key
    by_cases same : queue = queue' ∧ id = id'
    · obtain ⟨rfl, rfl⟩ := same
      rw [if_pos spot.symm] at written
      have now : s'.queued queue id = left := by
        cases left with
        | none => exact State.queuedGone after written
        | some r' => exact State.queuedPut after written
      rw [now]
      exact here
    · have apart : (⟨queueTable queue', id'.key⟩ : RowId) ≠ queueRow r := fun here => by
        rw [spot] at here
        exact same ⟨(queueTableInjective (congrArg RowId.table here)).symm,
          (Uuid.keyInjective (congrArg RowId.key here)).symm⟩
      rw [if_neg apart] at written
      rw [State.queuedKept after written]
      exact .kept fun named => same (names queue' id' named)

theorem turnNone (filed : s.Filed) (after : s.After ∅ s') (names : ∀ queue id, ¬ call.Names queue id) :
    s'.Filed ∧ ∀ queue id, Turn call queue id (s.queued queue id) (s'.queued queue id) := by
  refine ⟨State.filedAfter filed after (fun _ _ _ put => by cases put), fun queue id => ?_⟩
  rw [State.queuedKept after (SortedMap.getEmpty _)]
  exact .kept (names queue id)

theorem memDue (now : Moment) {queue : String} {records : List TaskRecord} (filed : s.Filed)
    (read : decodedRows (s.table (queueTable queue)).entries = .ok records) : ∀ r ∈ due now records,
      s.queued queue r.id = some r ∧ r.queue = queue ∧ ∃ date, r.readyAt = some date ∧ date ≤ now := by
  intro r mem
  rw [due] at mem
  obtain ⟨⟨date, r'⟩, listed, rfl⟩ := List.mem_map.mp mem
  obtain ⟨r, there, ready⟩ := List.mem_filterMap.mp (List.mem_mergeSort.mp listed)
  obtain ⟨rfl, since, le⟩ := readySinceIff.mp ready
  obtain ⟨⟨key, value⟩, row, decodes⟩ := memMapM read r' there
  have held : s.value? ⟨queueTable queue, key⟩ = some value := by
    rw [← State.getTable]
    exact SortedMap.memEntries.mp row
  obtain ⟨place, stored⟩ := State.filedRow filed held decodes
  exact ⟨stored, queueTableInjective (congrArg RowId.table place), date, since, le⟩

theorem lostActive {now date : Moment} (lost : isLost r = true) (ready : r.readyAt = some date) (le : date ≤ now) :
    ∃ leaseId expiry, r.state = .active leaseId expiry ∧ expiry ≤ now := by
  cases state : r.state with
  | pending => simp [isLost, state] at lost
  | archived archivedAt => simp [isLost, state] at lost
  | active leaseId expiry =>
    simp only [TaskRecord.readyAt, state] at ready
    cases ready
    exact ⟨leaseId, date, rfl, le⟩

theorem endsLease {limits : ArchiveLimits} {queue : String} {now : Moment} {duration : Span} {reply : Reply}
    (filed : s.Filed)
    (h : Work.Ends s ∅ ((Request.lease queue now duration).body limits : Body Event Answer Reply) own (.ok reply)) :
    ∃ task, reply = .granted task ∧
      (∀ place key, own.get? ⟨queueTable place, key⟩ = none ∨
        (∃ r leaseId expiry, queueRow r = ⟨queueTable place, key⟩ ∧ r.queue = queue ∧
          s.queued queue r.id = some r ∧ r.state = .active leaseId expiry ∧ expiry ≤ now ∧
          own.get? ⟨queueTable place, key⟩ = some none) ∨
        ∃ t, task = some t ∧ queueRow t.record = ⟨queueTable place, key⟩) ∧
      ∀ t, task = some t → t.record.queue = queue ∧
        own.get? (queueRow t.record) = some (some (Json.encode TaskRecord.codec t.record)) ∧
        ∃ r date, s.queued queue t.record.id = some r ∧ r.queue = queue ∧ r.readyAt = some date ∧ date ≤ now ∧
          Grants now duration r t := by
  rw [leaseRun] at h
  have h := Work.endsScan h
  rw [show (∅ : Buffer).entries.foldl _ (s.table (queueTable queue)) = s.table (queueTable queue) from rfl] at h
  cases read : decodedRows (s.table (queueTable queue)).entries with
  | error e =>
    rw [read] at h
    cases (Work.endsDone h).2
  | ok records =>
    rw [read] at h
    have ready := memDue now filed read
    rcases Work.endsBind h with ⟨mid, task, first, later⟩ | ⟨_, failed, _⟩
    · obtain ⟨rfl, same⟩ := Work.endsDone later
      cases same
      obtain ⟨rows, granted⟩ := endsLeaseFirst first
      refine ⟨task, rfl, fun place key => ?_, fun t same => ?_⟩
      · rcases rows place key with kept | ⟨r, mem, lost, here, gone⟩ | given
        · exact .inl (kept.trans (SortedMap.getEmpty _))
        · obtain ⟨stored, own, date, since, le⟩ := ready r mem
          obtain ⟨leaseId, expiry, active, expired⟩ := lostActive lost since le
          exact .inr (.inl ⟨r, leaseId, expiry, here, own, stored, active, expired, gone⟩)
        · exact .inr (.inr given)
      · obtain ⟨put, r, mem, grants⟩ := granted t same
        obtain ⟨stored, own, date, since, le⟩ := ready r mem
        obtain ⟨place, name⟩ := queueRowIff.mp (grantsRow grants)
        rw [own] at place
        rw [← name] at stored
        exact ⟨place, put, r, date, stored, own, since, le, grants⟩
    · cases failed

theorem turnLease {limits : ArchiveLimits} {queue : String} {now : Moment} {duration : Span} {reply : Reply}
    (filed : s.Filed) (after : s.After own s')
    (h : Work.Ends s ∅ ((Request.lease queue now duration).body limits : Body Event Answer Reply) own (.ok reply)) :
    s'.Filed ∧ ∀ place id, Turn ⟨.lease queue now duration, reply⟩ place id (s.queued place id)
      (s'.queued place id) := by
  obtain ⟨task, rfl, rows, granted⟩ := endsLease filed h
  have named (place : String) (id : Uuid) (names : Call.Names ⟨.lease queue now duration, .granted task⟩ place id) :
      ∃ value, own.get? ⟨queueTable place, id.key⟩ = some (some value) := by
    cases task with
    | none => cases names
    | some t =>
      obtain ⟨rfl, rfl⟩ := names
      obtain ⟨place, put, _⟩ := granted t rfl
      rw [queueRowIff.mpr ⟨place, rfl⟩] at put
      exact ⟨_, put⟩
  refine ⟨State.filedAfter filed after fun place key value put => ?_, fun place id => ?_⟩
  · rcases rows place key with kept | ⟨_, _, _, _, _, _, _, _, gone⟩ | ⟨t, same, here⟩
    · rw [put] at kept
      cases kept
    · rw [put] at gone
      cases gone
    · have written := (granted t same).2.1
      rw [here, put] at written
      cases written
      exact ⟨t.record, rfl, here⟩
  · rcases rows place id.key with kept | ⟨r, leaseId, expiry, here, own, stored, active, expired, gone⟩ |
      ⟨t, same, here⟩
    · rw [State.queuedKept after kept]
      refine .kept fun names => ?_
      obtain ⟨_, put⟩ := named place id names
      rw [put] at kept
      cases kept
    · obtain ⟨rfl, rfl⟩ := queueRowIff.mp here
      rw [State.queuedGone after gone, own, stored]
      refine .lost (fun names => ?_) active expired
      obtain ⟨_, put⟩ := named _ _ names
      rw [← own, gone] at put
      cases put
    · obtain ⟨rfl, rfl⟩ := queueRowIff.mp here
      obtain ⟨own, put, r, date, stored, place, since, le, grants⟩ := granted t same
      rw [State.queuedPut after put, own, stored, same]
      exact .granted place since le grants

theorem turnEnqueue {limits : ArchiveLimits} {r : TaskRecord} {reply : Reply} (filed : s.Filed)
    (after : s.After own s')
    (h : Work.Ends s ∅ ((Request.enqueue r).body limits : Body Event Answer Reply) own (.ok reply)) :
    s'.Filed ∧ ∀ queue id, Turn ⟨.enqueue r, reply⟩ queue id (s.queued queue id) (s'.queued queue id) := by
  rw [enqueueRun] at h
  have h := Work.endsGet (Work.endsGet h)
  split at h
  · rename_i missing
    obtain ⟨rfl, same⟩ := Work.endsDone (Work.endsPut h)
    cases same
    have absent : s.queued r.queue r.id = none := by
      have row : s.value? (queueRow r) = none := by simpa using missing.1
      exact congrArg (Option.bind · _) row
    refine turnOne (some r) filed after rfl (rowsInserted r _) (fun _ same => by cases same; rfl)
      (fun _ _ named => named.elim) ?_
    rw [absent]
    exact .enqueued
  · obtain ⟨rfl, same⟩ := Work.endsDone h
    cases same
    exact turnNone filed after fun _ _ => id

theorem turn {limits : ArchiveLimits} {request : Request} {reply : Reply} (filed : s.Filed)
    (after : s.After own s')
    (h : Work.Ends s ∅ (request.body limits : Body Event Answer Reply) own (.ok reply)) :
    s'.Filed ∧ ∀ queue id, Turn ⟨request, reply⟩ queue id (s.queued queue id) (s'.queued queue id) := by
  cases request with
  | enqueue r => exact turnEnqueue filed after h
  | lease queue now duration => exact turnLease filed after h
  | extend l deadline =>
    rw [extendRun] at h
    obtain ⟨r, expiry, stored, place, active, h⟩ := endsLeased filed h
    obtain ⟨rfl, same⟩ := Work.endsDone (Work.endsPut h)
    cases same
    refine turnOne (some { r with state := .active l.leaseId deadline }) filed after place (rowsInserted r _)
      (fun _ same => by cases same; rfl) (fun _ _ named => named) ?_
    rw [stored]
    exact .extended active
  | acknowledge l =>
    rw [acknowledgeRun] at h
    obtain ⟨r, expiry, stored, place, active, h⟩ := endsLeased filed h
    obtain ⟨rfl, same⟩ := Work.endsDone (Work.endsDelete h)
    cases same
    rw [← place] at after
    refine turnOne none filed after place (rowsInserted r _) (fun _ same => by cases same) (fun _ _ named => named) ?_
    rw [stored]
    exact .acknowledged active
  | retry l runAt error =>
    rw [retryRun] at h
    obtain ⟨r, expiry, stored, place, active, h⟩ := endsLeased filed h
    split at h
    · cases (Work.endsDone h).2
    · obtain ⟨rfl, same⟩ := Work.endsDone (Work.endsPut h)
      cases same
      refine turnOne (some { r with
        retried := r.retried + 1, notBefore := runAt, state := .pending, lastError := some error }) filed after
        place (rowsInserted r _) (fun _ same => by cases same; rfl) (fun _ _ named => named) ?_
      rw [stored]
      exact .retried active
  | archive l now error =>
    rw [archiveRun] at h
    obtain ⟨r, expiry, stored, place, active, h⟩ := endsLeased filed h
    rcases Work.endsBind h with ⟨mid, _, away, later⟩ | ⟨_, failed, _⟩
    · obtain ⟨rfl, same⟩ := Work.endsDone later
      cases same
      refine turnOne none filed after place (endsPutAway away) (fun _ same => by cases same) (fun _ _ named => named) ?_
      rw [stored]
      exact .archived active
    · cases failed

end

end Broker
end Teller
