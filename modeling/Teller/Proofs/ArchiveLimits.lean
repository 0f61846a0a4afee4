import Teller.Proofs.NextTask
import Teller.Proofs.TaskCustody
import Teller.Proofs.Trimming

/-! No call that puts tasks away leaves an archive with more than it may hold or with what is too old for it. Such a
call changes no table but the queue and its archive. -/
namespace Teller
open Broker
open Transaction (Buffer)

namespace Rows
variable {rows rows' : Rows} {queue : String} {r : TaskRecord} {kept : List (Moment × TaskRecord)}

theorem tidyBelong (h : rows.Tidy) (queue : String) : rows.Belong queue := by
  constructor
  · intro key value held
    obtain ⟨r, rfl, own, place, -⟩ := h.queue queue key value held
    exact ⟨r, decodedEncode r, place, own⟩
  · intro key value held
    obtain ⟨r, -, rfl, own, place, -⟩ := h.archive queue key value held
    exact ⟨r, decodedEncode r, place, own⟩

def Queued (rows : Rows) (queue : String) (r : TaskRecord) : Prop :=
  r.queue = queue ∧ rows (queueRow r) = some (Json.encode TaskRecord.codec r)

theorem tidyQueued (h : rows.Tidy) (here : rows.record? (queueTable queue) r.id = some r) : rows.Queued queue r := by
  obtain ⟨value, held, read⟩ := recordIff.mp here
  obtain ⟨r', rfl, -, place, -⟩ := h.queue queue r.id.key value held
  cases (decodedEncode r').symm.trans read
  subst place
  exact ⟨rfl, held⟩

theorem queuedFresh (h : rows.Tidy) (queued : rows.Queued queue r) : rows ⟨archiveTable queue, r.id.key⟩ = none := by
  obtain ⟨rfl, held⟩ := queued
  exact (h.apart r.queue r.id.key).resolve_left fun missing => by cases held.symm.trans missing

theorem agedSame (aged : rows.Aged queue kept)
    (same : ∀ key, rows' ⟨archiveTable queue, key⟩ = rows ⟨archiveTable queue, key⟩) : rows'.Aged queue kept := by
  refine ⟨aged.sorted, fun date r => ?_⟩
  rw [aged.listed, record?, record?, same]

def hand (rows : Rows) : Option LeasedTask → Rows
  | none => rows
  | some t => rows.set (queueRow t.record) (some (Json.encode TaskRecord.codec t.record))

theorem handArchive (rows : Rows) (task : Option LeasedTask) (queue : String) (key : Bytes) :
    rows.hand task ⟨archiveTable queue, key⟩ = rows ⟨archiveTable queue, key⟩ := by
  cases task with
  | none => rfl
  | some t => exact setOther _ _ fun same => queueApart _ _ (congrArg RowId.table same).symm

theorem handOthers {task : Option LeasedTask} {row : RowId} (other : ∀ t ∈ task, row ≠ queueRow t.record) :
    rows.hand task row = rows row := by
  cases task with
  | none => rfl
  | some t => exact setOther _ _ (other t rfl)

end Rows

theorem State.agedLength {s : State} {queue : String} {kept : List (Moment × TaskRecord)} (tidy : s.committed.Tidy)
    (aged : s.committed.Aged queue kept) : (s.table (archiveTable queue)).entries.length = kept.length := by
  have keys : ((s.table (archiveTable queue)).entries.map (·.1)).Nodup := by
    refine List.pairwise_map.mpr ((s.table (archiveTable queue)).ascending.imp fun {a b} less same => ?_)
    rw [same] at less
    simp at less
  have ids : (kept.map (·.2.id.key)).Nodup := by
    refine List.pairwise_map.mpr ((List.pairwise_map.mp (Rows.agedDistinct aged)).imp fun apart same => ?_)
    exact apart (Uuid.keyInjective same)
  have same (key : Bytes) : key ∈ (s.table (archiveTable queue)).entries.map (·.1) ↔ key ∈ kept.map (·.2.id.key) := by
    simp only [List.mem_map, Prod.exists, exists_and_right, exists_eq_right]
    constructor
    · rintro ⟨value, mem⟩
      have held : s.committed ⟨archiveTable queue, key⟩ = some value := by
        rw [State.committed, ← State.getTable]
        exact SortedMap.memEntries.mp mem
      obtain ⟨r, date, rfl, rfl, -, state⟩ := tidy.archive queue key value held
      exact ⟨date, r, (aged.listed date r).mpr ⟨Rows.recordOf held, state⟩, rfl⟩
    · rintro ⟨date, r, mem, rfl⟩
      obtain ⟨value, held, -⟩ := Rows.recordIff.mp ((aged.listed date r).mp mem).1
      refine ⟨value, SortedMap.memEntries.mpr ?_⟩
      rw [State.getTable]
      exact held
  have perm := (List.perm_ext_iff_of_nodup keys ids).mpr same
  simpa using perm.length_eq

namespace Broker
variable {s : State} {own own' : Buffer} {Event Answer : Type} {limits : ArchiveLimits} {queue error : String}
  {now : Moment} {duration : Span} {r : TaskRecord}

theorem endsGiveUp {gone : List (Moment × TaskRecord)} {result : Except (Stop BrokerError) Unit}
    (h : Work.Ends s own (gone.forM fun (_, r) => Work.erase ⟨archiveTable queue, r.id.key⟩ : Body Event Answer Unit)
      own' result) : s.amended own' = (s.amended own).giveUp queue (gone.map (·.2)) := by
  rw [endsErasing h, Rows.giveUp, List.foldl_map]

theorem endsCut (holds : (s.amended own).Holds queue (archiveTable queue))
    (h : Work.Ends s own (prune limits queue now : Body Event Answer Unit) own' (.ok ())) :
    ∃ archive, (s.amended own).Aged queue archive ∧
      s.amended own' = (s.amended own).giveUp queue (dropped limits now archive) := by
  rw [pruneRun] at h
  have h := Work.endsScan h
  obtain ⟨records, read, ascending, listed⟩ := Rows.holdsListed holds (State.memScan s own _)
  rw [read] at h
  exact ⟨Rows.byAge records, Rows.agedListed ascending listed, endsGiveUp h⟩

theorem endsShelved (belong : (s.amended own).Belong queue) (mine : r.queue = queue)
    (h : Work.Ends s own (putAway limits r now error : Body Event Answer Unit) own' (.ok ())) :
    ∃ archive, ((s.amended own).shelve now error r).Aged queue archive ∧
      s.amended own' = ((s.amended own).shelve now error r).giveUp queue (dropped limits now archive) := by
  subst mine
  rw [putAwayRun] at h
  have h := Work.endsPut (Work.endsDelete h)
  have rows : s.amended ((own.insert (queueRow r) none).insert (archiveRow r)
      (some (Json.encode TaskRecord.codec (shelved now error r)))) = (s.amended own).shelve now error r := by
    rw [State.amendedInsert, State.amendedInsert]
    rfl
  have holds := Rows.holdsShelve now error belong.archived rfl
  rw [← rows] at holds ⊢
  exact endsCut holds h

theorem endsLost {lost rest : List TaskRecord} {task : Option LeasedTask} (belong : (s.amended own).Belong queue)
    (each : ∀ r ∈ lost, isLost r = true ∧ r.queue = queue)
    (h : Work.Ends s own (leaseFirst limits now duration (lost ++ rest) : Body Event Answer _) own' (.ok task)) :
    ∃ mid, Rows.Shelves limits queue now leaseExpired lost (s.amended own) (s.amended mid) ∧
      Work.Ends s mid (leaseFirst limits now duration rest : Body Event Answer _) own' (.ok task) := by
  induction lost generalizing own with
  | nil => exact ⟨own, .nil _, h⟩
  | cons r lost ih =>
    obtain ⟨out, mine⟩ := each r List.mem_cons_self
    rw [List.cons_append, leaseFirstRun, if_pos out] at h
    rcases Work.endsBind h with ⟨next, _, away, later⟩ | ⟨_, failed, _⟩
    · obtain ⟨archive, aged, rows⟩ := endsShelved belong mine away
      have still : (s.amended next).Belong queue := by
        rw [rows]
        exact Rows.belongShelve belong mine _
      obtain ⟨mid, shelves, last⟩ := ih still (fun x mem => each x (List.mem_cons_of_mem r mem)) later
      exact ⟨mid, .cons aged (rows ▸ shelves), last⟩
    · cases failed

theorem endsFound {rest : List TaskRecord} {task : Option LeasedTask} (next : ∀ p ∈ rest.head?, isLost p = false)
    (h : Work.Ends s own (leaseFirst limits now duration rest : Body Event Answer _) own' (.ok task)) :
    s.amended own' = (s.amended own).hand task ∧ ∀ t ∈ task, ∃ p ∈ rest.head?, Grants now duration p t := by
  cases rest with
  | nil =>
    obtain ⟨rfl, same⟩ := Work.endsDone h
    cases same
    exact ⟨rfl, fun t given => by cases given⟩
  | cons p rest =>
    rw [leaseFirstRun, if_neg (by simp [next p rfl])] at h
    rcases Work.endsBind h with ⟨mid, t, given, later⟩ | ⟨_, failed, _⟩
    · obtain ⟨rfl, same⟩ := Work.endsDone later
      cases same
      obtain ⟨grants, rfl⟩ := endsGrant given
      refine ⟨State.amendedInsert .., fun _ given => ⟨p, rfl, ?_⟩⟩
      cases given
      exact grants
    · cases failed

theorem endsLeases {reply : Reply} (tidy : s.committed.Tidy)
    (h : Work.Ends s ∅ ((Request.lease queue now duration).body limits : Body Event Answer Reply) own (.ok reply)) :
    ∃ lost rest task mid, reply = .granted task ∧ First s.committed queue now lost rest ∧
      Rows.Shelves limits queue now leaseExpired lost s.committed mid ∧ s.amended own = mid.hand task ∧
      ∀ t ∈ task, ∃ p ∈ rest.head?, Grants now duration p t := by
  have belong : (s.amended ∅).Belong queue := Rows.tidyBelong tidy queue
  rw [leaseRun] at h
  have h := Work.endsScan h
  obtain ⟨records, read, ascending, listed⟩ := Rows.holdsListed belong.queued (State.memScan s ∅ _)
  obtain ⟨lost, rest, split, out, first⟩ := firstSplit (Rows.dueListed now ascending listed)
  have mine (r : TaskRecord) (mem : r ∈ lost) : r.queue = queue :=
    Rows.recordQueue belong.queued ((first.due.listed r).mp (List.mem_append_left rest mem)).1
  have next (p : TaskRecord) (head : p ∈ rest.head?) : isLost p = false := by
    obtain ⟨-, date, since, -⟩ := (first.due.listed p).mp (List.mem_append_right lost (List.mem_of_mem_head? head))
    exact (deliverableIff since).mp (first.next p head)
  rw [read] at h
  dsimp only at h
  rw [split] at h
  rcases Work.endsBind h with ⟨last, task, search, later⟩ | ⟨_, failed, _⟩
  · obtain ⟨rfl, same⟩ := Work.endsDone later
    cases same
    obtain ⟨mid, shelves, search⟩ := endsLost belong (fun r mem => ⟨out r mem, mine r mem⟩) search
    obtain ⟨hands, grants⟩ := endsFound next search
    exact ⟨lost, rest, task, s.amended mid, rfl, first, shelves, hands, grants⟩
  · cases failed

theorem endsArchives {l : Lease} {reply : Reply} (tidy : s.committed.Tidy)
    (h : Work.Ends s ∅ ((Request.archive l now error).body limits : Body Event Answer Reply) own (.ok reply)) :
    ∃ r expiry, s.committed.Queued l.queue r ∧ r.id = l.taskId ∧ r.state = .active l.leaseId expiry ∧
      Rows.Shelves limits l.queue now error [r] s.committed (s.amended own) := by
  rw [archiveRun] at h
  obtain ⟨r, expiry, place, name, -, stands, active, h⟩ := endsStaged tidy h
  refine ⟨r, expiry, ⟨place, stands.1⟩, name, active, ?_⟩
  rcases Work.endsBind h with ⟨mid, _, away, later⟩ | ⟨_, failed, _⟩
  · obtain ⟨rfl, -⟩ := Work.endsDone later
    have belong : (s.amended ∅).Belong l.queue := Rows.tidyBelong tidy l.queue
    obtain ⟨archive, aged, rows⟩ := endsShelved belong place away
    rw [rows]
    exact .cons aged (.nil _)
  · cases failed

structure PutsAway (limits : ArchiveLimits) (queue : String) (now : Moment) (error : String) (before : Rows)
    (lost : List TaskRecord) (task : Option LeasedTask) (after : State) : Prop where
  found : ∀ r ∈ lost, before.Queued queue r
  gone : ∀ r ∈ lost, after.value? (queueRow r) = none
  others : ∀ row, row.table ≠ archiveTable queue → (∀ r ∈ lost, row ≠ queueRow r) →
    (∀ t ∈ task, row ≠ queueRow t.record) → after.value? row = before row
  idle : lost = [] → ∀ key, after.value? ⟨archiveTable queue, key⟩ = before ⟨archiveTable queue, key⟩
  archive : lost ≠ [] → ∃ kept, after.committed.Aged queue kept ∧
    (after.table (archiveTable queue)).entries.length = kept.length ∧
    Trimmed limits now (fun e => before.InArchive queue e ∨ ∃ r ∈ lost, e = (now, shelved now error r)) kept

theorem putsAway {before mid : Rows} {lost : List TaskRecord} {task : Option LeasedTask} {after : State}
    (tidy : before.Tidy) (left : after.committed.Tidy) (found : ∀ r ∈ lost, before.Queued queue r)
    (distinct : (lost.map (·.id)).Nodup) (shelves : Rows.Shelves limits queue now error lost before mid)
    (other : ∀ r ∈ lost, ∀ t ∈ task, queueRow r ≠ queueRow t.record) (rows : after.committed = mid.hand task) :
    PutsAway limits queue now error before lost task after := by
  have mine (r : TaskRecord) (mem : r ∈ lost) : r.queue = queue := (found r mem).1
  have value (row : RowId) : after.value? row = mid.hand task row := congrFun rows row
  have archive (key : Bytes) : after.value? ⟨archiveTable queue, key⟩ = mid ⟨archiveTable queue, key⟩ := by
    rw [value, Rows.handArchive]
  constructor
  case found => exact found
  case gone =>
    intro r mem
    rw [value, Rows.handOthers (other r mem), Rows.shelvesElsewhere shelves mine (queueApart _ _),
      if_pos (List.mem_map_of_mem mem)]
  case others =>
    intro row apart aside behind
    rw [value, Rows.handOthers behind, Rows.shelvesElsewhere shelves mine apart, if_neg]
    intro mem
    obtain ⟨r, there, rfl⟩ := List.mem_map.mp mem
    exact aside r there rfl
  case idle =>
    rintro rfl key
    rw [archive]
    cases shelves
    rfl
  case archive =>
    intro ended
    obtain ⟨kept, aged, trimmed⟩ := Rows.shelvesCut shelves ended mine distinct fun r mem =>
      Rows.queuedFresh tidy (found r mem)
    have aged : after.committed.Aged queue kept := Rows.agedSame aged archive
    exact ⟨kept, aged, State.agedLength left aged, trimmed⟩

theorem archivesPutAway {l : Lease} {reply : Reply} {after : State} (tidy : s.committed.Tidy)
    (left : after.committed.Tidy) (rows : after.committed = s.amended own)
    (h : Work.Ends s ∅ ((Request.archive l now error).body limits : Body Event Answer Reply) own (.ok reply)) :
    ∃ r expiry, r.id = l.taskId ∧ r.state = .active l.leaseId expiry ∧
      PutsAway limits l.queue now error s.committed [r] none after := by
  obtain ⟨r, expiry, queued, name, active, shelves⟩ := endsArchives tidy h
  exact ⟨r, expiry, name, active, putsAway tidy left (by simpa using queued) (by simp) shelves (by simp) rows⟩

theorem leasesPutAway {reply : Reply} {after : State} (tidy : s.committed.Tidy) (left : after.committed.Tidy)
    (rows : after.committed = s.amended own)
    (h : Work.Ends s ∅ ((Request.lease queue now duration).body limits : Body Event Answer Reply) own (.ok reply)) :
    ∃ lost rest task, reply = .granted task ∧ First s.committed queue now lost rest ∧
      PutsAway limits queue now leaseExpired s.committed lost task after := by
  obtain ⟨lost, rest, task, mid, rfl, first, shelves, hands, grants⟩ := endsLeases tidy h
  have distinct := Rows.dueDistinct first.due
  rw [List.map_append, List.nodup_append] at distinct
  refine ⟨lost, rest, task, rfl, first, putsAway tidy left (fun r mem => ?_) distinct.1 shelves ?_ (rows.trans hands)⟩
  · exact Rows.tidyQueued tidy ((first.due.listed r).mp (List.mem_append_left rest mem)).1
  · intro r mem t given same
    obtain ⟨p, head, grants⟩ := grants t given
    rw [grantsRow grants] at same
    have there : p.id ∈ rest.map (·.id) := List.mem_map_of_mem (List.mem_of_mem_head? head)
    exact distinct.2.2 r.id (List.mem_map_of_mem mem) p.id there (Uuid.keyInjective (congrArg RowId.key same))

end Broker

namespace SharedBroker

/-- Whatever an archive holds, and whatever time it is: a call that puts tasks away leaves it with no more than it may
hold and nothing that is too old. It gives up the oldest, no more than it has to, and touches no other table but
the queue's own. -/
theorem archiveLimitsHold (limits : ArchiveLimits) {db : Database} (opened : db.Opened)
    (tidy : db.state.committed.Tidy) (moves : List Move)
    (asks : ∀ who request, .begin who request ∈ moves → request.Handed) :
    ∀ earlier e later, ((start limits db).run moves).log = earlier ++ e :: later →
      let before := (rowsAfter db.state earlier).committed
      (∀ l now error, e.call.request = .archive l now error → ∃ r expiry, r.id = l.taskId ∧
        r.state = .active l.leaseId expiry ∧ PutsAway limits l.queue now error before [r] none e.rows) ∧
      ∀ queue now duration, e.call.request = .lease queue now duration → ∃ lost rest task,
        e.call.reply = .granted task ∧ First before queue now lost rest ∧
        PutsAway limits queue now leaseExpired before lost task e.rows := by
  intro earlier e later log
  obtain ⟨-, inTurn, logged⟩ := runInTurn limits opened (filedTidy tidy) (fun _ _ _ => id)
    (askingAlways asks (start limits db))
  have passed := passedInTurn tidy inTurn fun e mem => by
    obtain ⟨earlier, later, split⟩ := List.append_of_mem mem
    exact logged earlier e later split
  rw [log, inTurnAppend] at inTurn
  rw [log, passedAppend] at passed
  obtain ⟨-, ⟨own, ends, after⟩, -⟩ := inTurn
  obtain ⟨before, ⟨left, -⟩, -⟩ := passed
  have found := tidyAfter tidy before
  have rows := State.committedAfter after
  constructor
  · intro l now error asked
    rw [asked] at ends
    exact archivesPutAway found left rows ends
  · intro queue now duration asked
    rw [asked] at ends
    exact leasesPutAway found left rows ends

def onceOnly : TaskRecord := { letter with maxRetry := 0 }

def lostLetter : List Move :=
  let act (who : Nat) : Move := .act who (.versionFour who)
  [.begin 0 (.enqueue onceOnly), act 0, act 0, act 0, .commit 0,
    .begin 1 (.lease "mail" .epoch minute), act 1, act 1, act 1, .commit 1,
    .begin 2 (.lease "mail" firstLease.expiresAt minute), act 2, act 2, act 2, act 2, .commit 2]

theorem archiveLimitsHoldForLostLetter :
    let limits : ArchiveLimits := ⟨1, minute⟩
    let now := firstLease.expiresAt
    ∃ (earlier : List Entry) (e : Entry) (lost : List TaskRecord) (kept : List (Moment × TaskRecord)),
      ((start limits .inMemory).run lostLetter).log = earlier ++ e :: [] ∧
      e.call = ⟨.lease "mail" now minute, .granted none⟩ ∧
      (∀ r ∈ lost, (rowsAfter Database.inMemory.state earlier).committed.Queued "mail" r) ∧
      e.rows.committed.Aged "mail" kept ∧ kept.length = 1 ∧
      Trimmed limits now (fun e => (rowsAfter Database.inMemory.state earlier).committed.InArchive "mail" e ∨
        ∃ r ∈ lost, e = (now, shelved now leaseExpired r)) kept := by
  intro limits now
  have handed : ∀ who request, .begin who request ∈ lostLetter → request.Handed := by
    rintro who request mem r rfl
    obtain ⟨rfl, rfl⟩ : who = 0 ∧ r = onceOnly := by simpa [lostLetter] using mem
    exact ⟨{ letterTask with options := ⟨"mail", 0, none, none⟩ }, .epoch, by decide⟩
  have nothing : Database.inMemory.state.committed.Tidy := by
    refine ⟨fun _ _ _ held => ?_, fun _ _ _ held => ?_, fun _ _ => .inl rfl⟩
    · cases held
    · cases held
  have limited := archiveLimitsHold limits .inMemory nothing lostLetter handed
  have facts : ((start limits .inMemory).run lostLetter).log.map (fun e =>
      (decide (e.call = ⟨.lease "mail" now minute, .granted none⟩), (e.rows.value? (queueRow onceOnly)).isSome,
        (e.rows.table (archiveTable "mail")).entries.length)) =
      [(false, true, 0), (false, true, 0), (true, false, 1)] := by decide +kernel
  simp only [List.map_eq_cons_iff, List.map_eq_nil_iff, Prod.mk.injEq, decide_eq_true_eq] at facts
  obtain ⟨e₀, _, log, -, e₁, _, rfl, ⟨-, before, -⟩, e, _, rfl, ⟨call, after, size⟩, rfl⟩ := facts
  obtain ⟨-, leases⟩ := limited [e₀, e₁] e [] log
  obtain ⟨lost, rest, task, reply, -, away⟩ := leases "mail" now minute (by rw [call])
  obtain rfl : none = task := by simpa [call] using reply
  have ended : lost ≠ [] := by
    rintro rfl
    have same := away.others (queueRow onceOnly) (queueApart _ _) (by simp) (by simp)
    rw [same] at after
    cases before.symm.trans after
  obtain ⟨kept, aged, length, trimmed⟩ := away.archive ended
  exact ⟨[e₀, e₁], e, lost, kept, log, call, away.found, aged, length.symm.trans size, trimmed⟩

end SharedBroker
end Teller
