import Teller.Proofs.CallsAlone
import Teller.Proofs.QueueTables

/-! Which task of a queue is handed out next. Those before it whose last lease ran out are put away, and all others
stay as they are. -/
namespace Teller
open Broker
open Transaction (Buffer)

namespace Broker
variable {s : State} {own : Buffer} {limits : ArchiveLimits} {queue : String} {now : Moment} {duration : Span}
  {r p : TaskRecord}

theorem aloneErasing (queue : String) (gone : List (Moment × TaskRecord)) (own : Buffer) (supply : Supply) : ∃ own',
    (gone.forM fun (_, r) => Work.erase ⟨archiveTable queue, r.id.key⟩ : Body Empty Empty Unit).alone s own supply =
      (.ok (), own', supply) ∧ s.amended own' = (s.amended own).giveUp queue (gone.map (·.2)) := by
  induction gone generalizing own with
  | nil => exact ⟨own, rfl, rfl⟩
  | cons e gone ih =>
    obtain ⟨own', done, rows⟩ := ih (own.insert ⟨archiveTable queue, e.2.id.key⟩ none)
    refine ⟨own', done, ?_⟩
    rw [rows, State.amendedInsert]
    rfl

theorem alonePrune (limits : ArchiveLimits) (now : Moment) (supply : Supply)
    (holds : (s.amended own).Holds queue (archiveTable queue)) : ∃ archive own', (s.amended own).Aged queue archive ∧
      (prune limits queue now : Body Empty Empty Unit).alone s own supply = (.ok (), own', supply) ∧
      s.amended own' = (s.amended own).giveUp queue (dropped limits now archive) := by
  obtain ⟨records, read, ascending, listed⟩ := Rows.holdsListed holds (State.memScan s own _)
  obtain ⟨own', done, rows⟩ := aloneErasing queue
    ((Rows.byAge records).take (surplus limits now (Rows.byAge records))) own supply
  refine ⟨Rows.byAge records, own', Rows.agedListed ascending listed, ?_, rows⟩
  rw [pruneRun, Work.alone, read]
  exact done

theorem alonePutAway (limits : ArchiveLimits) (now : Moment) (error : String) (supply : Supply)
    (belong : (s.amended own).Belong queue) (mine : r.queue = queue) :
    ∃ archive own', ((s.amended own).shelve now error r).Aged queue archive ∧
      (putAway limits r now error : Body Empty Empty Unit).alone s own supply = (.ok (), own', supply) ∧
      s.amended own' = ((s.amended own).shelve now error r).giveUp queue (dropped limits now archive) := by
  subst mine
  have rows : s.amended ((own.insert (queueRow r) none).insert (archiveRow r)
      (some (Json.encode TaskRecord.codec (shelved now error r)))) = (s.amended own).shelve now error r := by
    rw [State.amendedInsert, State.amendedInsert]
    rfl
  have holds := Rows.holdsShelve now error belong.archived rfl
  rw [← rows] at holds ⊢
  exact alonePrune limits now supply holds

theorem aloneLost (limits : ArchiveLimits) (now : Moment) (duration : Span) (supply : Supply)
    (belong : (s.amended own).Belong queue) {lost : List TaskRecord} (rest : List TaskRecord)
    (each : ∀ r ∈ lost, isLost r = true ∧ r.queue = queue) :
    ∃ own', (leaseFirst limits now duration (lost ++ rest) : Body Empty Empty (Option LeasedTask)).alone s own supply =
        (leaseFirst limits now duration rest : Body Empty Empty (Option LeasedTask)).alone s own' supply ∧
      Rows.Shelves limits queue now leaseExpired lost (s.amended own) (s.amended own') := by
  induction lost generalizing own with
  | nil => exact ⟨own, rfl, .nil _⟩
  | cons r lost ih =>
    obtain ⟨out, mine⟩ := each r List.mem_cons_self
    obtain ⟨archive, mid, aged, away, rows⟩ := alonePutAway limits now leaseExpired supply belong mine
    have still : (s.amended mid).Belong queue := by
      rw [rows]
      exact Rows.belongShelve belong mine _
    obtain ⟨own', later, shelves⟩ := ih still fun x mem => each x (List.mem_cons_of_mem _ mem)
    refine ⟨own', ?_, .cons aged (rows ▸ shelves)⟩
    rw [List.cons_append, leaseFirstRun, if_pos out, Work.aloneBound away, later]

def Deliverable (r : TaskRecord) : Prop :=
  r.state = .pending ∨ (∃ leaseId expiry, r.state = .active leaseId expiry) ∧ r.retried < r.maxRetry

theorem deliverableIff {date : Moment} (ready : r.readyAt = some date) : Deliverable r ↔ isLost r = false := by
  unfold Deliverable isLost TaskRecord.isExhausted
  cases state : r.state with
  | pending => simp
  | active leaseId expiry => simp
  | archived archivedAt => simp [TaskRecord.readyAt, state] at ready

def handOut (leaseId : Uuid) (expiresAt : Moment) (p : TaskRecord) : LeasedTask :=
  ⟨match p.state with
    | .active _ _ =>
        { p with state := .active leaseId expiresAt, retried := p.retried + 1, lastError := some leaseExpired }
    | _ => { p with state := .active leaseId expiresAt },
    ⟨p.id, p.queue, leaseId, expiresAt⟩⟩

theorem handOutReclaimed (leaseId : Uuid) (expiresAt : Moment) (p : TaskRecord) : handOut leaseId expiresAt p =
    ⟨{ reclaimed p with state := .active leaseId expiresAt }, ⟨p.id, p.queue, leaseId, expiresAt⟩⟩ := by
  unfold handOut reclaimed
  cases p.state <;> rfl

theorem aloneGrant (now : Moment) (duration : Span) (p : TaskRecord) (own : Buffer) (supply : Supply) :
    (grant now duration p : Body Empty Empty LeasedTask).alone s own supply = match now.add? duration with
      | none => (.error (.overflow .date), own, supply.id.2)
      | some expiresAt => (.ok (handOut supply.id.1 expiresAt p),
          own.insert (queueRow p) (some (Json.encode TaskRecord.codec (handOut supply.id.1 expiresAt p).record)),
          supply.id.2) := by
  obtain ⟨id, queue⟩ := reclaimedRow p
  have row : queueRow (reclaimed p) = queueRow p := by simp only [queueRow, id, queue]
  rw [grantRun, Work.alone]
  cases now.add? duration with
  | none => rfl
  | some expiresAt => simp only [Work.alone, row, handOutReclaimed, id, queue]

theorem leaseBody (limits : ArchiveLimits) (queue : String) (now : Moment) (duration : Span) :
    (lease limits queue now duration : Body Empty Empty (Option LeasedTask)) =
      .scan (queueTable queue) fun rows => match decodedRows rows with
        | .ok records => leaseFirst limits now duration (due now records)
        | .error e => .done (.error e) := by
  show Work.scan (queueTable queue) _ = _
  congr
  funext rows
  show Work.bind (rows.mapM _) _ = _
  rw [decodeRows]
  cases decodedRows rows <;> rfl

structure First (rows : Rows) (queue : String) (now : Moment) (lost rest : List TaskRecord) : Prop where
  due : rows.Due queue now (lost ++ rest)
  lost : ∀ r ∈ lost, ¬ Deliverable r
  next : ∀ p ∈ rest.head?, Deliverable p

theorem firstSplit {rows : Rows} {all : List TaskRecord} (due : rows.Due queue now all) :
    ∃ lost rest, all = lost ++ rest ∧ (∀ r ∈ lost, isLost r = true) ∧ First rows queue now lost rest := by
  have split := List.takeWhile_append_dropWhile (p := isLost) (l := all)
  have out := List.all_eq_true.mp (List.all_takeWhile (p := isLost) (l := all))
  refine ⟨all.takeWhile isLost, all.dropWhile isLost, split.symm, out, ?_⟩
  have ready (r : TaskRecord) (mem : r ∈ all) : ∃ date, r.readyAt = some date := by
    obtain ⟨-, date, since, -⟩ := (due.listed r).mp mem
    exact ⟨date, since⟩
  constructor
  case due => rwa [split]
  case lost =>
    intro r mem
    obtain ⟨date, since⟩ := ready r ((List.takeWhile_sublist isLost).subset mem)
    rw [deliverableIff since, out r mem]
    nofun
  case next =>
    intro p head
    obtain ⟨date, since⟩ := ready p ((List.dropWhile_sublist isLost).subset (List.mem_of_mem_head? head))
    rw [deliverableIff since]
    have := List.head?_dropWhile_not isLost all
    rw [head] at this
    simpa using this

theorem aloneLease (limits : ArchiveLimits) (now : Moment) (duration : Span) (supply : Supply)
    (belong : (s.amended ∅).Belong queue) : ∃ lost rest own, First (s.amended ∅) queue now lost rest ∧
      Rows.Shelves limits queue now leaseExpired lost (s.amended ∅) (s.amended own) ∧
      (lease limits queue now duration : Body Empty Empty (Option LeasedTask)).alone s ∅ supply =
        match rest, now.add? duration with
        | [], _ => (.ok none, own, supply)
        | _ :: _, none => (.error (.overflow .date), own, supply.id.2)
        | p :: _, some expiresAt => (.ok (some (handOut supply.id.1 expiresAt p)),
            own.insert (queueRow p) (some (Json.encode TaskRecord.codec (handOut supply.id.1 expiresAt p).record)),
            supply.id.2) := by
  obtain ⟨records, read, ascending, listed⟩ := Rows.holdsListed belong.queued (State.memScan s ∅ _)
  obtain ⟨lost, rest, split, out, first⟩ := firstSplit (Rows.dueListed now ascending listed)
  have mine (r : TaskRecord) (mem : r ∈ lost) : r.queue = queue :=
    Rows.recordQueue belong.queued ((first.due.listed r).mp (List.mem_append_left rest mem)).1
  obtain ⟨own, came, shelves⟩ := aloneLost limits now duration supply belong rest fun r mem => ⟨out r mem, mine r mem⟩
  refine ⟨lost, rest, own, first, shelves, ?_⟩
  rw [leaseBody, Work.alone, read]
  dsimp only
  rw [split, came]
  cases rest with
  | nil => rfl
  | cons p rest =>
    have stays : isLost p = false := by
      obtain ⟨-, date, since, -⟩ := (first.due.listed p).mp (by simp)
      exact (deliverableIff since).mp (first.next p rfl)
    rw [leaseFirstRun, if_neg (by simp [stays]), Work.aloneBind, aloneGrant]
    cases now.add? duration <;> rfl

structure Serves (limits : ArchiveLimits) (queue : String) (now : Moment) (before after : Rows) (lost : List TaskRecord)
    (task : Option LeasedTask) : Prop where
  handed : ∀ t ∈ task, after (queueRow t.record) = some (Json.encode TaskRecord.codec t.record)
  gone : ∀ r ∈ lost, after (queueRow r) = none
  kept : ∀ row, row.table ≠ archiveTable queue → (∀ r ∈ lost, row ≠ queueRow r) →
    (∀ t ∈ task, row ≠ queueRow t.record) → after row = before row
  away : ∀ r ∈ lost, after (archiveRow r) = none ∨
    after (archiveRow r) = some (Json.encode TaskRecord.codec (shelved now leaseExpired r))
  archive : ∀ key, (∀ r ∈ lost, key ≠ r.id.key) → after ⟨archiveTable queue, key⟩ = none ∨
    after ⟨archiveTable queue, key⟩ = before ⟨archiveTable queue, key⟩
  pruned : ∃ mid, Rows.Shelves limits queue now leaseExpired lost before mid ∧
    ∀ key, after ⟨archiveTable queue, key⟩ = mid ⟨archiveTable queue, key⟩

variable {before mid after : Rows} {lost rest : List TaskRecord}

theorem handOutRow (leaseId : Uuid) (expiresAt : Moment) (p : TaskRecord) :
    queueRow (handOut leaseId expiresAt p).record = queueRow p := by
  obtain ⟨id, queue⟩ := reclaimedRow p
  simp only [handOutReclaimed, queueRow, id, queue]

theorem servesNone (belong : before.Belong queue) (first : First before queue now lost rest)
    (shelves : Rows.Shelves limits queue now leaseExpired lost before mid) :
    Serves limits queue now before mid lost none := by
  have mine (r : TaskRecord) (mem : r ∈ lost) : r.queue = queue :=
    Rows.recordQueue belong.queued ((first.due.listed r).mp (List.mem_append_left rest mem)).1
  have elsewhere {row : RowId} (apart : row.table ≠ archiveTable queue) := Rows.shelvesElsewhere shelves mine apart
  have distinct : (lost.map (·.id)).Nodup := (Rows.dueDistinct first.due).sublist ((List.sublist_append_left lost rest).map _)
  constructor
  case handed =>
    intro t mem
    cases mem
  case gone =>
    intro r mem
    rw [elsewhere (queueApart _ _), if_pos (List.mem_map_of_mem mem)]
  case kept =>
    intro row apart others _
    rw [elsewhere apart, if_neg]
    intro mem
    obtain ⟨r, there, rfl⟩ := List.mem_map.mp mem
    exact others r there rfl
  case away =>
    intro r mem
    rw [archiveRow, mine r mem]
    exact Rows.shelvesLost shelves mine distinct r mem
  case archive => exact fun key others => Rows.shelvesBystander shelves mine others
  case pruned => exact ⟨mid, shelves, fun _ => rfl⟩

theorem servesNext {t : LeasedTask} (serves : Serves limits queue now before mid lost none)
    (other : ∀ r ∈ lost, r.id ≠ t.record.id) :
    Serves limits queue now before (mid.set (queueRow t.record) (some (Json.encode TaskRecord.codec t.record))) lost
      (some t) := by
  have archive (key : Bytes) : (⟨archiveTable queue, key⟩ : RowId) ≠ queueRow t.record := fun same =>
    queueApart _ _ (congrArg RowId.table same).symm
  constructor
  case handed =>
    rintro t' ⟨⟩
    exact Rows.setSelf _ _ _
  case gone =>
    intro r mem
    rw [Rows.setOther _ _ fun same => other r mem (Uuid.keyInjective (congrArg RowId.key same))]
    exact serves.gone r mem
  case kept =>
    intro row apart others behind
    rw [Rows.setOther _ _ (behind t rfl)]
    exact serves.kept row apart others fun t mem => by cases mem
  case away =>
    intro r mem
    have apart : archiveRow r ≠ queueRow t.record := fun same => queueApart _ _ (congrArg RowId.table same).symm
    rw [Rows.setOther _ _ apart]
    exact serves.away r mem
  case archive =>
    intro key others
    rw [Rows.setOther _ _ (archive key)]
    exact serves.archive key others
  case pruned =>
    obtain ⟨mid', shelves, same⟩ := serves.pruned
    exact ⟨mid', shelves, fun key => by rw [Rows.setOther _ _ (archive key), same]⟩

theorem servesHandOut (first : First before queue now lost (p :: rest)) (kept : Serves limits queue now before mid lost none)
    (leaseId : Uuid) (expiresAt : Moment) :
    Serves limits queue now before
      (mid.set (queueRow p) (some (Json.encode TaskRecord.codec (handOut leaseId expiresAt p).record))) lost
      (some (handOut leaseId expiresAt p)) := by
  have row := handOutRow leaseId expiresAt p
  have id : (handOut leaseId expiresAt p).record.id = p.id := Uuid.keyInjective (congrArg RowId.key row)
  have distinct := Rows.dueDistinct first.due
  rw [List.map_append, List.map_cons, List.nodup_append] at distinct
  rw [← row]
  exact servesNext kept fun r mem same =>
    distinct.2.2 r.id (List.mem_map_of_mem mem) p.id List.mem_cons_self (same.trans id)

end Broker

namespace Bank
open Broker

section
variable (limits : ArchiveLimits) {queue : String} {now expiresAt : Moment} {duration : Span} {b : Bank}

end

def spent : TaskRecord :=
  ⟨.versionFour 1, "send", [], "mail", 0, .epoch, 0, .active (.versionFour 2) ⟨1000, by decide⟩, none, .epoch⟩

def waiting : TaskRecord := { spent with id := .versionFour 3, notBefore := ⟨2000, by decide⟩, state := .pending }

def mailbox : Bank :=
  { plan := {}, queues := { state := { rows := ((∅ : SortedMap RowId Versioned).insert (queueRow spent)
      ⟨1, Json.encode TaskRecord.codec spent⟩).insert (queueRow waiting) ⟨1, Json.encode TaskRecord.codec waiting⟩ } } }

theorem mailboxRow (row : RowId) : mailbox.queues.state.value? row =
    if row = queueRow waiting then some (Json.encode TaskRecord.codec waiting)
    else if row = queueRow spent then some (Json.encode TaskRecord.codec spent) else none := by
  simp only [State.value?, mailbox, SortedMap.getInsert, SortedMap.getEmpty]
  split
  · rfl
  · split <;> rfl

theorem mailboxBelongs (queue : String) : Rows.Belong mailbox.queues.state.value? queue := by
  refine Rows.belongQueued (fun row value held => ?_) queue
  rw [mailboxRow] at held
  split at held
  next here =>
    cases held
    exact ⟨waiting, decodedEncode _, here⟩
  next =>
    split at held
    next here =>
      cases held
      exact ⟨spent, decodedEncode _, here⟩
    next => cases held

theorem mailboxDue : Rows.Due mailbox.queues.state.value? "mail" ⟨2000, by decide⟩ [spent, waiting] := by
  have stored (r : TaskRecord) : Rows.record? mailbox.queues.state.value? (queueTable "mail") r.id = some r ↔
      r = spent ∨ r = waiting := by
    rw [Rows.recordIff]
    constructor
    · rintro ⟨value, held, read⟩
      rw [mailboxRow] at held
      grind [decodedEncode]
    · rintro (rfl | rfl)
      · exact ⟨_, mailboxRow (queueRow spent), decodedEncode spent⟩
      · exact ⟨_, mailboxRow (queueRow waiting), decodedEncode waiting⟩
  constructor
  case sorted => exact List.pairwise_pair.mpr ⟨⟨1000, by decide⟩, ⟨2000, by decide⟩, rfl, rfl, .inl (by decide)⟩
  case listed =>
    intro r
    rw [stored, List.mem_cons, List.mem_singleton]
    constructor
    · rintro (rfl | rfl)
      · exact ⟨.inl rfl, ⟨1000, by decide⟩, rfl, by decide⟩
      · exact ⟨.inr rfl, ⟨2000, by decide⟩, rfl, by decide⟩
    · exact And.left

end Bank
end Teller
