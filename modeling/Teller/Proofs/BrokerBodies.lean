import Teller.Broker
import Teller.Proofs.Json.TaskRows
import Teller.Proofs.WorkAlone

/-! The broker's bodies one operation at a time, and what each has come to when it ends: which rows of the
queues it writes, and what it found there before. -/
namespace Teller.Broker
open Transaction (Op Buffer)
variable {γ Event Answer α : Type}

def decoded (value : Bytes) : Except (Stop BrokerError) TaskRecord :=
  (Json.decode TaskRecord.codec value.data.toList).mapError fun e => .failed (.encoding e.message)

theorem decodeRun (value : Bytes) : (decode value : Body Event Answer TaskRecord) = .done (decoded value) := by
  unfold decode decoded
  cases Json.decode TaskRecord.codec value.data.toList <;> rfl

theorem decodedEncode (r : TaskRecord) : decoded (Json.encode TaskRecord.codec r) = .ok r := by
  rw [decoded, TaskRecord.decodeEncode]
  rfl

def decodedRows (rows : List (Bytes × Bytes)) : Except (Stop BrokerError) (List TaskRecord) :=
  rows.mapM fun (_, value) => decoded value

theorem decodeRows (rows : List (Bytes × Bytes)) :
    (rows.mapM fun (_, value) => decode value : Body Event Answer (List TaskRecord)) = .done (decodedRows rows) := by
  induction rows with
  | nil => rfl
  | cons row rows ih =>
    obtain ⟨key, value⟩ := row
    unfold decodedRows at ih ⊢
    rw [List.mapM_cons, List.mapM_cons]
    dsimp only
    rw [decodeRun]
    cases decoded value with
    | error e => rfl
    | ok r =>
      show Work.bind (rows.mapM _) _ = _
      rw [ih]
      cases rows.mapM (m := Except _) _ <;> rfl

theorem queueTableInjective {a b : String} (h : queueTable a = queueTable b) : a = b := by
  have letters := congrArg String.toList h
  simp only [queueTable, String.toList_append] at letters
  exact String.toList_inj.mp (List.append_cancel_left letters)

theorem queueApart (queue archive : String) : queueTable queue ≠ archiveTable archive := by
  intro h
  have letters := congrArg String.toList h
  simp [queueTable, archiveTable, String.toList_append] at letters

theorem queueRowIff {queue : String} {id : Uuid} {r : TaskRecord} :
    queueRow r = ⟨queueTable queue, id.key⟩ ↔ r.queue = queue ∧ r.id = id := by
  constructor
  · intro h
    exact ⟨queueTableInjective (congrArg RowId.table h), Uuid.keyInjective (congrArg RowId.key h)⟩
  · rintro ⟨rfl, rfl⟩
    rfl

section
variable {may : γ → Op → γ → Prop} {g : γ}

theorem scanArchiveRun (queue : String) : (scanArchive queue : Body Event Answer _) =
    .scan (archiveTable queue) fun rows => .done ((decodedRows rows).map fun records =>
      (records.filterMap fun r => (archivedAt? r).map (·, r)).mergeSort olderFirst) := by
  show Work.scan (archiveTable queue) _ = _
  congr
  funext rows
  show Work.bind (rows.mapM _) _ = _
  rw [decodeRows]
  cases decodedRows rows <;> rfl

theorem keepsErasing {queue : String} (erases : ∀ key, may g (.delete ⟨archiveTable queue, key⟩) g)
    (dropped : List (Moment × TaskRecord)) :
    (dropped.forM fun (_, r) => Work.erase ⟨archiveTable queue, r.id.key⟩ : Body Event Answer Unit).Keeps may
      (fun later _ => later = g) g := by
  induction dropped with
  | nil => rfl
  | cons e dropped ih => exact ⟨g, erases _, ih⟩

theorem keepsPrune {limits : ArchiveLimits} {queue : String} {now : Moment}
    (scans : may g (.scan (archiveTable queue)) g) (erases : ∀ key, may g (.delete ⟨archiveTable queue, key⟩) g) :
    (prune limits queue now : Body Event Answer Unit).Keeps may (fun later _ => later = g) g := by
  unfold prune
  rw [scanArchiveRun]
  refine Work.keepsBind ⟨g, scans, fun rows => ?_⟩
  dsimp only
  cases decodedRows rows with
  | error e => exact rfl
  | ok records => exact keepsErasing erases _

end

inductive Request where
  | enqueue (record : TaskRecord)
  | lease (queue : String) (now : Moment) (duration : Span)
  | extend (lease : Lease) (deadline : Moment)
  | acknowledge (lease : Lease)
  | retry (lease : Lease) (runAt : Moment) (error : String)
  | archive (lease : Lease) (now : Moment) (error : String)
  deriving DecidableEq

inductive Reply where
  | done
  | granted (task : Option LeasedTask)
  | extended (lease : Lease)
  deriving DecidableEq

def Request.body (limits : ArchiveLimits) : Request → Body Event Answer Reply
  | .enqueue r => do Broker.enqueue r; return .done
  | .lease queue now duration => return .granted (← Broker.lease limits queue now duration)
  | .extend l deadline => return .extended (← Broker.extend l deadline)
  | .acknowledge l => do Broker.acknowledge l; return .done
  | .retry l runAt error => do Broker.retry l runAt error; return .done
  | .archive l now error => do Broker.archive limits l now error; return .done

def leaseRow (l : Lease) : RowId := ⟨queueTable l.queue, l.taskId.key⟩

def leasedIn (l : Lease) : Option Bytes → Except (Stop BrokerError) TaskRecord
  | none => .error (.failed .leaseLost)
  | some value => do
      let r ← decoded value
      if isHeldBy l r then return r else .error (.failed .leaseLost)

theorem leasedRun (l : Lease) (next : TaskRecord → Body Event Answer α) : (leased l).bind next =
    .get (leaseRow l) fun held => match leasedIn l held with
      | .ok r => next r
      | .error e => .done (.error e) := by
  show Work.get (leaseRow l) _ = _
  congr
  funext held
  cases held with
  | none => rfl
  | some value =>
    show Work.bind (Work.bind (decode value) _) next = _
    rw [decodeRun]
    cases read : decoded value with
    | error e => simp [leasedIn, read, Work.bind, bind, Except.bind]
    | ok r =>
      simp only [leasedIn, read, Work.bind, bind, Except.bind]
      cases isHeldBy l r <;> rfl

def due (now : Moment) (records : List TaskRecord) : List TaskRecord :=
  ((records.filterMap (readySince? now)).mergeSort sooner).map (·.2)

theorem readySinceIff {now date : Moment} {r x : TaskRecord} : readySince? now r = some (date, x) ↔
    x = r ∧ r.readyAt = some date ∧ date ≤ now := by
  unfold readySince?
  cases r.readyAt with
  | none => simp
  | some date' =>
    dsimp only
    split <;> simp <;> grind

section
variable (limits : ArchiveLimits)

theorem enqueueRun (r : TaskRecord) : ((Request.enqueue r).body limits : Body Event Answer Reply) =
    .get (queueRow r) fun queued => .get (archiveRow r) fun archived =>
      if queued.isNone ∧ archived.isNone then
        .put (queueRow r) (Json.encode TaskRecord.codec r) (.done (.ok .done))
      else .done (.ok .done) := by
  show Work.get (queueRow r) _ = _
  congr
  funext queued
  show Work.get (archiveRow r) _ = _
  congr
  funext archived
  show Work.bind (Work.bind (pure archived) _) _ = _
  simp only [Work.bind, pure]
  split <;> rfl

theorem leaseRun (queue : String) (now : Moment) (duration : Span) :
    ((Request.lease queue now duration).body limits : Body Event Answer Reply) =
      .scan (queueTable queue) fun rows => match decodedRows rows with
        | .ok records => (leaseFirst limits now duration (due now records)).bind fun t => .done (.ok (.granted t))
        | .error e => .done (.error e) := by
  show Work.scan (queueTable queue) _ = _
  congr
  funext rows
  show Work.bind (Work.bind (rows.mapM _) _) _ = _
  rw [decodeRows]
  cases decodedRows rows <;> rfl

theorem extendRun (l : Lease) (deadline : Moment) :
    ((Request.extend l deadline).body limits : Body Event Answer Reply) = (leased l).bind fun r =>
      .put (queueRow r) (Json.encode TaskRecord.codec { r with state := .active l.leaseId deadline })
        (.done (.ok (.extended { l with expiresAt := deadline }))) :=
  Work.bindAssoc (leased l) _ _

theorem acknowledgeRun (l : Lease) : ((Request.acknowledge l).body limits : Body Event Answer Reply) =
    (leased l).bind fun _ => .delete (leaseRow l) (.done (.ok .done)) :=
  Work.bindAssoc (leased l) _ _

theorem retryRun (l : Lease) (runAt : Moment) (error : String) :
    ((Request.retry l runAt error).body limits : Body Event Answer Reply) = (leased l).bind fun r =>
      if r.retried + 1 = 0 then .done (.error (.overflow .retries))
      else .put (queueRow r) (Json.encode TaskRecord.codec { r with
        retried := r.retried + 1, notBefore := runAt, state := .pending, lastError := some error })
          (.done (.ok .done)) := by
  refine (Work.bindAssoc (leased l) _ _).trans ?_
  congr
  funext r
  split <;> rfl

theorem archiveRun (l : Lease) (now : Moment) (error : String) :
    ((Request.archive l now error).body limits : Body Event Answer Reply) = (leased l).bind fun r =>
      (putAway limits r now error).bind fun _ => .done (.ok .done) :=
  Work.bindAssoc (leased l) _ _

theorem putAwayRun (r : TaskRecord) (now : Moment) (error : String) :
    (putAway limits r now error : Body Event Answer Unit) = .delete (queueRow r) (.put (archiveRow r)
      (Json.encode TaskRecord.codec { r with state := .archived now, lastError := some error })
        (prune limits r.queue now)) := rfl

theorem grantRun (now : Moment) (duration : Span) (r : TaskRecord) :
    (grant now duration r : Body Event Answer LeasedTask) = .fresh fun leaseId => match now.add? duration with
      | none => .done (.error (.overflow .date))
      | some expiresAt =>
          .put (queueRow (reclaimed r))
            (Json.encode TaskRecord.codec { reclaimed r with state := .active leaseId expiresAt })
            (.done (.ok ⟨{ reclaimed r with state := .active leaseId expiresAt },
              ⟨(reclaimed r).id, (reclaimed r).queue, leaseId, expiresAt⟩⟩)) := by
  show Work.fresh _ = _
  congr
  funext leaseId
  cases now.add? duration <;> rfl

theorem reclaimedRow (r : TaskRecord) : (reclaimed r).id = r.id ∧ (reclaimed r).queue = r.queue := by
  unfold reclaimed
  split <;> exact ⟨rfl, rfl⟩

theorem leaseFirstRun (now : Moment) (duration : Span) (r : TaskRecord) (rest : List TaskRecord) :
    (leaseFirst limits now duration (r :: rest) : Body Event Answer (Option LeasedTask)) =
      if isLost r then (putAway limits r now leaseExpired).bind fun _ => leaseFirst limits now duration rest
      else (grant now duration r).bind fun t => .done (.ok (some t)) := by
  rw [leaseFirst]
  split
  · rfl
  · exact (bind_pure_comp some (grant now duration r)).symm

end

section
variable {may : γ → Op → γ → Prop} {g : γ} (free : ∀ op, (∀ row, op ≠ .get row) → may g op g)
  (limits : ArchiveLimits)
include free

theorem keepsPutAway (r : TaskRecord) (now : Moment) (error : String) :
    (putAway limits r now error : Body Event Answer Unit).Keeps may (fun later _ => later = g) g := by
  rw [putAwayRun]
  exact ⟨g, free _ nofun, g, free _ nofun, keepsPrune (free _ nofun) fun _ => free _ nofun⟩

theorem keepsGrant (now : Moment) (duration : Span) (r : TaskRecord) :
    (grant now duration r : Body Event Answer LeasedTask).Keeps may (fun later _ => later = g) g := by
  rw [grantRun]
  intro leaseId
  cases now.add? duration with
  | none => rfl
  | some expiresAt => exact ⟨g, free _ nofun, rfl⟩

theorem keepsLeaseFirst (now : Moment) (duration : Span) (ready : List TaskRecord) :
    (leaseFirst limits now duration ready : Body Event Answer (Option LeasedTask)).Keeps may
      (fun later _ => later = g) g := by
  induction ready with
  | nil => exact rfl
  | cons r rest ih =>
    rw [leaseFirstRun]
    split
    · refine Work.keepsBind (Work.keepsMono (keepsPutAway free limits r now leaseExpired) ?_)
      rintro _ (e | _) rfl
      · rfl
      · exact ih
    · refine Work.keepsBind (Work.keepsMono (keepsGrant free now duration r) ?_)
      rintro _ (e | t) rfl
      · rfl
      · exact rfl

end

theorem freeReadsOnce (read : List RowId) (op : Op) (other : ∀ row, op ≠ .get row) :
    Work.ReadsOnce read op read := by
  cases op with
  | get row => exact absurd rfl (other row)
  | scan table => rfl
  | put row value => rfl
  | delete row => rfl

theorem keepsLeased (l : Lease) {next : TaskRecord → Body Event Answer α}
    (later : ∀ r, (next r).Keeps Work.ReadsOnce (fun _ _ => True) [leaseRow l]) :
    ((leased l).bind next).Keeps Work.ReadsOnce (fun _ _ => True) [] := by
  rw [leasedRun]
  refine ⟨[leaseRow l], ⟨List.not_mem_nil, rfl⟩, fun held => ?_⟩
  dsimp only
  cases leasedIn l held with
  | error e => trivial
  | ok r => exact later r

theorem keepsBody (limits : ArchiveLimits) (request : Request) :
    (request.body limits : Body Event Answer Reply).Keeps Work.ReadsOnce (fun _ _ => True) [] := by
  cases request with
  | enqueue r =>
    have apart : archiveRow r ∉ [queueRow r] := fun mem =>
      queueApart r.queue r.queue (congrArg RowId.table (List.mem_singleton.mp mem)).symm
    rw [enqueueRun]
    refine ⟨_, ⟨List.not_mem_nil, rfl⟩, fun queued => ⟨_, ⟨apart, rfl⟩, fun archived => ?_⟩⟩
    dsimp only
    split
    · exact ⟨_, rfl, trivial⟩
    · trivial
  | lease queue now duration =>
    rw [leaseRun]
    refine ⟨[], rfl, fun rows => ?_⟩
    dsimp only
    cases decodedRows rows with
    | error e => trivial
    | ok records =>
      refine Work.keepsBind (Work.keepsMono (keepsLeaseFirst (freeReadsOnce []) limits now duration _) ?_)
      rintro _ (e | t) rfl <;> trivial
  | extend l deadline =>
    rw [extendRun]
    exact keepsLeased l fun r => ⟨_, rfl, trivial⟩
  | acknowledge l =>
    rw [acknowledgeRun]
    exact keepsLeased l fun r => ⟨_, rfl, trivial⟩
  | retry l runAt error =>
    rw [retryRun]
    refine keepsLeased l fun r => ?_
    split
    · trivial
    · exact ⟨_, rfl, trivial⟩
  | archive l now error =>
    rw [archiveRun]
    refine keepsLeased l fun r => ?_
    refine Work.keepsBind (Work.keepsMono (keepsPutAway (freeReadsOnce [leaseRow l]) limits r now error) ?_)
    rintro _ (e | _) rfl <;> trivial

end Teller.Broker
