import Teller.Proofs.TaskStages

/-! Putting tasks away. The task goes from its queue to the archive, and the archive gives up the oldest of
what it holds as long as that is too much or too old. -/
namespace Teller
open Broker
open Transaction (Buffer)

namespace Broker
variable {s : State} {own own' : Buffer} {Event Answer : Type}

def filed (records : List TaskRecord) : List (Bytes × Bytes) :=
  records.map fun r => (r.id.key, Json.encode TaskRecord.codec r)

theorem decodedFiled (records : List TaskRecord) : decodedRows (filed records) = .ok records := by
  unfold decodedRows filed
  induction records with
  | nil => rfl
  | cons r records ih =>
    rw [List.map_cons, List.mapM_cons, ih]
    dsimp only
    rw [decodedEncode]
    rfl

theorem filedOf {entries : List (Bytes × Bytes)}
    (each : ∀ key value, (key, value) ∈ entries →
      ∃ r : TaskRecord, value = Json.encode TaskRecord.codec r ∧ r.id.key = key) :
    ∃ records, entries = filed records := by
  induction entries with
  | nil => exact ⟨[], rfl⟩
  | cons e entries ih =>
    obtain ⟨key, value⟩ := e
    obtain ⟨r, rfl, rfl⟩ := each key value List.mem_cons_self
    obtain ⟨records, rfl⟩ := ih fun key value mem => each key value (List.mem_cons_of_mem _ mem)
    exact ⟨r :: records, rfl⟩

theorem memFiled {records : List TaskRecord} {key value : Bytes} : (key, value) ∈ filed records ↔
    ∃ r ∈ records, key = r.id.key ∧ value = Json.encode TaskRecord.codec r := by
  simp [filed, eq_comm]

theorem encodeInjective {r x : TaskRecord} (same : Json.encode TaskRecord.codec r = Json.encode TaskRecord.codec x) :
    r = x :=
  Except.ok.inj ((decodedEncode r).symm.trans ((congrArg decoded same).trans (decodedEncode x)))

theorem filedDistinct {table : SortedMap Bytes Bytes} {records : List TaskRecord}
    (same : table.entries = filed records) : (records.map (·.id)).Nodup := by
  have keys : (filed records).Pairwise fun a b => compare a.1 b.1 = .lt := same ▸ table.ascending
  rw [filed, List.pairwise_map] at keys
  refine List.pairwise_map.mpr (keys.imp fun {a b} less same => ?_)
  rw [same] at less
  simp at less

theorem pickedDistinct {records : List TaskRecord} (distinct : (records.map (·.id)).Nodup)
    {pick : TaskRecord → Option (Moment × TaskRecord)} (own : ∀ r e, pick r = some e → e.2 = r)
    (le : Moment × TaskRecord → Moment × TaskRecord → Bool) :
    (((records.filterMap pick).mergeSort le).map (·.2.id)).Nodup := by
  refine ((List.mergeSort_perm (records.filterMap pick) le).map (·.2.id)).nodup_iff.mpr ?_
  have apart : records.Pairwise fun a b => a.id ≠ b.id := List.pairwise_map.mp distinct
  refine List.pairwise_map.mpr (List.pairwise_filterMap.mpr (apart.imp fun {a b} apart x hx y hy => ?_))
  rw [own a x hx, own b y hy]
  exact apart

end Broker

namespace Rows
variable {rows : Rows} {queue : String} {r : TaskRecord}

structure Archive (rows : Rows) (queue : String) (archive : List (Moment × TaskRecord)) : Prop where
  sorted : archive.Pairwise fun a b => a.1 ≤ b.1
  distinct : (archive.map (·.2.id)).Nodup
  holds : ∀ e, e ∈ archive ↔ rows.stage queue e.2.id = .archived e.2 ∧ e.2.state = .archived e.1

theorem olderFirstSorted (dated : List (Moment × TaskRecord)) :
    (dated.mergeSort olderFirst).Pairwise fun a b => a.1 ≤ b.1 := by
  have iff (a b : Moment × TaskRecord) : olderFirst a b = true ↔ a.1.ms ≤ b.1.ms := decide_eq_true_iff
  have sorted : (dated.mergeSort olderFirst).Pairwise fun a b => olderFirst a b := by
    refine List.pairwise_mergeSort (fun a b c => ?_) (fun a b => ?_) dated
    · rw [iff, iff, iff]
      exact Int.le_trans
    · rw [Bool.or_eq_true, iff, iff]
      exact Int.le_total _ _
  exact sorted.imp fun le => (iff _ _).mp le

def byAge (records : List TaskRecord) : List (Moment × TaskRecord) :=
  (records.filterMap fun r => (archivedAt? r).map (·, r)).mergeSort olderFirst

theorem archivedAtIff {r x : TaskRecord} {date : Moment} :
    (archivedAt? r).map (·, r) = some (date, x) ↔ r = x ∧ r.state = .archived date := by
  unfold archivedAt?
  cases r.state with
  | archived date' => simp [and_comm]
  | pending | active => simp

theorem tableListed {name : String} {table : SortedMap Bytes Bytes}
    (scan : ∀ key value, (key, value) ∈ table.entries ↔ rows ⟨name, key⟩ = some value)
    (each : ∀ key value, rows ⟨name, key⟩ = some value →
      ∃ r : TaskRecord, value = Json.encode TaskRecord.codec r ∧ r.id.key = key) :
    ∃ records, decodedRows table.entries = .ok records ∧ (records.map (·.id)).Nodup ∧
      ∀ r : TaskRecord, r ∈ records ↔ rows ⟨name, r.id.key⟩ = some (Json.encode TaskRecord.codec r) := by
  obtain ⟨records, same⟩ := filedOf fun key value mem => each key value ((scan key value).mp mem)
  refine ⟨records, same ▸ decodedFiled records, filedDistinct same, fun r => ?_⟩
  rw [← scan, same, memFiled]
  constructor
  · exact fun mem => ⟨r, mem, rfl, rfl⟩
  · rintro ⟨x, mem, -, written⟩
    exact encodeInjective written ▸ mem

theorem archiveListed (h : rows.Tidy) {table : SortedMap Bytes Bytes}
    (scan : ∀ key value, (key, value) ∈ table.entries ↔ rows ⟨archiveTable queue, key⟩ = some value) :
    ∃ records, decodedRows table.entries = .ok records ∧ rows.Archive queue (byAge records) := by
  obtain ⟨records, read, distinct, listed⟩ := tableListed scan fun key value held => by
    obtain ⟨r, date, written, own, -⟩ := h.archive queue key value held
    exact ⟨r, written, own⟩
  refine ⟨records, read, olderFirstSorted _, pickedDistinct distinct ?_ _, fun e => ?_⟩
  · rintro r ⟨date, x⟩ dated
    exact (archivedAtIff.mp dated).1.symm
  · obtain ⟨date, r⟩ := e
    rw [byAge, List.mem_mergeSort, List.mem_filterMap]
    constructor
    · rintro ⟨x, mem, dated⟩
      obtain ⟨rfl, state⟩ := archivedAtIff.mp dated
      exact ⟨archivedIff h |>.mpr ((listed x).mp mem), state⟩
    · rintro ⟨stage, state⟩
      exact ⟨r, (listed r).mpr ((archivedIff h).mp stage), archivedAtIff.mpr ⟨rfl, state⟩⟩

end Rows

namespace Broker
variable {s : State} {own own' : Buffer} {Event Answer : Type} {limits : ArchiveLimits} {queue : String} {now : Moment}

theorem pruneRun : (prune limits queue now : Body Event Answer Unit) =
    .scan (archiveTable queue) fun rows => match decodedRows rows with
      | .ok records => ((Rows.byAge records).take (surplus limits now (Rows.byAge records))).forM fun (_, r) =>
          Work.erase ⟨archiveTable queue, r.id.key⟩
      | .error e => .done (.error e) := by
  unfold prune
  rw [scanArchiveRun]
  show Work.scan (archiveTable queue) _ = _
  congr
  funext rows
  dsimp only
  cases decodedRows rows <;> rfl

theorem endsErasing {dropped : List (Moment × TaskRecord)} {result : Except (Stop BrokerError) Unit}
    (h : Work.Ends s own (dropped.forM fun (_, r) => Work.erase ⟨archiveTable queue, r.id.key⟩ :
      Body Event Answer Unit) own' result) :
    s.amended own' = dropped.foldl (fun rows e => rows.set ⟨archiveTable queue, e.2.id.key⟩ none) (s.amended own) := by
  induction dropped generalizing own with
  | nil => rw [(Work.endsDone h).1]; rfl
  | cons e dropped ih =>
    rw [List.foldl_cons, ← State.amendedInsert]
    exact ih (Work.endsDelete h)

theorem stageErased {rows : Rows} (h : rows.Tidy) {dropped : List (Moment × TaskRecord)}
    (there : ∀ e ∈ dropped, ∀ x, rows.stage queue e.2.id ≠ .queued x) :
    let after := dropped.foldl (fun rows e => rows.set ⟨archiveTable queue, e.2.id.key⟩ none) rows
    after.Tidy ∧ ∀ place id, after.stage place id =
      if place = queue ∧ id ∈ dropped.map (·.2.id) then .nowhere else rows.stage place id := by
  induction dropped generalizing rows with
  | nil => exact ⟨h, fun place id => by simp⟩
  | cons e dropped ih =>
    obtain ⟨tidy, first⟩ := Rows.tidyDrop h (there e List.mem_cons_self)
    obtain ⟨last, later⟩ := ih tidy fun x mem y => by
      rw [first]
      split
      · nofun
      · exact there x (List.mem_cons_of_mem e mem) y
    refine ⟨last, fun place id => ?_⟩
    rw [List.foldl_cons, later, first]
    by_cases same : id = e.2.id
    · by_cases here : place = queue <;> simp [here, same]
    · simp only [same, and_false, if_false, List.map_cons, List.mem_cons, false_or]

def shelved (now : Moment) (error : String) (r : TaskRecord) : TaskRecord :=
  { r with state := .archived now, lastError := some error }

def dropped (limits : ArchiveLimits) (now : Moment) (archive : List (Moment × TaskRecord)) : List TaskRecord :=
  (archive.take (surplus limits now archive)).map (·.2)

theorem memDropped {archive : List (Moment × TaskRecord)} {x : TaskRecord} (mem : x ∈ dropped limits now archive) :
    ∃ e ∈ archive, e.2 = x := by
  obtain ⟨e, taken, same⟩ := List.mem_map.mp mem
  exact ⟨e, List.mem_of_mem_take taken, same⟩

theorem stageShelved {rows : Rows} (h : rows.Tidy) (r : TaskRecord) (now : Moment) (error : String) :
    let after := (rows.set (queueRow r) none).set (archiveRow r)
      (some (Json.encode TaskRecord.codec (shelved now error r)))
    after.Tidy ∧ ∀ place id, after.stage place id =
      if place = r.queue ∧ id = r.id then .archived (shelved now error r) else rows.stage place id := by
  refine Rows.tidyMove h ?_ ⟨?_, Rows.setSelf _ _ _, rfl, rfl, now, rfl⟩
  · exact Rows.apartTrans (Rows.apartSet _ (.inl rfl)) (Rows.apartSet _ (.inr rfl))
  · rw [Rows.setOther _ _ fun same => queueApart _ _ (congrArg RowId.table same)]
    exact Rows.setSelf _ _ _

theorem endsPrune (tidy : (s.amended own).Tidy)
    (h : Work.Ends s own (prune limits queue now : Body Event Answer Unit) own' (.ok ())) :
    ∃ archive, (s.amended own).Archive queue archive ∧ (s.amended own').Tidy ∧
      ∀ place id, (s.amended own').stage place id =
        if place = queue ∧ id ∈ (dropped limits now archive).map (·.id) then .nowhere
        else (s.amended own).stage place id := by
  rw [pruneRun] at h
  have h := Work.endsScan h
  obtain ⟨records, read, listed⟩ := Rows.archiveListed tidy (State.memScan s own _)
  rw [read] at h
  refine ⟨Rows.byAge records, listed, ?_⟩
  rw [endsErasing h, dropped, List.map_map]
  refine stageErased tidy fun e mem x queued => ?_
  rw [((listed.holds e).mp (List.mem_of_mem_take mem)).1] at queued
  cases queued

theorem endsAway {r : TaskRecord} {error : String} (tidy : (s.amended own).Tidy)
    (h : Work.Ends s own (putAway limits r now error : Body Event Answer Unit) own' (.ok ())) :
    ∃ (mid : Rows) (archive : List (Moment × TaskRecord)), mid.Archive r.queue archive ∧
      (∀ place id, mid.stage place id =
        if place = r.queue ∧ id = r.id then .archived (shelved now error r) else (s.amended own).stage place id) ∧
      (s.amended own').Tidy ∧ ∀ place id, (s.amended own').stage place id =
        if place = r.queue ∧ id ∈ (dropped limits now archive).map (·.id) then .nowhere else mid.stage place id := by
  rw [putAwayRun] at h
  have h := Work.endsPut (Work.endsDelete h)
  obtain ⟨joined, stages⟩ := stageShelved tidy r now error
  rw [← State.amendedInsert, ← State.amendedInsert] at joined stages
  obtain ⟨archive, listed, left, rest⟩ := endsPrune joined h
  exact ⟨_, archive, listed, stages, left, rest⟩

end Broker
end Teller
