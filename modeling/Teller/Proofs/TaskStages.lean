import Teller.Proofs.QueueTurns
import Teller.Proofs.TableViews

/-! Where each task is: in its queue, in the queue's archive, or nowhere. One request moves a task from one
stage to the next. -/
namespace Teller
open Broker
open Transaction (Buffer)

inductive Stage where
  | nowhere
  | queued (r : TaskRecord)
  | archived (r : TaskRecord)
  deriving DecidableEq

def TaskRecord.Live (r : TaskRecord) : Prop := r.state = .pending ∨ ∃ leaseId expiry, r.state = .active leaseId expiry

theorem Broker.archiveTableInjective {a b : String} (h : archiveTable a = archiveTable b) : a = b := by
  have letters := congrArg String.toList h
  simp only [archiveTable, String.toList_append] at letters
  exact String.toList_inj.mp (List.append_cancel_left letters)

namespace Rows

structure Tidy (rows : Rows) : Prop where
  queue : ∀ queue key value, rows ⟨queueTable queue, key⟩ = some value →
    ∃ r, value = Json.encode TaskRecord.codec r ∧ r.id.key = key ∧ r.queue = queue ∧ r.Live
  archive : ∀ queue key value, rows ⟨archiveTable queue, key⟩ = some value →
    ∃ r date, value = Json.encode TaskRecord.codec r ∧ r.id.key = key ∧ r.queue = queue ∧ r.state = .archived date
  apart : ∀ queue key, rows ⟨queueTable queue, key⟩ = none ∨ rows ⟨archiveTable queue, key⟩ = none

def record? (rows : Rows) (table : String) (id : Uuid) : Option TaskRecord :=
  (rows ⟨table, id.key⟩).bind fun value => (Json.decode TaskRecord.codec value.data.toList).toOption

def stage (rows : Rows) (queue : String) (id : Uuid) : Stage :=
  match rows.record? (queueTable queue) id, rows.record? (archiveTable queue) id with
  | some r, _ => .queued r
  | none, some r => .archived r
  | none, none => .nowhere

def Stands (rows : Rows) (queue : String) (id : Uuid) : Stage → Prop
  | .nowhere => rows ⟨queueTable queue, id.key⟩ = none ∧ rows ⟨archiveTable queue, id.key⟩ = none
  | .queued r => rows ⟨queueTable queue, id.key⟩ = some (Json.encode TaskRecord.codec r) ∧
      rows ⟨archiveTable queue, id.key⟩ = none ∧ r.queue = queue ∧ r.id = id ∧ r.Live
  | .archived r => rows ⟨queueTable queue, id.key⟩ = none ∧
      rows ⟨archiveTable queue, id.key⟩ = some (Json.encode TaskRecord.codec r) ∧ r.queue = queue ∧ r.id = id ∧
      ∃ date, r.state = .archived date

variable {rows rows' : Rows} {queue place : String} {id name : Uuid} {r : TaskRecord} {stage : Stage}

theorem recordOf {table : String} (held : rows ⟨table, id.key⟩ = some (Json.encode TaskRecord.codec r)) :
    rows.record? table id = some r := by
  rw [record?, held, Option.bind_some, TaskRecord.decodeEncode]
  rfl

theorem recordMissing {table : String} (missing : rows ⟨table, id.key⟩ = none) : rows.record? table id = none := by
  rw [record?, missing]
  rfl

theorem stageOf (h : rows.Stands queue id stage) : rows.stage queue id = stage := by
  unfold Rows.stage
  cases stage with
  | nowhere => rw [recordMissing h.1, recordMissing h.2]
  | queued r => rw [recordOf h.1]
  | archived r => rw [recordMissing h.1, recordOf h.2.1]

theorem tidyStands (h : rows.Tidy) (queue : String) (id : Uuid) : rows.Stands queue id (rows.stage queue id) := by
  have found : ∃ stage, rows.Stands queue id stage := by
    cases queued : rows ⟨queueTable queue, id.key⟩ with
    | some value =>
      obtain ⟨r, rfl, key, place, live⟩ := h.queue queue id.key value queued
      refine ⟨.queued r, queued, ?_, place, Uuid.keyInjective key, live⟩
      exact (h.apart queue id.key).resolve_left (by rw [queued]; nofun)
    | none => cases archived : rows ⟨archiveTable queue, id.key⟩ with
      | some value =>
        obtain ⟨r, date, rfl, key, place, state⟩ := h.archive queue id.key value archived
        exact ⟨.archived r, queued, archived, place, Uuid.keyInjective key, date, state⟩
      | none => exact ⟨.nowhere, queued, archived⟩
  obtain ⟨stage, stands⟩ := found
  rw [stageOf stands]
  exact stands

theorem queuedIff (h : rows.Tidy) : rows.stage queue r.id = .queued r ↔
    rows ⟨queueTable queue, r.id.key⟩ = some (Json.encode TaskRecord.codec r) := by
  have stands := tidyStands h queue r.id
  constructor
  · intro stage
    rw [stage] at stands
    exact stands.1
  · intro held
    unfold Rows.stage
    rw [recordOf held]

theorem archivedIff (h : rows.Tidy) : rows.stage queue r.id = .archived r ↔
    rows ⟨archiveTable queue, r.id.key⟩ = some (Json.encode TaskRecord.codec r) := by
  have stands := tidyStands h queue r.id
  constructor
  · intro stage
    rw [stage] at stands
    exact stands.2.1
  · intro held
    unfold Rows.stage
    rw [recordMissing ((h.apart queue r.id.key).resolve_right (by rw [held]; nofun)), recordOf held]

theorem unqueuedIff (h : rows.Tidy) :
    rows ⟨queueTable queue, id.key⟩ = none ↔ ∀ x, rows.stage queue id ≠ .queued x := by
  have stands := tidyStands h queue id
  cases stage : rows.stage queue id with
  | nowhere | queued r | archived r =>
    rw [stage] at stands
    simp [stands.1]

def Apart (queue : String) (id : Uuid) (rows rows' : Rows) : Prop :=
  ∀ r, r ≠ ⟨queueTable queue, id.key⟩ → r ≠ ⟨archiveTable queue, id.key⟩ → rows' r = rows r

theorem apartQueue (others : Apart queue id rows rows') {key : Bytes} (other : ¬ (place = queue ∧ key = id.key)) :
    rows' ⟨queueTable place, key⟩ = rows ⟨queueTable place, key⟩ :=
  others _ (fun same => other ⟨queueTableInjective (congrArg RowId.table same), congrArg RowId.key same⟩)
    fun same => queueApart place queue (congrArg RowId.table same)

theorem apartArchive (others : Apart queue id rows rows') {key : Bytes} (other : ¬ (place = queue ∧ key = id.key)) :
    rows' ⟨archiveTable place, key⟩ = rows ⟨archiveTable place, key⟩ :=
  others _ (fun same => queueApart queue place (congrArg RowId.table same).symm)
    fun same => other ⟨archiveTableInjective (congrArg RowId.table same), congrArg RowId.key same⟩

theorem tidyMove (h : rows.Tidy) (others : Apart queue id rows rows') (stands : rows'.Stands queue id stage) :
    rows'.Tidy ∧ ∀ place name, rows'.stage place name =
      if place = queue ∧ name = id then stage else rows.stage place name := by
  refine ⟨⟨fun place key value held => ?_, fun place key value held => ?_, fun place key => ?_⟩, fun place name => ?_⟩
  · by_cases here : place = queue ∧ key = id.key
    · obtain ⟨rfl, rfl⟩ := here
      cases stage with
      | nowhere => rw [stands.1] at held; cases held
      | archived r => rw [stands.1] at held; cases held
      | queued r =>
        obtain ⟨queued, -, place, name, live⟩ := stands
        rw [queued] at held
        cases held
        exact ⟨r, rfl, by rw [name], place, live⟩
    · rw [apartQueue others here] at held
      exact h.queue place key value held
  · by_cases here : place = queue ∧ key = id.key
    · obtain ⟨rfl, rfl⟩ := here
      cases stage with
      | nowhere => rw [stands.2] at held; cases held
      | queued r => rw [stands.2.1] at held; cases held
      | archived r =>
        obtain ⟨-, archived, place, name, date, state⟩ := stands
        rw [archived] at held
        cases held
        exact ⟨r, date, rfl, by rw [name], place, state⟩
    · rw [apartArchive others here] at held
      exact h.archive place key value held
  · by_cases here : place = queue ∧ key = id.key
    · obtain ⟨rfl, rfl⟩ := here
      cases stage with
      | nowhere => exact .inl stands.1
      | queued r => exact .inr stands.2.1
      | archived r => exact .inl stands.1
    · rw [apartQueue others here, apartArchive others here]
      exact h.apart place key
  · split
    · rename_i here
      obtain ⟨rfl, rfl⟩ := here
      exact stageOf stands
    · rename_i other
      have other : ¬ (place = queue ∧ name.key = id.key) := fun here => other ⟨here.1, Uuid.keyInjective here.2⟩
      unfold Rows.stage record?
      rw [apartQueue others other, apartArchive others other]

theorem apartSet {r : RowId} (left : Option Bytes)
    (here : r = ⟨queueTable queue, id.key⟩ ∨ r = ⟨archiveTable queue, id.key⟩) :
    Apart queue id rows (rows.set r left) := by
  intro x notQueue notArchive
  refine setOther rows left ?_
  rintro rfl
  exact here.elim notQueue notArchive

theorem apartTrans {rows'' : Rows} (first : Apart queue id rows rows') (later : Apart queue id rows' rows'') :
    Apart queue id rows rows'' :=
  fun r notQueue notArchive => (later r notQueue notArchive).trans (first r notQueue notArchive)

theorem tidyPut (h : rows.Tidy) {stage : Stage} (free : ∀ x, stage ≠ .archived x)
    (stands : rows.Stands r.queue r.id stage) (live : r.Live) :
    (rows.set (queueRow r) (some (Json.encode TaskRecord.codec r))).Tidy ∧ ∀ place name,
      (rows.set (queueRow r) (some (Json.encode TaskRecord.codec r))).stage place name =
        if place = r.queue ∧ name = r.id then .queued r else rows.stage place name := by
  refine tidyMove h (apartSet _ (.inl rfl)) ⟨setSelf _ _ _, ?_, rfl, rfl, live⟩
  rw [setOther _ _ fun same => queueApart _ _ (congrArg RowId.table same).symm]
  cases stage with
  | nowhere => exact stands.2
  | queued x => exact stands.2.1
  | archived x => exact absurd rfl (free x)

theorem tidyErase (h : rows.Tidy) (queued : rows.stage queue id = .queued r) :
    (rows.set ⟨queueTable queue, id.key⟩ none).Tidy ∧ ∀ place name,
      (rows.set ⟨queueTable queue, id.key⟩ none).stage place name =
        if place = queue ∧ name = id then .nowhere else rows.stage place name := by
  refine tidyMove h (apartSet _ (.inl rfl)) ⟨setSelf _ _ _, ?_⟩
  have stands := tidyStands h queue id
  rw [queued] at stands
  rw [setOther _ _ fun same => queueApart _ _ (congrArg RowId.table same).symm]
  exact stands.2.1

theorem tidyDrop (h : rows.Tidy) (there : ∀ x, rows.stage queue id ≠ .queued x) :
    (rows.set ⟨archiveTable queue, id.key⟩ none).Tidy ∧ ∀ place name,
      (rows.set ⟨archiveTable queue, id.key⟩ none).stage place name =
        if place = queue ∧ name = id then .nowhere else rows.stage place name := by
  refine tidyMove h (apartSet _ (.inr rfl)) ⟨?_, setSelf _ _ _⟩
  have stands := tidyStands h queue id
  rw [setOther _ _ fun same => queueApart _ _ (congrArg RowId.table same)]
  cases stage : rows.stage queue id with
  | nowhere => rw [stage] at stands; exact stands.1
  | queued x => exact absurd stage (there x)
  | archived x => rw [stage] at stands; exact stands.1

end Rows
end Teller
