import Teller.Proofs.SharedDatabase
import Teller.Proofs.Journal.Layout

/-! What those who use a database are told depends on its rows and on the identifiers it has given out, not on
whether it keeps a journal, nor on when that is replaced or cannot be. -/
namespace Teller
open Journal (Record JournalError)

namespace SharedDatabase

inductive Answer where
  | begun (id : UInt64)
  | replied (reply : Transaction.Reply)
  | ended (result : Except CommitError Unit)
  deriving DecidableEq

def Event.isCall : Event → Bool
  | .block _ => false
  | _ => true

def answer? (d : SharedDatabase) : Event → Option Answer
  | .begin _ => some (.begun d.db.begin.1.id)
  | .act who op => (d.underway who).map fun v => .replied (v.txn.perform d.db.state op).1
  | .commit who => (d.underway who).map fun v => .ended (d.db.commit v.txn).1
  | .leave _ | .checkpoint | .block _ => none

def transcript : SharedDatabase → List Event → List (Option Answer × Nat)
  | _, [] => []
  | d, e :: events =>
      let later := transcript (d.step e) events
      if e.isCall then (d.answer? e, (d.step e).db.state.version) :: later else later

/-- Should the event be a commit that meets no conflict, its record is one that a journal takes. -/
def Recordable (d : SharedDatabase) : Event → Prop
  | .commit who => match d.underway who with
    | some v => v.txn.isStale d.db.state = false →
        4 + (Record.body ⟨v.txn.id, v.txn.toWrites⟩).size + Journal.checksumSize ≤ Journal.maxRecordSize
    | none => True
  | _ => True

instance (d : SharedDatabase) (e : Event) : Decidable (d.Recordable e) := by
  unfold Recordable
  split
  · split <;> infer_instance
  · infer_instance

def AllRecordable : SharedDatabase → List Event → Prop
  | _, [] => True
  | d, e :: events => d.Recordable e ∧ AllRecordable (d.step e) events

instance decideAllRecordable : (d : SharedDatabase) → (events : List Event) → Decidable (d.AllRecordable events)
  | _, [] => isTrue trivial
  | d, e :: events =>
      have := decideAllRecordable (d.step e) events
      inferInstanceAs (Decidable (_ ∧ _))

structure Alike (d d' : SharedDatabase) : Prop where
  state : d'.db.state = d.db.state
  next : d'.db.nextTxnId = d.db.nextTxnId
  underway : d'.underway = d.underway

end SharedDatabase

namespace Database
variable {db db' : Database} {t : Transaction}

theorem logCommitFails (log : Option Log) (r : Record) (cause : JournalError) :
    logCommit log r = .error cause ↔ log.isSome ∧ ¬ r.Fits ∧ cause = .tooLarge r.size := by
  cases log with
  | none => simp [logCommit]
  | some log =>
    by_cases fits : r.Fits
    · obtain ⟨bytes, coded, -⟩ := Record.encodeFits fits
      simp [logCommit, Journal.append, coded, fits, bind, Except.bind, pure, Except.pure]
    · simp [logCommit, Journal.append, Record.encodeTooLarge fits, fits, bind, Except.bind, eq_comm]

theorem readOnlyFits (only : t.isReadOnly = true) : Record.Fits ⟨t.id, t.toWrites⟩ := by
  have nothing : t.toWrites = [] := by
    rw [Transaction.toWrites, SortedMap.isEmptyIff.mp only]
    rfl
  have empty : Record.size ⟨t.id, []⟩ = Journal.headerSize + Journal.checksumSize := rfl
  rw [nothing, Record.Fits, empty]
  decide

theorem commitEnds (db : Database) (t : Transaction) :
    ((db.commit t).1, (db.commit t).2.state) =
      if t.isStale db.state then (.error .conflict, db.state)
      else if db.log.isSome ∧ ¬ Record.Fits ⟨t.id, t.toWrites⟩ then
        (.error (.journal (.tooLarge (Record.size ⟨t.id, t.toWrites⟩))), db.state)
      else (.ok (), if t.isReadOnly then db.state else db.state.apply t.toWrites) := by
  rcases commitCases db t with ⟨stale, h⟩ | ⟨fresh, only, h⟩ | ⟨fresh, _, cause, refused, h⟩ |
    ⟨fresh, full, log, logged, h⟩
  · simp [h, stale]
  · simp [h, fresh, only, readOnlyFits only]
  · obtain ⟨durable, large, rfl⟩ := (logCommitFails db.log _ cause).mp refused
    simp [h, fresh, durable, large]
  · have taken : ¬ (db.log.isSome ∧ ¬ Record.Fits ⟨t.id, t.toWrites⟩) := fun ⟨durable, large⟩ => by
      have refused := (logCommitFails db.log ⟨t.id, t.toWrites⟩ _).mpr ⟨durable, large, rfl⟩
      cases logged.symm.trans refused
    simp [h, fresh, full, taken]

theorem commitSettled (fits : t.isStale db.state = false →
      4 + (Record.body ⟨t.id, t.toWrites⟩).size + Journal.checksumSize ≤ Journal.maxRecordSize) :
    ((db.commit t).1, (db.commit t).2.state) =
      if t.isStale db.state then (.error .conflict, db.state)
      else (.ok (), if t.isReadOnly then db.state else db.state.apply t.toWrites) := by
  rw [commitEnds]
  split
  · rfl
  · rename_i fresh
    have taken : Record.Fits ⟨t.id, t.toWrites⟩ := by
      have fits := fits (Bool.eq_false_iff.mpr fresh)
      rw [Record.bodySize] at fits
      rw [Record.Fits, Record.size, Journal.headerSize]
      omega
    exact if_neg fun large => large.2 taken

end Database

namespace SharedDatabase
variable {d d' : SharedDatabase} {e : Event}

theorem recordableAlike (h : d.Alike d') (fits : d.Recordable e) : d'.Recordable e := by
  cases e with
  | commit who =>
    unfold Recordable at fits ⊢
    rw [h.underway, h.state]
    exact fits
  | _ => trivial

theorem alikeStep (h : d.Alike d') (fits : d.Recordable e) :
    (d.step e).Alike (d'.step e) ∧ d'.answer? e = d.answer? e := by
  have state := h.state
  have next := h.next
  have underway := h.underway
  cases e with
  | begin who =>
    refine ⟨⟨state, ?_, ?_⟩, ?_⟩
    · simp only [step, Database.begin, next]
    · simp only [step, Database.begin, next, underway]
    · simp only [answer?, Database.begin, next]
  | act who op =>
    simp only [step, answer?, underway, state]
    cases d.underway who with
    | none => exact ⟨h, trivial⟩
    | some v => exact ⟨⟨state, next, rfl⟩, trivial⟩
  | commit who =>
    have fits' := recordableAlike h fits
    simp only [Recordable, underway] at fits fits'
    simp only [step, answer?, underway]
    cases ongoing : d.underway who with
    | none => exact ⟨h, rfl⟩
    | some v =>
      rw [ongoing] at fits fits'
      have same := Database.commitSettled fits'
      rw [state, ← Database.commitSettled fits] at same
      obtain ⟨ended, rows⟩ := Prod.mk.inj same
      refine ⟨⟨rows, ?_, rfl⟩, ?_⟩
      · simp only
        rw [Database.commitNext, Database.commitNext, next]
      · simp only [Option.map_some, ended]
  | leave who => exact ⟨⟨state, next, by simp only [step, underway]⟩, rfl⟩
  | checkpoint => exact ⟨⟨by simpa [step] using state, by simpa [step] using next, underway⟩, rfl⟩
  | block on => exact ⟨⟨by simpa [step] using state, by simpa [step] using next, underway⟩, rfl⟩

theorem alikeBlock (h : d.Alike d') (on : Bool) : d.Alike (d'.step (.block on)) :=
  ⟨by simpa [step] using h.state, by simpa [step] using h.next, h.underway⟩

theorem transcriptAlike {events : List Event} (h : d.Alike d')
    (fits : d.AllRecordable (events.filter Event.isCall)) :
    d'.transcript events = d.transcript (events.filter Event.isCall) := by
  induction events generalizing d d' with
  | nil => rfl
  | cons e events ih =>
    cases call : e.isCall with
    | false =>
      cases e with
      | block on =>
        rw [List.filter_cons_of_neg (by simp [call])] at fits ⊢
        exact ih (alikeBlock h on) fits
      | _ => cases call
    | true =>
      rw [List.filter_cons_of_pos call] at fits ⊢
      obtain ⟨after, told⟩ := alikeStep h fits.1
      simp only [transcript, call, if_true, told, after.state, ih after fits.2]

/-- A database over a file that is not there yet, with whatever policy for checkpoints and however often they fail,
answers as one that keeps nothing but its rows in memory. -/
theorem journalUnseen {calls : List Event} (fits : (start .inMemory).AllRecordable calls) (policy : CheckpointPolicy)
    {disk : Disk} (absent : disk.file = none) {events : List Event} (same : events.filter Event.isCall = calls) :
    ∃ db, (Database.openAt disk policy).1 = .ok db ∧
      (start db).transcript events = (start .inMemory).transcript calls := by
  obtain ⟨log, opened⟩ := Database.openedEmpty absent policy
  have alike : (start .inMemory).Alike (start { log := some log }) := ⟨rfl, rfl, rfl⟩
  exact ⟨_, opened, same ▸ transcriptAlike alike (same ▸ fits)⟩

def k : RowId := ⟨"t", Bytes.ofText "k"⟩

def conflicting : List Event :=
  [.begin 0, .begin 1, .begin 2, .act 0 (.put k (Bytes.ofText "u")), .act 1 (.get k), .commit 0, .block true,
    .act 1 (.put k (Bytes.ofText "v")), .commit 1, .act 2 (.get k), .act 2 (.delete k), .commit 2, .block false,
    .checkpoint, .begin 3, .act 3 (.scan "t"), .leave 3]

theorem journalUnseenAmongConflicts :
    let calls := conflicting.filter Event.isCall
    (start .inMemory).AllRecordable calls ∧ ∃ db, (Database.openAt {} ⟨1, 0⟩).1 = .ok db ∧
      (start db).transcript conflicting = (start .inMemory).transcript calls ∧
      (start db).transcript conflicting = [(some (.begun 1), 0), (some (.begun 2), 0), (some (.begun 3), 0),
        (some (.replied .done), 0), (some (.replied (.value none)), 0), (some (.ended (.ok ())), 1),
        (some (.replied .done), 1), (some (.ended (.error .conflict)), 1),
        (some (.replied (.value (some (Bytes.ofText "u")))), 1), (some (.replied .done), 1),
        (some (.ended (.ok ())), 2), (none, 2), (some (.begun 4), 2), (some (.replied (.rows [])), 2), (none, 2)] := by
  intro calls
  have fits : (start .inMemory).AllRecordable calls := by decide +kernel
  have absent : ({} : Disk).file = none := rfl
  have filtered : conflicting.filter Event.isCall = calls := rfl
  obtain ⟨db, opened, same⟩ := journalUnseen fits ⟨1, 0⟩ absent filtered
  exact ⟨fits, db, opened, same, same.trans (by decide +kernel)⟩

end SharedDatabase
end Teller
