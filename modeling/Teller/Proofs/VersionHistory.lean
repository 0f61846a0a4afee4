import Mathlib.Data.List.Induction
import Teller.Proofs.Journal.Canonical
import Teller.Proofs.Numbering
import Teller.Proofs.Openings

/-! What a version stands for. Commits are counted from the first record of the journal that the database was opened
on. The version of a row is the number of the last commit that wrote it, that of a table the number of the last one
that put or deleted anything there. A deleted row has no version, and when it is put again, it gets a new one. So
whoever finds a row at a version that he has seen before finds the value of then, and nobody has written the row in
the meantime, not even to restore it. -/
namespace Teller
open Journal (Record)

namespace Journal.Record

def Writes (r : Record) (row : RowId) : Prop := ∃ w ∈ r.writes, w.row = row

def Touches (r : Record) (table : String) : Prop := ∃ w ∈ r.writes, w.table = table

end Journal.Record

inductive LastOf (kind : Record → Prop) : List Record → Nat → Prop where
  | none {rs} (others : ∀ r ∈ rs, ¬ kind r) : LastOf kind rs 0
  | commit {r} (earlier later) (own : kind r) (others : ∀ x ∈ later, ¬ kind x) :
      LastOf kind (earlier ++ r :: later) (earlier.length + 1)

namespace LastOf
variable {kind : Record → Prop} {rs more : List Record} {r : Record} {n : Nat}

theorem kept (h : LastOf kind rs n) (other : ¬ kind r) : LastOf kind (rs ++ [r]) n := by
  have behind {xs : List Record} (others : ∀ x ∈ xs, ¬ kind x) : ∀ x ∈ xs ++ [r], ¬ kind x := by
    intro x mem
    rcases List.mem_append.mp mem with mem | own
    · exact others x mem
    · rw [List.mem_singleton.mp own]
      exact other
  cases h with
  | none others => exact .none (behind others)
  | commit earlier later own others =>
    rw [List.append_assoc, List.cons_append]
    exact .commit earlier _ own (behind others)

theorem renewed (rs : List Record) (own : kind r) : LastOf kind (rs ++ [r]) (rs.length + 1) :=
  .commit rs [] own nofun

theorem noneBehind (h : LastOf kind (rs ++ more) n) (nonzero : n ≠ 0) (low : n ≤ rs.length) :
    ∀ r ∈ more, ¬ kind r := by
  generalize whole : rs ++ more = all at h
  cases h with
  | none others => exact absurd rfl nonzero
  | commit earlier later own others =>
    obtain ⟨front, split, rest⟩ | ⟨front, split, rest⟩ := List.append_eq_append_iff.mp whole
    · rw [split, List.length_append] at low
      omega
    · cases front with
      | nil =>
        rw [split, List.append_nil] at low
        omega
      | cons x front =>
        cases (List.cons.inj rest).2
        exact fun r mem => others r (List.mem_append_right _ mem)

end LastOf

namespace Database
variable {rs more : List Record} {row : RowId}

theorem rowLast {held : Versioned} (found : (replay rs).rows.get? row = some held) :
    LastOf (·.Writes row) rs held.version := by
  induction rs using List.reverseRecOn with
  | nil => cases found
  | append_singleton rs r ih =>
    rw [replaySnoc] at found
    rcases State.rowAfter (replay rs) r.writes row with ⟨others, same⟩ | ⟨w, mem, here, left⟩
    · rw [same] at found
      exact (ih found).kept fun ⟨w, mem, here⟩ => others w mem here
    · rw [left] at found
      obtain ⟨value, _, rfl⟩ := Option.map_eq_some_iff.mp found
      rw [replayVersion]
      exact .renewed rs ⟨w, mem, here⟩

theorem tableLast (rs : List Record) (table : String) :
    LastOf (·.Touches table) rs ((replay rs).tableVersion table) := by
  induction rs using List.reverseRecOn with
  | nil => exact .none nofun
  | append_singleton rs r ih =>
    rw [replaySnoc]
    rcases State.tableVersionAfter (replay rs) r.writes table with ⟨others, same⟩ | ⟨touched, fresh⟩
    · rw [same]
      exact ih.kept fun ⟨w, mem, here⟩ => others w mem here
    · rw [fresh, replayVersion]
      exact .renewed rs touched

theorem rowStays (unwritten : ∀ r ∈ more, ¬ r.Writes row) :
    (replay (rs ++ more)).rows.get? row = (replay rs).rows.get? row := by
  induction more using List.reverseRecOn with
  | nil => rw [List.append_nil]
  | append_singleton more r ih =>
    rw [← List.append_assoc, replaySnoc]
    rcases State.rowAfter (replay (rs ++ more)) r.writes row with ⟨_, same⟩ | ⟨w, mem, here, _⟩
    · exact same.trans (ih fun x there => unwritten x (List.mem_append_left _ there))
    · exact absurd ⟨w, mem, here⟩ (unwritten r (List.mem_append_right _ (List.mem_singleton_self r)))

theorem sameVersion (nonzero : (replay rs).rowVersion row ≠ 0)
    (same : (replay (rs ++ more)).rowVersion row = (replay rs).rowVersion row) :
    (replay (rs ++ more)).rows.get? row = (replay rs).rows.get? row ∧ ∀ r ∈ more, ¬ r.Writes row := by
  have low : (replay (rs ++ more)).rowVersion row ≤ rs.length := by
    rw [same, ← replayVersion]
    exact State.rowVersionLe (State.datedReplay rs) row
  have unwritten : ∀ r ∈ more, ¬ r.Writes row := by
    rw [← same] at nonzero
    unfold State.rowVersion at nonzero low
    cases found : (replay (rs ++ more)).rows.get? row with
    | none =>
      rw [found] at nonzero
      exact absurd rfl nonzero
    | some held =>
      rw [found] at nonzero low
      exact (rowLast found).noneBehind nonzero low
  exact ⟨rowStays unwritten, unwritten⟩

inductive OpenedFrom : Database → List Record → Prop where
  | inMemory : OpenedFrom .inMemory []
  | durable {disk policy db} (ok : (openAt disk policy).1 = .ok db) :
      OpenedFrom db (Journal.openAt disk).2.records

theorem openedReplays {db : Database} (opened : db.OpenedFrom rs) : db.state = replay rs := by
  cases opened with
  | inMemory => rfl
  | @durable disk policy db ok =>
    obtain ⟨-, ⟨-, fails⟩ | ⟨-, _, opens, state, -⟩⟩ := openCases (d := disk) rfl policy
    · cases ok.symm.trans fails
    · cases ok.symm.trans opens
      exact state

end Database

namespace SharedDatabase
variable {d : SharedDatabase} {rs : List Record}

def published (d : SharedDatabase) : Event → Option Record
  | .commit who => match d.underway who with
    | some current => if d.db.writes current.txn then some ⟨current.txn.id, current.txn.toWrites⟩ else none
    | none => none
  | _ => none

def history : SharedDatabase → List Event → List Record
  | _, [] => []
  | d, e :: events => (d.published e).toList ++ (d.step e).history events

theorem publishedState (d : SharedDatabase) (e : Event) :
    (d.published e = none ∧ (d.step e).db.state = d.db.state) ∨
      ∃ r, d.published e = some r ∧ (d.step e).db.state = d.db.state.apply r.writes := by
  cases e with
  | commit who =>
    rcases ongoing : d.underway who with _ | current
    · exact .inl (by simp only [published, step, ongoing, and_self])
    cases writes : d.db.writes current.txn with
    | false =>
      refine .inl ⟨by simp only [published, ongoing, writes]; rfl, ?_⟩
      simp only [step, ongoing]
      rw [Database.commitIdle writes]
    | true =>
      refine .inr ⟨_, by simp only [published, ongoing, writes]; rfl, ?_⟩
      obtain ⟨_, _, _, _, written⟩ := Database.commitWriting writes
      simp only [step, ongoing]
      rw [written]
  | act who op =>
    refine .inl ⟨rfl, ?_⟩
    simp only [step]
    split <;> rfl
  | begin who | leave who => exact .inl ⟨rfl, rfl⟩
  | checkpoint => exact .inl ⟨rfl, Database.checkpointState d.db⟩
  | block on => exact .inl ⟨rfl, Database.blockState d.db on⟩

theorem replaysStep (h : d.db.state = Database.replay rs) (e : Event) :
    (d.step e).db.state = Database.replay (rs ++ (d.published e).toList) := by
  rcases publishedState d e with ⟨nothing, same⟩ | ⟨r, here, after⟩
  · rw [nothing, same, h, Option.toList_none, List.append_nil]
  · rw [here, after, h, Option.toList_some, Database.replaySnoc]

theorem replaysRun (h : d.db.state = Database.replay rs) (events : List Event) :
    (d.run events).db.state = Database.replay (rs ++ d.history events) := by
  induction events generalizing d rs with
  | nil => rw [history, List.append_nil]; exact h
  | cons e events ih =>
    rw [history, ← List.append_assoc]
    exact ih (replaysStep h e)

/-- The version of the database is the number of commits: a commit that goes through and has written something adds one,
and nothing else has any effect. That of a row is at least 1 and at most that of its table, which is the number of the
last commit that put or deleted something there. Wherever in a run a row has a version again, other than 0, it has the
value of then, and no commit has put or deleted it in between. -/
theorem versionNamesValue {db : Database} {recovered : List Record} (opened : db.OpenedFrom recovered)
    (events : List Event) :
    let d := (start db).run events
    let s := d.db.state
    let commits := recovered ++ (start db).history events
    s.version = commits.length ∧
    (∀ e, (d.published e = none ∧ (d.step e).db.state = s) ∨
      ∃ r, d.published e = some r ∧ (d.step e).db.state = s.apply r.writes ∧
        (d.step e).db.state.version = s.version + 1) ∧
    (∀ row held, s.rows.get? row = some held → 1 ≤ held.version ∧ held.version ≤ s.tableVersion row.table) ∧
    (∀ table, s.tableVersion table ≤ s.version ∧ LastOf (·.Touches table) commits (s.tableVersion table)) ∧
    ∀ later row, s.rowVersion row ≠ 0 → (d.run later).db.state.rowVersion row = s.rowVersion row →
      (∃ value, s.value? row = some value ∧ (d.run later).db.state.value? row = some value) ∧
        ∀ r ∈ d.history later, ¬ r.Writes row := by
  intro d s commits
  have replays : s = Database.replay commits := replaysRun (Database.openedReplays opened) events
  have dated : s.Dated := replays ▸ State.datedReplay commits
  refine ⟨by rw [replays, Database.replayVersion], fun e => ?_, fun row held found => dated.row found,
    fun table => ⟨dated.table table, replays ▸ Database.tableLast commits table⟩, ?_⟩
  · rcases publishedState d e with idle | ⟨r, here, after⟩
    · exact .inl idle
    · exact .inr ⟨r, here, after, by rw [after, State.versionAfter]⟩
  · intro later row nonzero same
    rw [replaysRun replays later] at same ⊢
    rw [replays] at nonzero same ⊢
    obtain ⟨stays, unwritten⟩ := Database.sameVersion nonzero same
    refine ⟨?_, unwritten⟩
    obtain ⟨held, found⟩ : ∃ held, (Database.replay commits).rows.get? row = some held := by
      rw [← Option.ne_none_iff_exists']
      exact fun missing => nonzero ((State.rowVersionPos (State.datedReplay commits)).mpr missing)
    exact ⟨held.value, by rw [State.value?, found]; rfl, by rw [State.value?, stays, found]; rfl⟩

def rowA : RowId := ⟨"t", Bytes.ofText "a"⟩
def rowB : RowId := ⟨"t", Bytes.ofText "b"⟩

def filled : Record := ⟨1, [.put "t" rowA.key (Bytes.ofText "u"), .put "t" rowB.key (Bytes.ofText "v")]⟩

def filledDisk : Disk := ⟨some filled.text, false⟩

def reopened : Database :=
  { state := Database.replay [filled]
    log := some ⟨⟨{ filledDisk with file := some filledDisk.content }, filledDisk.content.size⟩, .never,
      ⟨1, filledDisk.content.size⟩⟩
    nextTxnId := 2 }

theorem reopenedFilled : reopened.OpenedFrom [filled] := by
  have coded : filled.encode = .ok filled.text := filled.encodeText (by decide)
  have held : filledDisk.Holds [filled] :=
    ⟨by rw [Journal.encodeAllJoins coded rfl, ByteArray.append_empty]; rfl, by decide⟩
  have found := Journal.openHeld held
  have ok : (Database.openAt filledDisk .never).1 = .ok reopened := by
    rw [Database.openAt, found]
    rfl
  have opened := Database.OpenedFrom.durable ok
  rwa [found] at opened

def meanwhile : List Event :=
  [.begin 0, .begin 1, .act 0 (.delete rowB), .act 1 (.scan "t"), .act 1 (.delete rowA), .commit 0, .commit 1,
    .checkpoint, .begin 2, .act 2 (.get rowA), .act 2 (.put rowB (Bytes.ofText "v")), .commit 2]

theorem versionNamesValueOfRowBeside :
    reopened.OpenedFrom [filled] ∧
      let d := (start reopened).run [.begin 0]
      let s := (d.run meanwhile).db.state
      (d.history meanwhile).length = 2 ∧ s.version = 3 ∧ s.rowVersion rowB = 3 ∧ s.rowVersion rowA = 1 ∧
        (∃ value, d.db.state.value? rowA = some value ∧ s.value? rowA = some value) ∧
          ∀ r ∈ d.history meanwhile, ¬ r.Writes rowA := by
  obtain ⟨-, -, -, -, names⟩ := versionNamesValue reopenedFilled [.begin 0]
  exact ⟨reopenedFilled, by decide +kernel, by decide +kernel, by decide +kernel, by decide +kernel,
    names meanwhile rowA (by decide +kernel) (by decide +kernel)⟩

end SharedDatabase
end Teller
