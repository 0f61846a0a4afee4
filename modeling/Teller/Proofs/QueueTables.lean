import Teller.Proofs.Shelving

/-! The tables of a queue whose rows can be read: the tasks that are due in their order, the archive by age, and what
putting tasks away does to both. -/
namespace Teller
open Broker
open Transaction (Buffer)

theorem mergeSortStable {α : Type} {le : α → α → Bool} {R : α → α → Prop} (trans : ∀ a b c, le a b → le b c → le a c)
    (total : ∀ a b, (le a b || le b a) = true) {l : List α} (sorted : l.Pairwise R) :
    (l.mergeSort le).Pairwise fun a b => le a b ∧ (le b a → R a b) := by
  induction l with
  | nil => simp
  | cons a l ih =>
    obtain ⟨before, behind, whole, rest, less⟩ := List.mergeSort_cons trans total a l
    have ordered := List.pairwise_mergeSort trans total (a :: l)
    have later := ih (List.pairwise_cons.mp sorted).2
    have first := (List.pairwise_cons.mp sorted).1
    rw [whole, List.pairwise_append, List.pairwise_cons] at ordered
    rw [rest, List.pairwise_append] at later
    rw [whole, List.pairwise_append, List.pairwise_cons]
    obtain ⟨-, ⟨behindA, -⟩, beforeA⟩ := ordered
    obtain ⟨front, back, across⟩ := later
    refine ⟨front, ⟨fun b mem => ⟨behindA b mem, fun _ => first b ?_⟩, back⟩, fun b mem c there => ?_⟩
    · exact List.mem_mergeSort.mp (rest ▸ List.mem_append_right _ mem)
    · rcases List.mem_cons.mp there with rfl | there
      · refine ⟨beforeA b mem c List.mem_cons_self, fun back => ?_⟩
        have := less b mem
        simp [back] at this
      · exact across b mem c there

theorem readEach {ε α : Type} {read : Bytes → Except ε α} {own : α → Bytes} {entries : List (Bytes × Bytes)}
    (each : ∀ key value, (key, value) ∈ entries → ∃ a, read value = .ok a ∧ own a = key) :
    ∃ found, (entries.mapM fun (_, value) => read value) = .ok found ∧ found.map own = entries.map (·.1) ∧
      ∀ a, a ∈ found ↔ ∃ value, (own a, value) ∈ entries ∧ read value = .ok a := by
  induction entries with
  | nil => exact ⟨[], rfl, rfl, by simp⟩
  | cons e entries ih =>
    obtain ⟨key, value⟩ := e
    obtain ⟨first, here, rfl⟩ := each key value List.mem_cons_self
    obtain ⟨found, later, keys, listed⟩ := ih fun key value mem => each key value (List.mem_cons_of_mem _ mem)
    refine ⟨first :: found, ?_, by simp [keys], fun a => ?_⟩
    · rw [List.mapM_cons, later]
      dsimp only
      rw [here]
      rfl
    · rw [List.mem_cons, listed]
      constructor
      · rintro (rfl | ⟨value, mem, read⟩)
        · exact ⟨value, List.mem_cons_self, here⟩
        · exact ⟨value, List.mem_cons_of_mem _ mem, read⟩
      · rintro ⟨value', mem, there⟩
        rcases List.mem_cons.mp mem with same | mem
        · obtain ⟨-, rfl⟩ := Prod.mk.inj same
          exact .inl (Except.ok.inj (there.symm.trans here))
        · exact .inr ⟨value', mem, there⟩

namespace Rows
variable {rows : Rows} {queue name : String} {r : TaskRecord} {id : Uuid}

def Holds (rows : Rows) (queue table : String) : Prop := ∀ key value, rows ⟨table, key⟩ = some value →
  ∃ r, decoded value = .ok r ∧ r.queue = queue ∧ r.id.key = key

structure Belong (rows : Rows) (queue : String) : Prop where
  queued : rows.Holds queue (queueTable queue)
  archived : rows.Holds queue (archiveTable queue)

theorem belongQueued (held : ∀ row value, rows row = some value → ∃ r, decoded value = .ok r ∧ row = queueRow r)
    (queue : String) : rows.Belong queue := by
  constructor
  · intro key value there
    obtain ⟨r, read, row⟩ := held _ _ there
    exact ⟨r, read, (queueTableInjective (congrArg RowId.table row)).symm, (congrArg RowId.key row).symm⟩
  · intro key value there
    obtain ⟨r, -, row⟩ := held _ _ there
    exact absurd (congrArg RowId.table row).symm (queueApart _ _)

theorem recordIff : rows.record? name id = some r ↔
    ∃ value, rows ⟨name, id.key⟩ = some value ∧ decoded value = .ok r := by
  unfold record? decoded
  cases rows ⟨name, id.key⟩ with
  | none => simp
  | some value =>
    simp only [Option.bind_some, Option.some.injEq, exists_eq_left']
    cases Json.decode TaskRecord.codec value.data.toList with
    | error e => constructor <;> intro same <;> cases same
    | ok x => constructor <;> intro same <;> cases same <;> rfl

theorem recordQueue (holds : rows.Holds queue name) (here : rows.record? name id = some r) : r.queue = queue := by
  obtain ⟨value, held, read⟩ := recordIff.mp here
  obtain ⟨r', read', own, -⟩ := holds id.key value held
  cases read.symm.trans read'
  exact own

theorem readListed {ε α : Type} {read : Bytes → Except ε α} {own : α → Bytes}
    (each : ∀ key value, rows ⟨name, key⟩ = some value → ∃ a, read value = .ok a ∧ own a = key)
    {table : SortedMap Bytes Bytes}
    (scan : ∀ key value, (key, value) ∈ table.entries ↔ rows ⟨name, key⟩ = some value) :
    ∃ found, (table.entries.mapM fun (_, value) => read value) = .ok found ∧
      (found.Pairwise fun a b => compare (own a) (own b) = .lt) ∧
      ∀ a, a ∈ found ↔ ∃ value, rows ⟨name, own a⟩ = some value ∧ read value = .ok a := by
  obtain ⟨found, read, keys, listed⟩ := readEach fun key value mem => each key value ((scan key value).mp mem)
  refine ⟨found, read, ?_, fun a => by simp only [listed, scan]⟩
  have ascending : (table.entries.map (·.1)).Pairwise fun a b => compare a b = .lt :=
    List.pairwise_map.mpr table.ascending
  rw [← keys] at ascending
  exact List.pairwise_map.mp ascending

theorem holdsListed (holds : rows.Holds queue name) {table : SortedMap Bytes Bytes}
    (scan : ∀ key value, (key, value) ∈ table.entries ↔ rows ⟨name, key⟩ = some value) :
    ∃ records, decodedRows table.entries = .ok records ∧
      (records.Pairwise fun a b => compare a.id.key b.id.key = .lt) ∧
      ∀ r : TaskRecord, r ∈ records ↔ rows.record? name r.id = some r := by
  simp only [recordIff]
  have each (key value : Bytes) (there : rows ⟨name, key⟩ = some value) :
      ∃ r : TaskRecord, decoded value = .ok r ∧ r.id.key = key := by
    obtain ⟨r, read, -, own⟩ := holds key value there
    exact ⟨r, read, own⟩
  exact readListed each scan

/-! ### The tasks that are due -/

def Sooner (a b : TaskRecord) : Prop := ∃ x y, a.readyAt = some x ∧ b.readyAt = some y ∧
  (x < y ∨ x = y ∧ (a.enqueuedAt < b.enqueuedAt ∨
    a.enqueuedAt = b.enqueuedAt ∧ compare a.id.key b.id.key = .lt))

structure Due (rows : Rows) (queue : String) (now : Moment) (due : List TaskRecord) : Prop where
  sorted : due.Pairwise Sooner
  listed : ∀ r, r ∈ due ↔ rows.record? (queueTable queue) r.id = some r ∧ ∃ date, r.readyAt = some date ∧ date ≤ now

theorem momentEq {a b : Moment} : a = b ↔ a.ms = b.ms := by
  obtain ⟨a, _⟩ := a
  obtain ⟨b, _⟩ := b
  simp

theorem soonerIff (a b : Moment × TaskRecord) : sooner a b = true ↔
    a.1.ms < b.1.ms ∨ a.1.ms = b.1.ms ∧ a.2.enqueuedAt.ms ≤ b.2.enqueuedAt.ms := by
  simp only [sooner, Bool.or_eq_true, Bool.and_eq_true, decide_eq_true_eq, momentEq]
  rfl

theorem readyListed {now : Moment} {records : List TaskRecord} {e : Moment × TaskRecord}
    (mem : e ∈ (records.filterMap (readySince? now)).mergeSort sooner) :
    e.2 ∈ records ∧ e.2.readyAt = some e.1 ∧ e.1 ≤ now := by
  obtain ⟨r, there, ready⟩ := List.mem_filterMap.mp (List.mem_mergeSort.mp mem)
  obtain ⟨same, since, le⟩ := readySinceIff.mp ready
  exact ⟨same ▸ there, same ▸ since, le⟩

theorem dueListed (now : Moment) {records : List TaskRecord}
    (ascending : records.Pairwise fun a b => compare a.id.key b.id.key = .lt)
    (listed : ∀ r : TaskRecord, r ∈ records ↔ rows.record? (queueTable queue) r.id = some r) :
    rows.Due queue now (due now records) := by
  constructor
  case sorted =>
    have picked : (records.filterMap (readySince? now)).Pairwise fun a b =>
        compare a.2.id.key b.2.id.key = .lt := by
      refine List.pairwise_filterMap.mpr (ascending.imp fun {a b} less x hx y hy => ?_)
      obtain ⟨rfl, -⟩ := readySinceIff.mp hx
      obtain ⟨rfl, -⟩ := readySinceIff.mp hy
      exact less
    have sorted : ((records.filterMap (readySince? now)).mergeSort sooner).Pairwise fun a b =>
        sooner a b ∧ (sooner b a → compare a.2.id.key b.2.id.key = .lt) :=
      mergeSortStable (fun a b c => by simp only [soonerIff]; omega)
        (fun a b => by rw [Bool.or_eq_true, soonerIff, soonerIff]; omega) picked
    refine List.pairwise_map.mpr (sorted.imp_of_mem fun {a b} first second ordered => ?_)
    obtain ⟨le, tie⟩ := ordered
    rw [soonerIff] at le tie
    refine ⟨a.1, b.1, (readyListed first).2.1, (readyListed second).2.1, ?_⟩
    rw [momentEq, momentEq]
    by_cases even : a.1.ms = b.1.ms ∧ a.2.enqueuedAt.ms = b.2.enqueuedAt.ms
    · exact .inr ⟨even.1, .inr ⟨even.2, tie (by omega)⟩⟩
    · rcases le with less | ⟨same, le⟩
      · exact .inl less
      · exact .inr ⟨same, .inl (show a.2.enqueuedAt.ms < b.2.enqueuedAt.ms by omega)⟩
  case listed =>
    intro r
    rw [due, List.mem_map, ← listed]
    constructor
    · rintro ⟨e, mem, rfl⟩
      obtain ⟨there, since, le⟩ := readyListed mem
      exact ⟨there, e.1, since, le⟩
    · rintro ⟨there, date, since, le⟩
      refine ⟨(date, r), List.mem_mergeSort.mpr (List.mem_filterMap.mpr ⟨r, there, ?_⟩), rfl⟩
      exact readySinceIff.mpr ⟨rfl, since, le⟩

theorem soonerOnce {a b : TaskRecord} (first : Sooner a b) (second : Sooner b a) : False := by
  obtain ⟨x, y, ready, ready', order⟩ := first
  obtain ⟨x', y', again, again', back⟩ := second
  obtain rfl : y = x' := Option.some.inj (ready'.symm.trans again)
  obtain rfl : x = y' := Option.some.inj (ready.symm.trans again')
  have oriented : compare a.id.key b.id.key = .lt → compare b.id.key a.id.key ≠ .lt := by
    intro less more
    rw [Std.OrientedOrd.eq_swap, less] at more
    cases more
  have less (a b : Moment) : a < b ↔ a.ms < b.ms := Iff.rfl
  simp only [momentEq, less] at order back
  grind

theorem dueDistinct {now : Moment} {all : List TaskRecord} (due : rows.Due queue now all) : (all.map (·.id)).Nodup := by
  refine List.pairwise_map.mpr (due.sorted.imp_of_mem fun {a b} here there sooner same => ?_)
  have one := ((due.listed a).mp here).1
  rw [same, ((due.listed b).mp there).1, Option.some.injEq] at one
  subst one
  exact soonerOnce sooner sooner

structure Aged (rows : Rows) (queue : String) (archive : List (Moment × TaskRecord)) : Prop where
  sorted : archive.Pairwise fun a b => a.1 < b.1 ∨ a.1 = b.1 ∧ compare a.2.id.key b.2.id.key = .lt
  listed : ∀ date r, (date, r) ∈ archive ↔
    rows.record? (archiveTable queue) r.id = some r ∧ r.state = .archived date

theorem agedListed {records : List TaskRecord}
    (ascending : records.Pairwise fun a b => compare a.id.key b.id.key = .lt)
    (listed : ∀ r : TaskRecord, r ∈ records ↔ rows.record? (archiveTable queue) r.id = some r) :
    rows.Aged queue (byAge records) := by
  constructor
  case sorted =>
    have picked : (records.filterMap fun r => (archivedAt? r).map (·, r)).Pairwise fun a b =>
        compare a.2.id.key b.2.id.key = .lt := by
      refine List.pairwise_filterMap.mpr (ascending.imp fun {a b} less x hx y hy => ?_)
      obtain ⟨rfl, -⟩ := archivedAtIff.mp hx
      obtain ⟨rfl, -⟩ := archivedAtIff.mp hy
      exact less
    have iff (a b : Moment × TaskRecord) : olderFirst a b = true ↔ a.1.ms ≤ b.1.ms := decide_eq_true_iff
    have sorted : (byAge records).Pairwise fun a b =>
        olderFirst a b ∧ (olderFirst b a → compare a.2.id.key b.2.id.key = .lt) :=
      mergeSortStable (fun a b c => by simp only [iff]; omega)
        (fun a b => by rw [Bool.or_eq_true, iff, iff]; omega) picked
    refine sorted.imp fun {a b} ordered => ?_
    obtain ⟨le, tie⟩ := ordered
    rw [iff] at le tie
    rw [momentEq]
    by_cases even : a.1.ms = b.1.ms
    · exact .inr ⟨even, tie (by omega)⟩
    · exact .inl (show a.1.ms < b.1.ms by omega)
  case listed =>
    intro date r
    rw [byAge, List.mem_mergeSort, List.mem_filterMap, ← listed]
    constructor
    · rintro ⟨x, mem, dated⟩
      obtain ⟨rfl, state⟩ := archivedAtIff.mp dated
      exact ⟨mem, state⟩
    · rintro ⟨mem, state⟩
      exact ⟨r, mem, archivedAtIff.mpr ⟨rfl, state⟩⟩

def shelve (rows : Rows) (now : Moment) (error : String) (r : TaskRecord) : Rows :=
  (rows.set (queueRow r) none).set (archiveRow r) (some (Json.encode TaskRecord.codec (shelved now error r)))

def giveUp (rows : Rows) (queue : String) (gone : List TaskRecord) : Rows :=
  gone.foldl (fun rows r => rows.set ⟨archiveTable queue, r.id.key⟩ none) rows

inductive Shelves (limits : ArchiveLimits) (queue : String) (now : Moment) (error : String) :
    List TaskRecord → Rows → Rows → Prop where
  | nil (before) : Shelves limits queue now error [] before before
  | cons {before x rest archive after} (aged : (before.shelve now error x).Aged queue archive)
      (later : Shelves limits queue now error rest
        ((before.shelve now error x).giveUp queue (dropped limits now archive)) after) :
      Shelves limits queue now error (x :: rest) before after

variable {limits : ArchiveLimits} {now : Moment} {error : String} {before after : Rows} {lost gone : List TaskRecord}

theorem giveUpAt (rows : Rows) (queue : String) (gone : List TaskRecord) (row : RowId) :
    rows.giveUp queue gone row = if row ∈ gone.map fun r => ⟨archiveTable queue, r.id.key⟩ then none else rows row := by
  induction gone generalizing rows with
  | nil => rfl
  | cons r gone ih =>
    rw [giveUp, List.foldl_cons, ← giveUp, ih, set]
    by_cases here : row = ⟨archiveTable queue, r.id.key⟩ <;> simp [here]

theorem holdsShelve (now : Moment) (error : String) (holds : rows.Holds queue name) (own : r.queue = queue) :
    (rows.shelve now error r).Holds queue name := by
  intro key value held
  unfold shelve set at held
  split at held
  next here =>
    cases held
    exact ⟨_, decodedEncode _, own, (congrArg RowId.key here).symm⟩
  next =>
    split at held
    · cases held
    · exact holds key value held

theorem holdsGiveUp (holds : rows.Holds queue name) (gone : List TaskRecord) :
    (rows.giveUp queue gone).Holds queue name := by
  intro key value held
  rw [giveUpAt] at held
  split at held
  · cases held
  · exact holds key value held

theorem belongShelve (h : rows.Belong queue) (own : r.queue = queue) (gone : List TaskRecord) :
    ((rows.shelve now error r).giveUp queue gone).Belong queue :=
  ⟨holdsGiveUp (holdsShelve now error h.queued own) gone, holdsGiveUp (holdsShelve now error h.archived own) gone⟩

theorem shelveElsewhere (own : r.queue = queue) (gone : List TaskRecord) {row : RowId}
    (apart : row.table ≠ archiveTable queue) :
    (rows.shelve now error r).giveUp queue gone row = if row = queueRow r then none else rows row := by
  have kept : row ∉ gone.map fun r => (⟨archiveTable queue, r.id.key⟩ : RowId) := by
    intro mem
    obtain ⟨x, -, rfl⟩ := List.mem_map.mp mem
    exact apart rfl
  have other : row ≠ archiveRow r := by
    rintro rfl
    exact apart (congrArg archiveTable own)
  rw [giveUpAt, if_neg kept, shelve, setOther _ _ other]
  rfl

theorem shelveArchive (rows : Rows) (now : Moment) (error : String) (own : r.queue = queue) (gone : List TaskRecord)
    (key : Bytes) : (rows.shelve now error r).giveUp queue gone ⟨archiveTable queue, key⟩ = none ∨
    (rows.shelve now error r).giveUp queue gone ⟨archiveTable queue, key⟩ =
      if key = r.id.key then some (Json.encode TaskRecord.codec (shelved now error r))
      else rows ⟨archiveTable queue, key⟩ := by
  subst own
  rw [giveUpAt]
  split
  · exact .inl rfl
  · right
    have apart : (⟨archiveTable r.queue, key⟩ : RowId) ≠ queueRow r := fun same =>
      queueApart _ _ (congrArg RowId.table same).symm
    simp only [shelve, set, archiveRow, RowId.mk.injEq, true_and, if_neg apart]

theorem shelvesElsewhere (shelves : Shelves limits queue now error lost before after)
    (own : ∀ r ∈ lost, r.queue = queue) {row : RowId} (apart : row.table ≠ archiveTable queue) :
    after row = if row ∈ lost.map queueRow then none else before row := by
  induction shelves with
  | nil => rfl
  | cons aged later ih =>
    rw [ih fun r mem => own r (List.mem_cons_of_mem _ mem), shelveElsewhere (own _ List.mem_cons_self) _ apart]
    simp only [List.map_cons, List.mem_cons]
    grind

theorem belongShelves (shelves : Shelves limits queue now error lost before after) (own : ∀ r ∈ lost, r.queue = queue)
    (belong : ∀ queue, before.Belong queue) (place : String) : after.Belong place := by
  induction shelves with
  | nil => exact belong place
  | @cons before x rest archive after aged later ih =>
    obtain rfl := own x List.mem_cons_self
    refine ih (fun r mem => own r (List.mem_cons_of_mem _ mem)) fun place => ?_
    by_cases here : x.queue = place
    · exact here ▸ belongShelve (belong x.queue) rfl _
    · have kept {name : String} (apart : name ≠ archiveTable x.queue) (holds : before.Holds place name) :
          ((before.shelve now error x).giveUp x.queue (dropped limits now archive)).Holds place name := by
        intro key value held
        rw [shelveElsewhere rfl _ apart] at held
        split at held
        · cases held
        · exact holds key value held
      exact ⟨kept (queueApart _ _) (belong place).queued,
        kept (fun same => here (archiveTableInjective same).symm) (belong place).archived⟩

theorem shelvesBystander (shelves : Shelves limits queue now error lost before after)
    (own : ∀ r ∈ lost, r.queue = queue) {key : Bytes} (other : ∀ r ∈ lost, key ≠ r.id.key) :
    after ⟨archiveTable queue, key⟩ = none ∨
      after ⟨archiveTable queue, key⟩ = before ⟨archiveTable queue, key⟩ := by
  induction shelves with
  | nil => exact .inr rfl
  | @cons before x rest archive after aged later ih =>
    have step := shelveArchive before now error (own x List.mem_cons_self) (dropped limits now archive) key
    rw [if_neg (other x List.mem_cons_self)] at step
    have rest := ih (fun r mem => own r (List.mem_cons_of_mem _ mem)) fun r mem => other r (List.mem_cons_of_mem _ mem)
    grind

theorem shelvesLost (shelves : Shelves limits queue now error lost before after)
    (own : ∀ r ∈ lost, r.queue = queue) (distinct : (lost.map (·.id)).Nodup) : ∀ r ∈ lost,
    after ⟨archiveTable queue, r.id.key⟩ = none ∨
      after ⟨archiveTable queue, r.id.key⟩ = some (Json.encode TaskRecord.codec (shelved now error r)) := by
  induction shelves with
  | nil => simp
  | @cons before x rest archive after aged later ih =>
    have others (r : TaskRecord) (mem : r ∈ rest) : r.queue = queue := own r (List.mem_cons_of_mem _ mem)
    obtain ⟨fresh, distinct⟩ := List.nodup_cons.mp distinct
    intro r mem
    rcases List.mem_cons.mp mem with rfl | mem
    · have step := shelveArchive before now error (own r List.mem_cons_self) (dropped limits now archive) r.id.key
      rw [if_pos rfl] at step
      have rest := shelvesBystander later others fun x mem same =>
        fresh (List.mem_map.mpr ⟨x, mem, (Uuid.keyInjective same).symm⟩)
      grind
    · exact ih others distinct r mem

end Rows
end Teller
