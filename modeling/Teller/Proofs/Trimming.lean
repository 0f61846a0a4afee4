import Mathlib.Data.List.Perm.Subperm
import Teller.Proofs.QueueTables

/-! What an archive keeps when it gives up the oldest of what it holds, once for its size and once for its age,
and once more for each of several tasks that are put away one after the other. -/
namespace Teller
open Broker

namespace Broker
variable {limits : ArchiveLimits} {now cutoff : Moment} {archive kept : List (Moment × TaskRecord)}
  {came came' : Moment × TaskRecord → Prop} {e : Moment × TaskRecord}

def Recent (limits : ArchiveLimits) (now date : Moment) : Prop :=
  ∀ cutoff, now.sub? limits.age = some cutoff → cutoff ≤ date

/-- Of all that came to an archive it keeps no more than it may, and none that is too old. What it keeps is no older
than what it gave up. It gave up nothing recent unless it is full. -/
structure Trimmed (limits : ArchiveLimits) (now : Moment) (came : Moment × TaskRecord → Prop)
    (kept : List (Moment × TaskRecord)) : Prop where
  few : kept.length ≤ limits.size
  recent : ∀ e ∈ kept, Recent limits now e.1
  among : ∀ e ∈ kept, came e
  oldest : ∀ e, came e → e ∉ kept → ∀ k ∈ kept, e.1 ≤ k.1
  full : ∀ e, came e → e ∉ kept → Recent limits now e.1 → kept.length = limits.size

theorem trimmedSame (h : Trimmed limits now came kept) (same : ∀ e, came' e ↔ came e) :
    Trimmed limits now came' kept := by
  obtain rfl : came' = came := funext fun e => propext (same e)
  exact h

theorem notExpired (sorted : archive.Pairwise fun a b => a.1 ≤ b.1)
    (mem : e ∈ archive.dropWhile fun (date, _) => date < cutoff) : cutoff ≤ e.1 := by
  induction archive with
  | nil => cases mem
  | cons a archive ih =>
    obtain ⟨first, sorted⟩ := List.pairwise_cons.mp sorted
    by_cases old : a.1 < cutoff
    · rw [List.dropWhile_cons_of_pos (by simpa using old)] at mem
      exact ih sorted mem
    · rw [List.dropWhile_cons_of_neg (by simpa using old)] at mem
      have young : cutoff.ms ≤ a.1.ms := Int.not_lt.mp old
      cases mem with
      | head => exact young
      | tail _ mem => exact Int.le_trans young (first e mem)

theorem expiredOld (mem : e ∈ archive.takeWhile fun (date, _) => date < cutoff) : e.1 < cutoff := by
  have old := List.all_eq_true.mp (List.all_takeWhile (p := fun e : Moment × TaskRecord => decide (e.1 < cutoff))) e mem
  simpa using old

theorem surplusCases (limits : ArchiveLimits) (now : Moment) (archive : List (Moment × TaskRecord)) :
    archive.length - limits.size ≤ surplus limits now archive ∧
    (∀ cutoff, now.sub? limits.age = some cutoff →
      (archive.takeWhile fun (date, _) => date < cutoff).length ≤ surplus limits now archive) ∧
    (surplus limits now archive = archive.length - limits.size ∨ ∃ cutoff, now.sub? limits.age = some cutoff ∧
      surplus limits now archive = (archive.takeWhile fun (date, _) => date < cutoff).length) := by
  unfold surplus
  cases now.sub? limits.age with
  | none => simp
  | some cutoff =>
    refine ⟨Nat.le_max_right _ _, fun _ same => ?_, ?_⟩
    · cases same
      exact Nat.le_max_left _ _
    · rcases Nat.le_total (archive.takeWhile fun (date, _) => date < cutoff).length (archive.length - limits.size)
        with more | more
      · exact .inl (Nat.max_eq_right more)
      · exact .inr ⟨cutoff, rfl, Nat.max_eq_left more⟩

theorem trimmedOnce (sorted : archive.Pairwise fun a b => a.1 ≤ b.1) :
    Trimmed limits now (· ∈ archive) (archive.drop (surplus limits now archive)) := by
  obtain ⟨size, age, cut⟩ := surplusCases limits now archive
  generalize surplus limits now archive = n at size age cut ⊢
  have whole := List.take_append_drop n archive
  have taken (e : Moment × TaskRecord) (mem : e ∈ archive) (gone : e ∉ archive.drop n) : e ∈ archive.take n := by
    rw [← whole] at mem
    exact (List.mem_append.mp mem).resolve_right gone
  constructor
  case few =>
    rw [List.length_drop]
    omega
  case recent =>
    intro e mem cutoff dated
    have expired := age cutoff dated
    let old (e : Moment × TaskRecord) : Bool := decide (e.1 < cutoff)
    have behind : (archive.takeWhile old ++ archive.dropWhile old).drop (archive.takeWhile old).length =
        archive.dropWhile old := List.drop_left
    rw [List.takeWhile_append_dropWhile] at behind
    refine notExpired sorted (behind ▸ ?_)
    exact (List.drop_sublist_drop_left archive expired).subset mem
  case among => exact fun e mem => List.mem_of_mem_drop mem
  case oldest =>
    intro e mem gone k there
    rw [← whole, List.pairwise_append] at sorted
    exact sorted.2.2 e (taken e mem gone) k there
  case full =>
    intro e mem gone recent
    have front := taken e mem gone
    rw [List.length_drop]
    rcases cut with rfl | ⟨cutoff, dated, rfl⟩
    · have excess : 0 < archive.length - limits.size := by
        by_contra within
        rw [Nat.eq_zero_of_not_pos within] at front
        cases front
      omega
    · rw [← List.prefix_iff_eq_take.mp (List.takeWhile_prefix _)] at front
      exact absurd (recent cutoff dated) (Int.not_le.mpr (expiredOld front))

variable {x : TaskRecord}

theorem trimmedNow (h : Trimmed limits now came kept) (sorted : archive.Pairwise fun a b => a.1 ≤ b.1)
    (once : archive.Nodup) (length : archive.length = kept.length + 1)
    (members : ∀ e, e ∈ archive ↔ e = (now, x) ∨ e ∈ kept) (there : came e) (gone : e ∉ kept)
    (mem : (now, x) ∈ archive.drop (surplus limits now archive)) : e.1 ≤ now := by
  by_contra later
  have later : now.ms < e.1.ms := Int.not_le.mp later
  by_cases recent : Recent limits now e.1
  · have full := h.full e there gone recent
    obtain ⟨size, -, -⟩ := surplusCases limits now archive
    obtain ⟨n, cut⟩ : ∃ n, surplus limits now archive = n + 1 := Nat.exists_eq_add_of_le' (by omega)
    rw [cut] at mem
    cases archive with
    | nil => cases mem
    | cons first rest =>
      have behind : (now, x) ∈ rest := List.mem_of_mem_drop mem
      have low := (List.pairwise_cons.mp sorted).1 _ behind
      rcases (members first).mp List.mem_cons_self with rfl | inside
      · exact (List.nodup_cons.mp once).1 behind
      · have high := h.oldest e there gone first inside
        exact absurd (Int.le_trans high low) (Int.not_le.mpr later)
  · simp only [Recent, not_forall] at recent
    obtain ⟨cutoff, dated, old⟩ := recent
    have young : cutoff.ms ≤ now.ms := (trimmedOnce sorted).recent _ mem cutoff dated
    exact old (Int.le_trans young (Int.le_of_lt later))

theorem trimmedMore (h : Trimmed limits now came kept) (sorted : archive.Pairwise fun a b => a.1 ≤ b.1)
    (once : archive.Nodup) (length : archive.length = kept.length + 1)
    (members : ∀ e, e ∈ archive ↔ e = (now, x) ∨ e ∈ kept) (more : ∀ e, came' e ↔ e = (now, x) ∨ came e) :
    Trimmed limits now came' (archive.drop (surplus limits now archive)) := by
  have own : Trimmed limits now (· ∈ archive) (archive.drop (surplus limits now archive)) := trimmedOnce sorted
  have before (e : Moment × TaskRecord) (there : came' e) (away : e ∉ archive) : came e ∧ e ∉ kept :=
    ⟨((more e).mp there).resolve_left fun same => away ((members e).mpr (.inl same)),
      fun mem => away ((members e).mpr (.inr mem))⟩
  constructor
  case few => exact own.few
  case recent => exact own.recent
  case among =>
    intro e mem
    rcases (members e).mp (own.among e mem) with here | inside
    · exact (more e).mpr (.inl here)
    · exact (more e).mpr (.inr (h.among e inside))
  case oldest =>
    intro e there gone k mem
    by_cases here : e ∈ archive
    · exact own.oldest e here gone k mem
    · obtain ⟨there, gone⟩ := before e there here
      rcases (members k).mp (own.among k mem) with rfl | inside
      · exact trimmedNow h sorted once length members there gone mem
      · exact h.oldest e there gone k inside
  case full =>
    intro e there gone recent
    by_cases here : e ∈ archive
    · exact own.full e here gone recent
    · obtain ⟨there, gone⟩ := before e there here
      have full := h.full e there gone recent
      obtain ⟨size, -, cut⟩ := surplusCases limits now archive
      rw [List.length_drop]
      rcases cut with cut | ⟨cutoff, dated, cut⟩
      · omega
      -- All that was kept before is recent, so at most what came now is too old.
      · have only : ∀ y ∈ archive.takeWhile fun (date, _) => date < cutoff, y ∈ [(now, x)] := by
          intro y mem
          rcases (members y).mp ((List.takeWhile_sublist _).subset mem) with here | inside
          · exact List.mem_singleton.mpr here
          · exact absurd (h.recent y inside cutoff dated) (Int.not_le.mpr (expiredOld mem))
        have few := (List.subperm_of_subset (once.sublist (List.takeWhile_sublist _)) only).length_le
        rw [List.length_singleton, ← cut] at few
        omega

end Broker

namespace Rows
variable {limits : ArchiveLimits} {rows before after : Rows} {queue error : String} {now : Moment} {x : TaskRecord}
  {archive kept : List (Moment × TaskRecord)} {lost : List TaskRecord} {e : Moment × TaskRecord}

def InArchive (rows : Rows) (queue : String) (e : Moment × TaskRecord) : Prop :=
  rows.record? (archiveTable queue) e.2.id = some e.2 ∧ e.2.state = .archived e.1

theorem agedIff (aged : rows.Aged queue archive) (e : Moment × TaskRecord) : e ∈ archive ↔ rows.InArchive queue e :=
  aged.listed e.1 e.2

theorem agedDates (aged : rows.Aged queue archive) : archive.Pairwise fun a b => a.1 ≤ b.1 := by
  refine aged.sorted.imp fun {a b} order => ?_
  rcases order with less | ⟨same, -⟩
  · exact Int.le_of_lt less
  · exact Int.le_of_eq (congrArg Moment.ms same)

theorem agedDistinct (aged : rows.Aged queue archive) : (archive.map (·.2.id)).Nodup := by
  refine List.pairwise_map.mpr (aged.sorted.imp_of_mem fun {a b} here there order same => ?_)
  obtain ⟨stored, state⟩ := (agedIff aged a).mp here
  obtain ⟨stored', state'⟩ := (agedIff aged b).mp there
  rw [same, stored', Option.some.injEq] at stored
  rw [stored, state] at state'
  have dates : a.1 = b.1 := TaskState.archived.inj state'
  rw [dates, same] at order
  rcases order with less | ⟨-, less⟩
  · exact Int.lt_irrefl _ less
  · simp at less

theorem agedOnce (aged : rows.Aged queue archive) : archive.Nodup :=
  (List.pairwise_map.mp (agedDistinct aged)).imp fun apart same => apart (congrArg (·.2.id) same)

theorem agedGiveUp (aged : rows.Aged queue archive) (limits : ArchiveLimits) (now : Moment) :
    (rows.giveUp queue (dropped limits now archive)).Aged queue (archive.drop (surplus limits now archive)) := by
  unfold dropped
  generalize surplus limits now archive = n
  have whole := List.take_append_drop n archive
  have ids := agedDistinct aged
  rw [← whole, List.map_append, List.nodup_append] at ids
  have given (id : Uuid) : (⟨archiveTable queue, id.key⟩ : RowId) ∈
      ((archive.take n).map (·.2)).map (fun r => ⟨archiveTable queue, r.id.key⟩) ↔ ∃ e ∈ archive.take n, e.2.id = id := by
    simp only [List.mem_map, RowId.mk.injEq, true_and, exists_exists_and_eq_and]
    exact exists_congr fun e => and_congr_right fun _ => ⟨Uuid.keyInjective, congrArg Uuid.key⟩
  constructor
  case sorted => exact aged.sorted.sublist (List.drop_sublist n archive)
  case listed =>
    intro date r
    rw [record?, giveUpAt]
    split
    next gone =>
      obtain ⟨e, front, same⟩ := (given r.id).mp gone
      simp only [Option.bind_none, reduceCtorEq, false_and, iff_false]
      exact fun back => ids.2.2 _ (List.mem_map_of_mem front) _ (List.mem_map_of_mem back) same
    next kept =>
      rw [← record?, ← aged.listed]
      refine ⟨List.mem_of_mem_drop, fun mem => ?_⟩
      rw [← whole] at mem
      exact (List.mem_append.mp mem).resolve_left fun front => kept ((given r.id).mpr ⟨_, front, rfl⟩)

theorem inArchiveShelve (mine : x.queue = queue) (fresh : rows ⟨archiveTable queue, x.id.key⟩ = none)
    (e : Moment × TaskRecord) : (rows.shelve now error x).InArchive queue e ↔
      e = (now, shelved now error x) ∨ rows.InArchive queue e := by
  subst mine
  obtain ⟨date, r⟩ := e
  by_cases same : r.id = x.id
  · have here : (rows.shelve now error x).record? (archiveTable x.queue) r.id = some (shelved now error x) := by
      rw [same]
      exact recordOf (setSelf _ _ _)
    have free : rows.record? (archiveTable x.queue) r.id = none := by
      rw [same]
      exact recordMissing fresh
    simp only [InArchive, here, free, reduceCtorEq, false_and, or_false, Option.some.injEq, Prod.mk.injEq]
    constructor
    · rintro ⟨rfl, state⟩
      exact ⟨(TaskState.archived.inj state).symm, rfl⟩
    · rintro ⟨rfl, rfl⟩
      exact ⟨rfl, rfl⟩
  · have other : (⟨archiveTable x.queue, r.id.key⟩ : RowId) ≠ archiveRow x := fun row =>
      same (Uuid.keyInjective (congrArg RowId.key row))
    have apart : (⟨archiveTable x.queue, r.id.key⟩ : RowId) ≠ queueRow x := fun row =>
      queueApart _ _ (congrArg RowId.table row).symm
    rw [InArchive, record?, shelve, setOther _ _ other, setOther _ _ apart]
    refine ⟨.inr, fun there => there.resolve_left ?_⟩
    rintro ⟨rfl, rfl⟩
    exact same rfl

theorem shelveFresh (now : Moment) (error : String) (mine : x.queue = queue) (alone : x.id ∉ lost.map (·.id))
    (fresh : ∀ r ∈ lost, rows ⟨archiveTable queue, r.id.key⟩ = none) (gone : List TaskRecord) :
    ∀ r ∈ lost, (rows.shelve now error x).giveUp queue gone ⟨archiveTable queue, r.id.key⟩ = none := by
  intro r mem
  have apart : r.id.key ≠ x.id.key := fun same => alone (List.mem_map.mpr ⟨r, mem, Uuid.keyInjective same⟩)
  have there := shelveArchive rows now error mine gone r.id.key
  rwa [if_neg apart, fresh r mem, or_self] at there

theorem shelvesTrimmed {came : Moment × TaskRecord → Prop}
    (shelves : Shelves limits queue now error lost before after) (mine : ∀ r ∈ lost, r.queue = queue)
    (distinct : (lost.map (·.id)).Nodup) (fresh : ∀ r ∈ lost, before ⟨archiveTable queue, r.id.key⟩ = none)
    (aged : before.Aged queue kept) (trimmed : Trimmed limits now came kept) :
    ∃ left, after.Aged queue left ∧
      Trimmed limits now (fun e => came e ∨ ∃ r ∈ lost, e = (now, shelved now error r)) left := by
  induction shelves generalizing came kept with
  | nil => exact ⟨kept, aged, trimmedSame trimmed (by simp)⟩
  | @cons before x rest archive after joined later ih =>
    have own := mine x List.mem_cons_self
    have free := fresh x List.mem_cons_self
    obtain ⟨alone, distinct⟩ := List.nodup_cons.mp distinct
    have members (e : Moment × TaskRecord) : e ∈ archive ↔ e = (now, shelved now error x) ∨ e ∈ kept := by
      rw [agedIff joined, inArchiveShelve own free, ← agedIff aged]
    have new : (now, shelved now error x) ∉ kept := by
      intro mem
      obtain ⟨stored, -⟩ := (agedIff aged _).mp mem
      have missing : before.record? (archiveTable queue) x.id = none := recordMissing free
      cases stored.symm.trans missing
    have perm : archive.Perm ((now, shelved now error x) :: kept) :=
      (List.perm_ext_iff_of_nodup (agedOnce joined) (List.nodup_cons.mpr ⟨new, agedOnce aged⟩)).mpr fun e => by
        rw [members, List.mem_cons]
    have more := trimmedMore trimmed (agedDates joined) (agedOnce joined) perm.length_eq members fun _ => .rfl
    have still := shelveFresh now error own alone
      (fun r mem => fresh r (List.mem_cons_of_mem x mem)) (dropped limits now archive)
    obtain ⟨left, last, cut⟩ := ih (fun r mem => mine r (List.mem_cons_of_mem x mem)) distinct still
      (agedGiveUp joined limits now) more
    refine ⟨left, last, trimmedSame cut fun e => ?_⟩
    simp only [List.mem_cons, exists_eq_or_imp]
    rw [or_left_comm, or_assoc]

theorem shelvesCut (shelves : Shelves limits queue now error lost before after) (ended : lost ≠ [])
    (mine : ∀ r ∈ lost, r.queue = queue) (distinct : (lost.map (·.id)).Nodup)
    (fresh : ∀ r ∈ lost, before ⟨archiveTable queue, r.id.key⟩ = none) :
    ∃ left, after.Aged queue left ∧
      Trimmed limits now (fun e => before.InArchive queue e ∨ ∃ r ∈ lost, e = (now, shelved now error r)) left := by
  cases shelves with
  | nil => exact absurd rfl ended
  | @cons _ x rest archive _ joined later =>
    have own := mine x List.mem_cons_self
    obtain ⟨alone, distinct⟩ := List.nodup_cons.mp distinct
    have still := shelveFresh now error own alone
      (fun r mem => fresh r (List.mem_cons_of_mem x mem)) (dropped limits now archive)
    obtain ⟨left, last, cut⟩ := shelvesTrimmed later (fun r mem => mine r (List.mem_cons_of_mem x mem)) distinct still
      (agedGiveUp joined limits now) (trimmedOnce (agedDates joined))
    refine ⟨left, last, trimmedSame cut fun e => ?_⟩
    rw [agedIff joined, inArchiveShelve own (fresh x List.mem_cons_self)]
    simp only [List.mem_cons, exists_eq_or_imp]
    rw [or_left_comm, or_assoc]

end Rows
end Teller
