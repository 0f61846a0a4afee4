import Teller.Proofs.Deadlines
import Teller.Proofs.Fairness

/-! A worker that asks for a task gets one whenever some queue has one to hand out. The poll goes through every
queue that has a weight; a queue that has nothing loses at most tasks whose last lease ran out, and none of the
queues behind it can tell. -/
namespace Teller
open Broker

namespace Scheduler
variable {s : Scheduler} {weights : List (String × UInt32)} {name : String}

theorem namesKinds (s : Scheduler) : s.queues.map (·.name) = (s.queues.map kind).map (·.1) := by
  rw [List.map_map]
  rfl

theorem pollOrderNames (s : Scheduler) (name : String) : name ∈ s.pollOrder.1 ↔ name ∈ s.queues.map (·.name) := by
  have kinds : s.next.2.queues.map (·.name) = s.queues.map (·.name) := by rw [namesKinds, kindsNext, ← namesKinds]
  have picked := pickedName s
  unfold pollOrder
  split
  next later asked =>
    have empty : s.queues = [] := by
      by_contra present
      obtain ⟨q, there, -⟩ := placeRichest present
      rw [asked, there] at picked
      cases picked
    simp [empty]
  next first later asked =>
    rw [asked] at kinds picked
    obtain ⟨q, there, named⟩ := Option.map_eq_some_iff.mp picked.symm
    have own : first ∈ s.queues.map (·.name) := List.mem_map.mpr ⟨q, List.mem_of_getElem? there, named⟩
    rw [← kinds] at own ⊢
    simp only [List.mem_cons, List.mem_map, List.mem_mergeSort, List.mem_filter, decide_eq_true_eq]
    constructor
    · rintro (rfl | ⟨q, ⟨mem, -⟩, same⟩)
      · exact List.mem_map.mp own
      · exact ⟨q, mem, same⟩
    · rintro ⟨q, mem, rfl⟩
      by_cases same : q.name = first
      · exact .inl same
      · exact .inr ⟨q, ⟨mem, same⟩, rfl⟩

theorem pollOrderWeighted (weights : List (String × UInt32)) (earlier : List Ask) (name : String) :
    name ∈ (earlier.foldl after (ofWeights weights)).pollOrder.1 ↔ ∃ weight, (name, weight) ∈ weights ∧ 0 < weight := by
  rw [pollOrderNames, namesKinds, kindsAfter, kindsOfWeights, kept]
  simp only [List.mem_map, List.mem_filter, decide_eq_true_eq]
  constructor
  · rintro ⟨_, ⟨e, ⟨mem, heavy⟩, rfl⟩, rfl⟩
    exact ⟨e.2, mem, heavy⟩
  · rintro ⟨weight, mem, heavy⟩
    exact ⟨_, ⟨_, ⟨mem, heavy⟩, rfl⟩, rfl⟩

end Scheduler

namespace Bank
variable {queue : String} {now : Moment} {duration : Span} {b c : Bank}

theorem waitsKept {rows rows' : Rows} (same : ∀ key, rows' ⟨queueTable queue, key⟩ = rows ⟨queueTable queue, key⟩) :
    Waits rows' queue now ↔ Waits rows queue now := by
  simp only [Waits, Rows.record?, same]

def Gives (rows : Rows) (queue : String) (now : Moment) (rows' : Rows) (t : LeasedTask) : Prop :=
  ∃ p date leaseId expiresAt, rows.record? (queueTable queue) p.id = some p ∧ p.readyAt = some date ∧ date ≤ now ∧
    Deliverable p ∧ p.queue = queue ∧ t = handOut leaseId expiresAt p ∧
    rows' (queueRow p) = some (Json.encode TaskRecord.codec t.record)

def Aside (queue : String) (rows rows' : Rows) : Prop :=
  ∀ row, row.table ≠ queueTable queue → row.table ≠ archiveTable queue → rows' row = rows row

structure Polled (queue : String) (now : Moment) (b c : Bank) (found : Option LeasedTask) : Prop where
  given : ∀ t ∈ found, Gives b.queues.state.value? queue now c.queues.state.value? t
  waits : found = none ↔ ¬ Waits b.queues.state.value? queue now
  idle : found = none → ¬ Waits c.queues.state.value? queue now
  beside : Aside queue b.queues.state.value? c.queues.state.value?
  polls : c.polls = b.polls + 1

section
variable {limits : ArchiveLimits} {before after : Rows} {lost : List TaskRecord} {task : Option LeasedTask}

theorem asideServed (serves : Serves limits queue now before after lost task) (mine : ∀ r ∈ lost, r.queue = queue)
    (own : ∀ t ∈ task, t.record.queue = queue) : Aside queue before after := by
  intro row away apart
  refine serves.kept row apart (fun r mem => ?_) fun t mem => ?_
  · rintro rfl
    exact away (congrArg queueTable (mine r mem))
  · rintro rfl
    exact away (congrArg queueTable (own t mem))

theorem waitsServed (serves : Serves limits queue now before after lost none) (waits : Waits after queue now) :
    Waits before queue now := by
  obtain ⟨p, date, stored, ready, due, deliverable⟩ := waits
  by_cases gone : ∃ r ∈ lost, (⟨queueTable queue, p.id.key⟩ : RowId) = queueRow r
  · obtain ⟨r, mem, row⟩ := gone
    rw [Rows.recordMissing (row ▸ serves.gone r mem)] at stored
    cases stored
  · have same := serves.kept ⟨queueTable queue, p.id.key⟩ (queueApart _ _) (fun r mem row => gone ⟨r, mem, row⟩)
      fun t mem => by cases mem
    rw [Rows.record?, same] at stored
    exact ⟨p, date, stored, ready, due, deliverable⟩

end

theorem leasePolled {found : Option LeasedTask} (belong : Rows.Belong b.queues.state.value? queue)
    (leased : lease queue now duration b = (.ok found, c)) : Polled queue now b c found := by
  unfold lease ask at leased
  split at leased
  · cases leased
  obtain ⟨lost, rest, own, first, shelves, came⟩ := aloneLease b.plan.archive now duration b.supply belong
  obtain ⟨⟨queues, left, -⟩, closes⟩ :=
    brokerRunCloses (Broker.lease b.plan.archive queue now duration) { b with polls := b.polls + 1 }
  rw [leased] at left closes
  subst left
  obtain ⟨done, rows⟩ := closesKept closes
  rw [came] at done rows
  have kept := servesNone belong first shelves
  have mine (r : TaskRecord) (mem : r ∈ lost ++ rest) : r.queue = queue :=
    Rows.recordQueue belong.queued ((first.due.listed r).mp mem).1
  have lostMine (r : TaskRecord) (mem : r ∈ lost) : r.queue = queue := mine r (List.mem_append_left rest mem)
  have waits : Waits b.queues.state.value? queue now ↔ rest ≠ [] := waitsIff first
  cases rest with
  | nil =>
    cases done
    have still : ¬ Waits b.queues.state.value? queue now := fun due => waits.mp due rfl
    have left : queues.state.value? = b.queues.state.amended own := rows
    rw [← left] at kept
    constructor
    case given => exact fun t mem => by cases mem
    case waits => simp [still]
    case idle => exact fun _ due => still (waitsServed kept due)
    case beside => exact asideServed kept lostMine fun t mem => by cases mem
    case polls => rfl
  | cons p rest =>
    cases fits : now.add? duration with
    | none =>
      rw [fits] at done
      cases done
    | some expiresAt =>
      rw [fits] at done rows
      cases done
      have serves := servesHandOut first kept b.supply.id.1 expiresAt
      have left : queues.state.value? = b.queues.state.amended _ := rows
      rw [← State.amendedInsert, ← left] at serves
      have row := handOutRow b.supply.id.1 expiresAt p
      constructor
      case given =>
        rintro t ⟨⟩
        obtain ⟨stored, date, ready, due⟩ := (first.due.listed p).mp (by simp)
        exact ⟨p, date, _, expiresAt, stored, ready, due, first.next p rfl, mine p (by simp), rfl,
          row ▸ serves.handed _ rfl⟩
      case waits => simp [waits]
      case idle =>
        intro nothing
        cases nothing
      case beside =>
        refine asideServed serves lostMine ?_
        rintro t ⟨⟩
        exact (queueTableInjective (congrArg RowId.table row)).trans (mine p (by simp))
      case polls => rfl

/-! ### One queue after the other -/

def Untouched (asked : List String) (rows rows' : Rows) : Prop := ∀ queue, queue ∉ asked →
  ∀ key, rows' ⟨queueTable queue, key⟩ = rows ⟨queueTable queue, key⟩ ∧
    rows' ⟨archiveTable queue, key⟩ = rows ⟨archiveTable queue, key⟩

theorem besideUntouched {asked : List String} {rows rows' rows'' : Rows} (first : Aside queue rows rows')
    (later : Untouched asked rows' rows'') : Untouched (queue :: asked) rows rows'' := by
  intro place others key
  obtain ⟨other, rest⟩ := not_or.mp fun mem => others (List.mem_cons.mpr mem)
  obtain ⟨queued, archived⟩ := later place rest key
  rw [queued, archived]
  constructor
  · exact first _ (fun same => other (queueTableInjective same)) (queueApart _ _)
  · exact first _ (fun same => queueApart _ _ same.symm) (fun same => other (archiveTableInjective same))

theorem waitsBeside {rows rows' : Rows} {place : String} (beside : Aside queue rows rows') (other : place ≠ queue) :
    Waits rows' place now ↔ Waits rows place now :=
  waitsKept fun _ => beside _ (fun same => other (queueTableInjective same)) (queueApart _ _)

inductive Finds (now : Moment) (queues : List String) (b c : Bank) : Option LeasedTask → Prop where
  | nothing (idle : ∀ queue ∈ queues, ¬ Waits b.queues.state.value? queue now)
      (untouched : Untouched queues b.queues.state.value? c.queues.state.value?)
      (polls : c.polls = b.polls + queues.length) : Finds now queues b c none
  | task {t queue later} (earlier) (order : queues = earlier ++ queue :: later)
      (idle : ∀ queue ∈ earlier, ¬ Waits b.queues.state.value? queue now)
      (waits : Waits b.queues.state.value? queue now)
      (given : Gives b.queues.state.value? queue now c.queues.state.value? t)
      (untouched : Untouched (earlier ++ [queue]) b.queues.state.value? c.queues.state.value?)
      (polls : c.polls = b.polls + earlier.length + 1) : Finds now queues b c (some t)

theorem findsBehind {mid : Bank} {queues : List String} {found : Option LeasedTask} (first : Polled queue now b mid none)
    (later : Finds now queues mid c found) : Finds now (queue :: queues) b c found := by
  have still : ¬ Waits b.queues.state.value? queue now := first.waits.mp rfl
  have same (place : String) : Waits mid.queues.state.value? place now ↔ Waits b.queues.state.value? place now := by
    by_cases here : place = queue
    · subst here
      exact iff_of_false (first.idle rfl) still
    · exact waitsBeside first.beside here
  have polls := first.polls
  cases later with
  | nothing idle untouched count =>
    refine .nothing (fun place mem => ?_) (besideUntouched first.beside untouched) ?_
    · cases mem with
      | head => exact still
      | tail _ mem => exact fun waits => idle place mem ((same place).mpr waits)
    · rw [count, polls, List.length_cons]
      omega
  | @task t place later earlier order idle waits given untouched count =>
    subst order
    refine .task (queue :: earlier) rfl (fun place mem => ?_) ((same _).mp waits) ?_
      (besideUntouched first.beside untouched) ?_
    · cases mem with
      | head => exact still
      | tail _ mem => exact fun waits => idle place mem ((same place).mpr waits)
    · obtain ⟨p, date, leaseId, expiresAt, stored, rest⟩ := given
      have other : place ≠ queue := fun here => first.idle rfl (here ▸ waits)
      have row := first.beside ⟨queueTable place, p.id.key⟩ (fun same => other (queueTableInjective same)) (queueApart _ _)
      rw [Rows.record?, row] at stored
      exact ⟨p, date, leaseId, expiresAt, stored, rest⟩
    · rw [count, polls, List.length_cons]
      omega

theorem leaseFromFinds (now : Moment) (queues : List String) (belong : ∀ queue, Rows.Belong b.queues.state.value? queue)
    (answered : ∀ earlier queue later c, queues = earlier ++ queue :: later → leaseFrom now earlier b = (.ok none, c) →
      ∃ found left, lease queue now c.plan.worker.lease c = (.ok found, left)) :
    ∃ found c, leaseFrom now queues b = (.ok found, c) ∧ Finds now queues b c found := by
  induction queues generalizing b with
  | nil => exact ⟨none, b, rfl, .nothing nofun (fun _ _ _ => ⟨rfl, rfl⟩) rfl⟩
  | cons queue rest ih =>
    obtain ⟨found, mid, leased⟩ := answered [] queue rest b rfl rfl
    have polled := leasePolled (belong queue) leased
    cases found with
    | none =>
      have step (queues : List String) : leaseFrom now (queue :: queues) b = leaseFrom now queues mid := by
        rw [leaseFrom, leased]
      obtain ⟨found, c, done, finds⟩ := ih (leaseBelongs belong leased).1 fun earlier place later c order before =>
        answered (queue :: earlier) place later c (by rw [order]; rfl) ((step earlier).trans before)
      exact ⟨found, c, (step rest).trans done, findsBehind polled finds⟩
    | some t =>
      have waits : Waits b.queues.state.value? queue now :=
        Classical.byContradiction fun still => by cases polled.waits.mpr still
      refine ⟨some t, mid, by rw [leaseFrom, leased], .task [] rfl nofun waits (polled.given t rfl) ?_ polled.polls⟩
      exact besideUntouched polled.beside fun _ _ _ => ⟨rfl, rfl⟩

theorem leaseNextFinds {weights : List (String × UInt32)} {earlier : List Scheduler.Ask}
    (reached : b.scheduler = earlier.foldl Scheduler.after (.ofWeights weights))
    (belong : ∀ queue, Rows.Belong b.queues.state.value? queue)
    (answered : ∀ queue c, b.ComesTo queue c →
      ∃ found left, lease queue b.now c.plan.worker.lease c = (.ok found, left)) :
    ∃ found c, leaseNext b = (.ok found, c) ∧
      (found = none ↔ ∀ queue weight, (queue, weight) ∈ weights → 0 < weight →
        ¬ Waits b.queues.state.value? queue b.now) ∧
      ∀ t ∈ found, ∃ before queue behind, b.scheduler.pollOrder.1 = before ++ queue :: behind ∧
        (∀ q ∈ before, ¬ Waits b.queues.state.value? q b.now) ∧ Waits b.queues.state.value? queue b.now ∧
        Gives b.queues.state.value? queue b.now c.queues.state.value? t ∧ c.polls = b.polls + before.length + 1 ∧
        Untouched (before ++ [queue]) b.queues.state.value? c.queues.state.value? := by
  obtain ⟨found, c, done, finds⟩ := leaseFromFinds b.now b.scheduler.pollOrder.1
    (b := { b with scheduler := b.scheduler.pollOrder.2 }) belong fun before queue behind c order asked =>
      answered queue c ⟨before, behind, order, asked⟩
  have weighted (queue : String) : queue ∈ b.scheduler.pollOrder.1 ↔ ∃ weight, (queue, weight) ∈ weights ∧ 0 < weight := by
    rw [reached]
    exact Scheduler.pollOrderWeighted weights earlier queue
  refine ⟨found, c, done, ?_⟩
  cases finds with
  | nothing idle untouched polls =>
    refine ⟨⟨fun _ queue weight mem heavy => ?_, fun _ => rfl⟩, fun t mem => by cases mem⟩
    exact idle queue ((weighted queue).mpr ⟨weight, mem, heavy⟩)
  | @task t queue behind before order idle waits given untouched polls =>
    refine ⟨⟨(by intro nothing; cases nothing), fun never => ?_⟩, ?_⟩
    · obtain ⟨weight, mem, heavy⟩ := (weighted queue).mp (by rw [order]; simp)
      exact absurd waits (never queue weight mem heavy)
    · rintro t ⟨⟩
      exact ⟨before, queue, behind, order, idle, waits, given, polls, untouched⟩

theorem leaseAnswers (belong : Rows.Belong b.queues.state.value? queue) (up : .lease ∉ b.outage)
    (fits : now.add? duration ≠ none) (memory : b.queues.log = none) :
    ∃ found left, lease queue now duration b = (.ok found, left) := by
  obtain ⟨lost, rest, own, -, -, came⟩ := aloneLease b.plan.archive now duration b.supply belong
  obtain ⟨-, closes⟩ :=
    brokerRunCloses (Broker.lease b.plan.archive queue now duration) { b with polls := b.polls + 1 }
  have result := closesTaken closes (.inl memory)
  rw [came] at result
  unfold lease ask
  rw [if_neg (by simpa using up)]
  cases rest with
  | nil => exact ⟨none, _, Prod.ext result rfl⟩
  | cons p rest =>
    obtain ⟨expiresAt, ends⟩ := Option.ne_none_iff_exists'.mp fits
    rw [ends] at result
    exact ⟨_, _, Prod.ext result rfl⟩

def counter : Bank :=
  { mailbox with scheduler := .ofWeights [("idle", 2), ("mail", 1), ("spare", 0)], clock := ⟨2000⟩ }

theorem counterWaits : Waits counter.queues.state.value? "mail" counter.now ∧
    ¬ Waits counter.queues.state.value? "idle" counter.now := by
  constructor
  · obtain ⟨stored, date, ready, due⟩ := (mailboxDue.listed waiting).mp (by simp)
    exact ⟨waiting, date, stored, ready, due, .inl rfl⟩
  · rintro ⟨p, date, stored, -⟩
    obtain ⟨value, held, -⟩ := Rows.recordIff.mp stored
    have free : counter.queues.state.value? ⟨queueTable "idle", p.id.key⟩ = none := by
      have apart (r : TaskRecord) (mine : r.queue = "mail") : (⟨queueTable "idle", p.id.key⟩ : RowId) ≠ queueRow r := by
        intro same
        have queue := queueTableInjective (congrArg RowId.table same)
        rw [mine] at queue
        revert queue
        decide
      rw [show counter.queues = mailbox.queues from rfl, mailboxRow, if_neg (apart waiting rfl), if_neg (apart spent rfl)]
    rw [free] at held
    cases held

theorem leaseNextPassesIdleQueue :
    (∀ queue, Rows.Belong counter.queues.state.value? queue) ∧
      (∀ queue c, counter.ComesTo queue c →
        ∃ found left, lease queue counter.now c.plan.worker.lease c = (.ok found, left)) ∧
      ∃ t c, leaseNext counter = (.ok (some t), c) ∧
        Gives counter.queues.state.value? "mail" counter.now c.queues.state.value? t ∧ c.polls = 2 := by
  have belong : ∀ queue, Rows.Belong counter.queues.state.value? queue := mailboxBelongs
  have order : counter.scheduler.pollOrder.1 = ["idle", "mail"] := by decide +kernel
  have places {before behind : List String} {queue : String} (split : ["idle", "mail"] = before ++ queue :: behind) :
      before = [] ∧ queue = "idle" ∨ before = ["idle"] ∧ queue = "mail" := by
    rcases List.cons_eq_append_iff.mp split with ⟨rfl, rest⟩ | ⟨more, rfl, rest⟩
    · exact .inl ⟨rfl, (List.cons.inj rest).1⟩
    · rcases List.singleton_eq_append_iff.mp rest with ⟨rfl, rest⟩ | ⟨-, rest⟩
      · exact .inr ⟨rfl, (List.cons.inj rest).1.symm⟩
      · cases rest
  have answered : ∀ queue c, counter.ComesTo queue c →
      ∃ found left, lease queue counter.now c.plan.worker.lease c = (.ok found, left) := by
    rintro queue c ⟨before, behind, split, came⟩
    rw [order] at split
    obtain ⟨left, plan, outage⟩ := leaseFromBelongs (b := { counter with scheduler := counter.scheduler.pollOrder.2 }) belong came
    refine leaseAnswers (left queue) (by rw [outage]; decide) (by rw [plan]; decide) ?_
    rcases places split with ⟨rfl, rfl⟩ | ⟨rfl, rfl⟩
    · cases came
      rfl
    · obtain rfl : _ = c := congrArg Prod.snd came
      decide +kernel
  obtain ⟨waits, idle⟩ := counterWaits
  have fresh : counter.scheduler = [].foldl Scheduler.after (.ofWeights [("idle", 2), ("mail", 1), ("spare", 0)]) := rfl
  obtain ⟨found, c, done, nothing, given⟩ := leaseNextFinds fresh belong answered
  cases found with
  | none => exact absurd waits (nothing.mp rfl "mail" 1 (by simp) (by decide))
  | some t =>
    obtain ⟨before, queue, behind, split, -, due, gives, polls, -⟩ := given t rfl
    rw [order] at split
    rcases places split with ⟨rfl, rfl⟩ | ⟨rfl, rfl⟩
    · exact absurd due idle
    · exact ⟨belong, answered, t, c, done, gives, polls⟩

end Bank
end Teller
