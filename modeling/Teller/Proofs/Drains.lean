import Mathlib.Data.List.Sort
import Teller.Proofs.Outbox
import Teller.Proofs.QueueTables
import Teller.Proofs.RelayTargets

/-! One drain of the outbox. The entries that are due are offered to the broker once each, those staged first first,
and just those that it takes are deleted; a refusal stops nothing and loses nothing, so that the next drain finds the
entries that were refused and no others. One thing stops a drain, a task whose delay cannot be reckoned: the
entries behind it are not offered at all, and it stays where it is. -/
namespace Teller
open Query (outbox outboxRow)

namespace OutboxEntry

def Before (a b : OutboxEntry) : Prop :=
  a.createdAt < b.createdAt ∨ a.createdAt = b.createdAt ∧ compare a.id.key b.id.key = .lt

theorem beforeIff {a b : OutboxEntry} : a.Before b ↔ a.createdAt.ms < b.createdAt.ms ∨
    a.createdAt.ms = b.createdAt.ms ∧ compare a.id.key b.id.key = .lt := by
  rw [Before, Rows.momentEq]
  rfl

instance (a b : OutboxEntry) : Decidable (a.Before b) := inferInstanceAs (Decidable (_ ∨ _))

instance : Std.Irrefl Before where
  irrefl a h := by
    rcases beforeIff.mp h with less | ⟨_, less⟩
    · exact Int.lt_irrefl _ less
    · have same : compare a.id.key a.id.key = .eq := Std.ReflCmp.compare_self
      cases less.symm.trans same

instance : Std.Antisymm Before where
  antisymm a b h h' := by
    exfalso
    rcases beforeIff.mp h with less | ⟨same, less⟩ <;> rcases beforeIff.mp h' with less' | ⟨same', less'⟩
    · omega
    · omega
    · omega
    · cases less.symm.trans (Std.OrientedCmp.gt_of_lt less')

end OutboxEntry

namespace Rows
variable {rows : Rows} {cutoff : Moment} {due taken left : List OutboxEntry} {e : OutboxEntry}

def Stages (rows : Rows) (e : OutboxEntry) : Prop :=
  ∃ value, rows (outboxRow e.id) = some value ∧ Query.decoded OutboxEntry.codec value = .ok e

def Legible (rows : Rows) : Prop := ∀ key value, rows ⟨outbox, key⟩ = some value →
  ∃ e : OutboxEntry, Query.decoded OutboxEntry.codec value = .ok e ∧ e.id.key = key

structure DueBy (rows : Rows) (cutoff : Moment) (due : List OutboxEntry) : Prop where
  sorted : due.Pairwise OutboxEntry.Before
  listed : ∀ e, e ∈ due ↔ rows.Stages e ∧ e.createdAt ≤ cutoff

theorem dueOnly {other : List OutboxEntry} (h : rows.DueBy cutoff due) (h' : rows.DueBy cutoff other) : other = due :=
  h'.sorted.eq_of_mem_iff h.sorted fun e => (h'.listed e).trans (h.listed e).symm

theorem stagedOnly {x : OutboxEntry} (h : rows.Stages e) (h' : rows.Stages x) (same : x.id = e.id) : x = e := by
  obtain ⟨value, here, read⟩ := h
  obtain ⟨value', here', read'⟩ := h'
  rw [same, here] at here'
  cases here'
  exact Except.ok.inj (read'.symm.trans read)

def without (rows : Rows) (gone : List OutboxEntry) : Rows :=
  fun r => if r ∈ gone.map (outboxRow ·.id) then none else rows r

theorem withoutNone (rows : Rows) : rows.without [] = rows := by
  funext r
  exact if_neg List.not_mem_nil

theorem withoutFirst (rows : Rows) (e : OutboxEntry) (gone : List OutboxEntry) :
    (rows.set (outboxRow e.id) none).without gone = rows.without (e :: gone) := by
  funext r
  simp only [without, set, List.map_cons, List.mem_cons]
  split
  · rename_i later
    rw [if_pos (.inr later)]
  · rename_i other
    simp only [other, or_false]

theorem withoutLeaves {r : RowId} {value : Bytes} (there : rows.without due r = some value) :
    rows r = some value ∧ ∀ e ∈ due, r ≠ outboxRow e.id := by
  unfold without at there
  split at there
  · cases there
  · rename_i apart
    exact ⟨there, fun e mem same => apart (List.mem_map.mpr ⟨e, mem, same.symm⟩)⟩

theorem legibleWithout (h : rows.Legible) (gone : List OutboxEntry) : (rows.without gone).Legible :=
  fun key value there => h key value (withoutLeaves there).1

theorem legibleHeld {s : State} {entries : List OutboxEntry} (h : s.Holds entries) : Legible s.value? := by
  intro key value there
  obtain ⟨e, -, row, rfl⟩ := h ⟨outbox, key⟩ value rfl there
  exact ⟨e, e.decodedOwn, (congrArg RowId.key row).symm⟩

theorem stagesWithout : (rows.without due).Stages e ↔ rows.Stages e ∧ ∀ x ∈ due, x.id ≠ e.id := by
  constructor
  · rintro ⟨value, there, read⟩
    obtain ⟨there, apart⟩ := withoutLeaves there
    exact ⟨⟨value, there, read⟩, fun x mem same => apart x mem (congrArg outboxRow same.symm)⟩
  · rintro ⟨⟨value, there, read⟩, apart⟩
    refine ⟨value, ?_, read⟩
    rw [without, if_neg, there]
    intro mem
    obtain ⟨x, mem, same⟩ := List.mem_map.mp mem
    exact apart x mem (Query.outboxRowInjective same)

end Rows

inductive Offered (now : Moment) : List OutboxEntry → List (TaskRecord × Bool) → (taken left : List OutboxEntry) → Prop
  | nil : Offered now [] [] [] []
  | taken {e r rest told taken left} (asked : TaskRecord.pending e.task now = .ok r)
      (later : Offered now rest told taken left) : Offered now (e :: rest) ((r, true) :: told) (e :: taken) left
  | refused {e r rest told taken left} (asked : TaskRecord.pending e.task now = .ok r)
      (later : Offered now rest told taken left) : Offered now (e :: rest) ((r, false) :: told) taken (e :: left)

namespace Offered
variable {now : Moment} {due : List OutboxEntry} {told : List (TaskRecord × Bool)} {taken left : List OutboxEntry}

theorem leftOf (h : Offered now due told taken left) : left.Sublist due := by
  induction h with
  | nil => exact .slnil
  | taken _ _ ih => exact ih.cons _
  | refused _ _ ih => exact ih.cons_cons _

theorem parts (h : Offered now due told taken left) : due.Perm (taken ++ left) := by
  induction h with
  | nil => exact .nil
  | taken _ _ ih => exact ih.cons _
  | refused _ _ ih => exact (ih.cons _).trans List.perm_middle.symm

theorem byId (takes : Uuid → Bool) (h : Offered now due told taken left) (judged : ∀ n ∈ told, n.2 = takes n.1.id) :
    taken = due.filter (takes ·.task.id) ∧ left = due.filter (!takes ·.task.id) := by
  induction h with
  | nil => exact ⟨rfl, rfl⟩
  | taken asked _ ih =>
    obtain ⟨takes, later⟩ := List.forall_mem_cons.mp judged
    obtain ⟨⟨id, -⟩, -⟩ := TaskRecord.pendingMade asked
    obtain ⟨rfl, rfl⟩ := ih later
    simp [← id, ← takes]
  | refused asked _ ih =>
    obtain ⟨takes, later⟩ := List.forall_mem_cons.mp judged
    obtain ⟨⟨id, -⟩, -⟩ := TaskRecord.pendingMade asked
    obtain ⟨rfl, rfl⟩ := ih later
    simp [← id, ← takes]

theorem proper (h : Offered now due told taken left) : ∀ e ∈ due, e.task.options.delay ≠ some .minValue := by
  have asked {e : OutboxEntry} {r : TaskRecord} (asked : TaskRecord.pending e.task now = .ok r) :
      e.task.options.delay ≠ some .minValue := by
    obtain ⟨-, -, -, resolved⟩ := TaskRecord.pendingMade asked
    exact fun least => TaskOptions.resolvedProper least resolved rfl
  induction h with
  | nil => exact List.forall_mem_nil _
  | taken first _ ih => exact List.forall_mem_cons.mpr ⟨asked first, ih⟩
  | refused first _ ih => exact List.forall_mem_cons.mpr ⟨asked first, ih⟩

end Offered

theorem Rows.dueLeft {rows : Rows} {cutoff now : Moment} {due taken left : List OutboxEntry}
    {told : List (TaskRecord × Bool)} (h : rows.DueBy cutoff due) (offered : Offered now due told taken left) :
    (rows.without taken).DueBy cutoff left := by
  have parts := offered.parts
  have apart : ∀ x ∈ taken, ∀ e ∈ left, x ≠ e := (List.nodup_append.mp (parts.nodup h.sorted.nodup)).2.2
  refine ⟨h.sorted.sublist offered.leftOf, fun e => ?_⟩
  rw [stagesWithout, and_right_comm, ← h.listed, parts.mem_iff, List.mem_append]
  constructor
  · intro mem
    refine ⟨.inr mem, fun x there same => apart x there e mem ?_⟩
    have staged (y : OutboxEntry) (mem : y ∈ taken ++ left) := ((h.listed y).mp (parts.mem_iff.mpr mem)).1
    exact stagedOnly (staged e (List.mem_append_right _ mem)) (staged x (List.mem_append_left _ there)) same
  · rintro ⟨mem | mem, others⟩
    · exact absurd rfl (others e mem)
    · exact mem

theorem TaskRecord.pendingBroken {task : NewTask} {now : Moment} {cause : Overflow}
    (broken : pending task now = .error cause) : cause = .delay ∧ task.options.delay = some .minValue := by
  rw [← TaskOptions.resolveBroken _ now]
  unfold pending at broken
  cases resolved : task.options.resolve now with
  | error e =>
    rw [resolved] at broken
    exact congrArg Except.error (Except.error.inj broken)
  | ok m =>
    rw [resolved] at broken
    cases broken

namespace Bank
variable {b : Bank}

theorem listAlone (room : b.HasRoom) (legible : Rows.Legible b.accounts.state.value?) :
    ∃ found runs supply accounts, runQuery Query.listOutbox b = (⟨.ok (found, []), runs⟩, { b with supply, accounts }) ∧
      accounts.state = b.accounts.state ∧ found.Pairwise OutboxEntry.Before ∧
      ∀ e, e ∈ found ↔ Rows.Stages b.accounts.state.value? e := by
  obtain ⟨perform, asks⟩ := queryAsks Query.listOutbox b
  obtain ⟨own, value, supply, accounts, ends, after, settles⟩ := stagedAlone perform Query.listOutbox room
  rw [← asks] at after settles
  rw [Query.listOutboxRun] at ends
  obtain ⟨rfl, rfl⟩ := Work.endsDone (Work.endsScan ends)
  obtain ⟨found, read, ascending, listed⟩ := Rows.readListed legible (State.memScan b.accounts.state ∅ outbox)
  have entries : Query.entriesOf _ = .ok found := read
  rw [entries] at settles
  obtain ⟨result, state⟩ := settlesRead settles
  have sorted : (found.mergeSort fun a b => a.createdAt ≤ b.createdAt).Pairwise fun a b =>
      decide (a.createdAt ≤ b.createdAt) ∧ (decide (b.createdAt ≤ a.createdAt) → compare a.id.key b.id.key = .lt) := by
    have iff (a b : OutboxEntry) : decide (a.createdAt ≤ b.createdAt) = true ↔ a.createdAt.ms ≤ b.createdAt.ms :=
      decide_eq_true_iff
    exact mergeSortStable (fun a b c => by simp only [iff]; omega)
      (fun a b => by rw [Bool.or_eq_true, iff, iff]; omega) ascending
  refine ⟨_, (runQuery Query.listOutbox b).1.runs, supply, accounts, ?_, state, sorted.imp fun {a b} ordered => ?_,
    fun e => ?_⟩
  · refine Prod.ext ?_ after
    exact congrArg (fun r => (⟨r, (runQuery Query.listOutbox b).1.runs⟩ : Unitwork _)) result
  · obtain ⟨le, tie⟩ := ordered
    have le : a.createdAt.ms ≤ b.createdAt.ms := of_decide_eq_true le
    rw [OutboxEntry.beforeIff]
    by_cases even : a.createdAt.ms = b.createdAt.ms
    · exact .inr ⟨even, tie (decide_eq_true (show b.createdAt.ms ≤ a.createdAt.ms by omega))⟩
    · exact .inl (by omega)
  · rw [List.mem_mergeSort]
    exact listed e

theorem handsOver {σ : Type} (t : RelayTarget σ) (entries : List OutboxEntry) (room : b.HasRoom) (count : Nat) (s : σ)
    (noted : List (TaskRecord × Bool)) :
    ∃ tried rest told taken left outcome after s', entries = tried ++ rest ∧ Offered b.now tried told taken left ∧
      handOver t.noting.offer RelayTarget.clear count entries (b, s, noted) = (outcome, after, s', noted ++ told) ∧
      b.Steady after ∧ after.accounts.state.value? = Rows.without b.accounts.state.value? taken ∧
      (rest = [] ∧ outcome = .ok (count + taken.length) ∨
        ∃ e later, rest = e :: later ∧ e.task.options.delay = some .minValue ∧ outcome = .error .delay) := by
  induction entries generalizing b count s noted with
  | nil => exact ⟨[], [], [], [], [], _, b, s, rfl, .nil, by simp [handOver], ⟨rfl, rfl, rfl⟩,
      (Rows.withoutNone _).symm, .inl ⟨rfl, rfl⟩⟩
  | cons e rest ih =>
    unfold handOver
    cases pending : TaskRecord.pending e.task b.now with
    | error cause =>
      obtain ⟨rfl, least⟩ := TaskRecord.pendingBroken pending
      have broken : t.noting.offer e.task (b, s, noted) = (.error (.overflow .delay), b, s, noted) := by
        simp only [RelayTarget.offer, pending]
      rw [broken]
      exact ⟨[], e :: rest, [], [], [], _, b, s, rfl, .nil, by rw [List.append_nil], ⟨rfl, rfl, rfl⟩,
        (Rows.withoutNone _).symm, .inr ⟨e, rest, rfl, least, rfl⟩⟩
    | ok r =>
      have apart := t.apart r (b, s)
      have answers := t.answers r (b, s)
      rcases answered : t.take r (b, s) with ⟨answer, c, s₁⟩
      rw [answered] at apart answers
      obtain ⟨same, steady⟩ := apart
      have told : t.noting.take r (b, s, noted) = (answer, c, s₁, noted ++ [(r, answer.isOk)]) := by
        simp only [RelayTarget.noting, answered]
      rw [t.noting.offerPending (x := (b, s, noted)) pending, told]
      rcases answer with (cause | cause) | _
      · obtain ⟨tried, later, told, taken, left, outcome, after, s', split, parts, ended, on, rows, ends⟩ :=
          ih (steadyRoom steady room) count s₁ (noted ++ [(r, false)])
        rw [steadyNow steady] at parts
        refine ⟨e :: tried, later, (r, false) :: told, taken, e :: left, outcome, after, s', by rw [split]; rfl,
          .refused pending parts, ?_, steadyTrans steady on, ?_, ends⟩
        · rw [List.append_assoc] at ended
          exact ended
        · rw [rows, same]
      · exact absurd rfl (answers cause)
      · obtain ⟨accounts, cleared, gone⟩ := clearAlone (steadyRoom steady room) e.id
        have onward : b.Steady { c with accounts } := ⟨steady.plan, steady.clock, steady.running⟩
        obtain ⟨tried, later, told, taken, left, outcome, after, s', split, parts, ended, on, rows, ends⟩ :=
          ih (steadyRoom onward room) (count + 1) s₁ (noted ++ [(r, true)])
        rw [steadyNow onward] at parts
        refine ⟨e :: tried, later, (r, true) :: told, e :: taken, left, outcome, after, s', by rw [split]; rfl,
          .taken pending parts, ?_, steadyTrans onward on, ?_, ?_⟩
        · simp only [RelayTarget.clear, cleared, Except.isOk, Except.toBool]
          rw [List.append_assoc] at ended
          exact ended
        · rw [rows, gone, same, Rows.withoutFirst]
        · rw [List.length_cons, Nat.add_comm taken.length, ← Nat.add_assoc]
          exact ends

end Bank

namespace RelayTarget
variable {σ : Type} {b : Bank} {grace : Span} {cutoff : Moment}

theorem drainJudged (t : RelayTarget σ) {judge : TaskRecord → Bool} (judges : ∀ r x, (t.take r x).1.isOk = judge r)
    (grace : Span) (b : Bank) (s : σ) : ∀ n ∈ (t.drain grace b s).2.2.2, n.2 = judge n.1 := by
  let fair (x : Bank × σ × List (TaskRecord × Bool)) : Prop := ∀ n ∈ x.2.2, n.2 = judge n.1
  have offers (task : NewTask) (x) (h : fair x) : fair (t.noting.offer task x).2 := by
    unfold offer
    cases TaskRecord.pending task x.1.now with
    | error cause => exact h
    | ok r =>
      intro n mem
      rcases List.mem_append.mp mem with earlier | last
      · exact h n earlier
      · rw [List.mem_singleton.mp last]
        exact judges r _
  have nothing : fair (b, s, []) := List.forall_mem_nil _
  unfold drain relay
  dsimp only
  split
  · exact nothing
  · split
    · exact nothing
    · exact Bank.handOverKeeps (I := fair) offers (fun _ _ h => h) 0 _ (List.forall_mem_nil _)

structure Drained (t : RelayTarget σ) (grace : Span) (b : Bank) (s : σ) (tried : List OutboxEntry)
    (told : List (TaskRecord × Bool)) (taken left : List OutboxEntry) (outcome : Except (Stop StoreError) Nat)
    (after : Bank) (s' : σ) : Prop where
  drain : t.drain grace b s = (outcome, after, s', told)
  offered : Offered b.now tried told taken left
  steady : b.Steady after
  rows : after.accounts.state.value? = Rows.without b.accounts.state.value? taken

theorem Drained.byId {t : RelayTarget σ} {s s' : σ} {tried taken left : List OutboxEntry}
    {told : List (TaskRecord × Bool)}
    {outcome : Except (Stop StoreError) Nat} {after : Bank} (takes : Uuid → Bool)
    (h : t.Drained grace b s tried told taken left outcome after s')
    (goes : ∀ r x, (t.take r x).1.isOk = takes r.id) :
    taken = tried.filter (takes ·.task.id) ∧ left = tried.filter (!takes ·.task.id) :=
  h.offered.byId takes fun n mem => t.drainJudged goes grace b s n (by rw [h.drain]; exact mem)

theorem drains (t : RelayTarget σ) (s : σ) (room : b.HasRoom) (cut : b.now.sub? grace = some cutoff)
    (legible : Rows.Legible b.accounts.state.value?) :
    ∃ due tried rest told taken left outcome after s', Rows.DueBy b.accounts.state.value? cutoff due ∧
      due = tried ++ rest ∧ t.Drained grace b s tried told taken left outcome after s' ∧
      (rest = [] ∧ outcome = .ok taken.length ∨ ∃ e later, rest = e :: later ∧
        e.task.options.delay = some .minValue ∧ outcome = .error (.overflow .delay)) := by
  obtain ⟨found, runs, supply, accounts, listing, state, sorted, listed⟩ := Bank.listAlone room legible
  let due := found.filter (·.createdAt ≤ cutoff)
  have listing' : b.Steady { b with supply, accounts } := ⟨rfl, rfl, rfl⟩
  obtain ⟨tried, rest, told, taken, left, outcome, after, s', split, parts, ended, on, rows, ends⟩ :=
    Bank.handsOver t due (Bank.steadyRoom listing' room) 0 s []
  rw [Bank.steadyNow listing'] at parts
  refine ⟨due, tried, rest, told, taken, left, outcome.mapError .overflow, after, s', ?_, split, ?_, ?_⟩
  · refine ⟨sorted.sublist List.filter_sublist, fun e => ?_⟩
    rw [List.mem_filter, listed, decide_eq_true_eq]
  · refine ⟨?_, parts, Bank.steadyTrans listing' on, by rw [rows, state]⟩
    simp only [drain, relay, cut, listing]
    rw [ended]
    rfl
  · rcases ends with ⟨clear, rfl⟩ | ⟨e, later, stops, least, rfl⟩
    · exact .inl ⟨clear, by rw [Nat.zero_add]; rfl⟩
    · exact .inr ⟨e, later, stops, least, rfl⟩

theorem drainsLeft {τ : Type} {t : RelayTarget σ} {s s' : σ} {after : Bank} {due taken left : List OutboxEntry}
    {told : List (TaskRecord × Bool)} {outcome : Except (Stop StoreError) Nat}
    (room : b.HasRoom) (cut : b.now.sub? grace = some cutoff) (legible : Rows.Legible b.accounts.state.value?)
    (is : Rows.DueBy b.accounts.state.value? cutoff due)
    (drained : t.Drained grace b s due told taken left outcome after s') (t' : RelayTarget τ) (s₁ : τ) :
    after.HasRoom ∧ after.now.sub? grace = some cutoff ∧ Rows.Legible after.accounts.state.value? ∧
      Rows.DueBy after.accounts.state.value? cutoff left ∧
      ∃ told' taken' left' next s₂,
        t'.Drained grace after s₁ left told' taken' left' (.ok taken'.length) next s₂ := by
  have room' := Bank.steadyRoom drained.steady room
  have cut' : after.now.sub? grace = some cutoff := by rw [Bank.steadyNow drained.steady, cut]
  have legible' : Rows.Legible after.accounts.state.value? := by
    rw [drained.rows]
    exact Rows.legibleWithout legible taken
  have due' : Rows.DueBy after.accounts.state.value? cutoff left := by
    rw [drained.rows]
    exact Rows.dueLeft is drained.offered
  obtain ⟨found, tried, rest, told', taken', left', outcome', next, s₂, listed, split, again, ends⟩ :=
    t'.drains s₁ room' cut' legible'
  obtain rfl := Rows.dueOnly due' listed
  refine ⟨room', cut', legible', due', told', taken', left', next, s₂, ?_⟩
  rcases ends with ⟨rfl, rfl⟩ | ⟨e, later, rfl, least, -⟩
  · rw [split, List.append_nil]
    exact again
  · have mem : e ∈ found := by rw [split]; simp
    exact absurd least (drained.offered.proper e (drained.offered.leftOf.subset mem))

/-- Whatever the broker, the entries that are due are offered to it once each and in their order, up to one whose delay
cannot be reckoned; those it takes are gone from the outbox and no other row has changed. If there is no such entry,
the relay returns how many were taken. The next drain, by a broker that takes everything, takes those that were left,
and one after that finds nothing. The bank's relay is all this with its own broker. -/
theorem relayDrains (t : RelayTarget σ) (s : σ) (room : b.HasRoom) (cut : b.now.sub? grace = some cutoff)
    (legible : Rows.Legible b.accounts.state.value?) :
    (∀ (grace : Span) (b : Bank), own.relay grace (b, ()) = ((b.relay grace).1, (b.relay grace).2, ())) ∧
    t.relay grace (b, s) = ((t.drain grace b s).1, (t.drain grace b s).2.1, (t.drain grace b s).2.2.1) ∧
    ∃ due, Rows.DueBy b.accounts.state.value? cutoff due ∧
      ((∃ tried e later told taken left after s', due = tried ++ e :: later ∧
          e.task.options.delay = some .minValue ∧
          t.Drained grace b s tried told taken left (.error (.overflow .delay)) after s') ∨
        ∃ told taken left after s', t.Drained grace b s due told taken left (.ok taken.length) after s' ∧
          ∀ (τ : Type) (t' : RelayTarget τ) (s₁ : τ), (∀ r x, (t'.take r x).1 = .ok ()) → ∃ told' cleared s₂,
            t'.Drained grace after s₁ left told' left [] (.ok left.length) cleared s₂ ∧
            ∀ (υ : Type) (t'' : RelayTarget υ) (s₃ : υ), ∃ again s₄,
              t''.Drained grace cleared s₃ [] [] [] [] (.ok 0) again s₄) := by
  refine ⟨relayOwn, t.drainRelay grace b s, ?_⟩
  obtain ⟨due, tried, rest, told, taken, left, outcome, after, s', is, split, drained, ends⟩ :=
    t.drains s room cut legible
  refine ⟨due, is, ?_⟩
  rcases ends with ⟨rfl, rfl⟩ | ⟨e, later, rfl, least, rfl⟩
  · rw [List.append_nil] at split
    subst split
    refine .inr ⟨told, taken, left, after, s', drained, fun τ t' s₁ accepts => ?_⟩
    obtain ⟨room', cut', legible', is', told', taken', left', cleared, s₂, second⟩ :=
      drainsLeft room cut legible is drained t' s₁
    obtain ⟨rfl, rfl⟩ := second.byId (fun _ => true) fun r x => by rw [accepts r x]; rfl
    simp only [Bool.not_true, List.filter_true, List.filter_false] at second
    refine ⟨told', cleared, s₂, second, fun υ t'' s₃ => ?_⟩
    obtain ⟨-, -, -, -, told'', taken'', left'', again, s₄, third⟩ :=
      drainsLeft room' cut' legible' is' second t'' s₃
    have nothing := third.offered
    cases nothing
    exact ⟨again, s₄, third⟩
  · exact .inl ⟨tried, e, later, told, taken, left, after, s', split, least, drained⟩

def picking (takes : Uuid → Bool) : RelayTarget Unit where
  take r x := (if takes r.id then .ok () else .error (.failed Bank.refused), x)
  answers r x cause := by
    dsimp only
    split <;> exact nofun
  apart r x := ⟨rfl, rfl, rfl, rfl⟩

theorem pickingGoes (takes : Uuid → Bool) (r : TaskRecord) (x : Bank × Unit) :
    ((picking takes).take r x).1.isOk = takes r.id := by
  show Except.isOk (if takes r.id then Except.ok () else .error (Stop.failed Bank.refused)) = _
  cases takes r.id <;> rfl

def bankWith (entries : List OutboxEntry) : Bank :=
  { plan := {}, accounts := { state := State.apply {} (entries.map fun e => .put outbox e.id.key e.encoded) } }

theorem bankHolds (entries : List OutboxEntry) : (bankWith entries).accounts.state.Holds entries := by
  intro r v _ there
  rcases State.rowAfter {} (entries.map fun e => Journal.Write.put outbox e.id.key e.encoded) r with
    ⟨_, same⟩ | ⟨w, mem, here, found⟩
  · rw [State.value?, bankWith, same] at there
    cases there
  · obtain ⟨e, own, rfl⟩ := List.mem_map.mp mem
    rw [State.value?, bankWith, found] at there
    cases there
    exact ⟨e, own, here.symm, rfl⟩

theorem bankStages {entries : List OutboxEntry} (once : (entries.map (·.id)).Nodup) (e : OutboxEntry) :
    Rows.Stages (bankWith entries).accounts.state.value? e ↔ e ∈ entries := by
  constructor
  · rintro ⟨value, there, read⟩
    obtain ⟨x, mem, -, rfl⟩ := bankHolds entries _ _ rfl there
    cases x.decodedOwn.symm.trans read
    exact mem
  · intro mem
    rcases State.rowAfter {} (entries.map fun e => Journal.Write.put outbox e.id.key e.encoded) (outboxRow e.id) with
      ⟨others, _⟩ | ⟨w, own, here, found⟩
    · exact absurd rfl (others _ (List.mem_map_of_mem mem))
    · obtain ⟨x, held, rfl⟩ := List.mem_map.mp own
      obtain rfl := List.inj_on_of_nodup_map once held mem (Query.outboxRowInjective here)
      exact ⟨_, by rw [State.value?, bankWith, found]; rfl, x.decodedOwn⟩

theorem bankDue {entries : List OutboxEntry} (sorted : entries.Pairwise OutboxEntry.Before)
    (once : (entries.map (·.id)).Nodup) (cutoff : Moment) :
    Rows.DueBy (bankWith entries).accounts.state.value? cutoff (entries.filter (·.createdAt ≤ cutoff)) := by
  refine ⟨sorted.sublist List.filter_sublist, fun e => ?_⟩
  rw [bankStages once, List.mem_filter, decide_eq_true_eq]

def entry (n : Nat) (createdAt : Moment) (delay : Option Int64) : OutboxEntry :=
  ⟨.versionFour n, ⟨.versionFour n, "t", [], { TaskOptions.standard with delay }⟩, createdAt⟩

def early : Moment := ⟨1699999990000, by decide⟩

def halfway : Moment := ⟨1699999995000, by decide⟩

def first : OutboxEntry := entry 1 early none

def second : OutboxEntry := entry 2 early none

def fresh : OutboxEntry := entry 3 Clock.start.now none

theorem relayDrainsPastRefusal :
    let b := bankWith [first, second, fresh]
    b.HasRoom ∧ b.now.sub? Bank.grace = some halfway ∧ Rows.Legible b.accounts.state.value? ∧
      ∃ told after told' cleared,
        (picking (· ≠ .versionFour 1)).Drained Bank.grace b () [first, second] told [second] [first] (.ok 1) after () ∧
        (picking fun _ => true).Drained Bank.grace after () [first] told' [first] [] (.ok 1) cleared () := by
  intro b
  have room : b.HasRoom := show 0 < 10 by decide
  have cut : b.now.sub? Bank.grace = some halfway := by decide
  have legible : Rows.Legible b.accounts.state.value? := Rows.legibleHeld (bankHolds _)
  refine ⟨room, cut, legible, ?_⟩
  obtain ⟨-, -, due, is, ended⟩ := relayDrains (picking (· ≠ .versionFour 1)) () room cut legible
  have listed : Rows.DueBy b.accounts.state.value? halfway [first, second] :=
    bankDue (by decide +kernel) (by decide +kernel) halfway
  obtain rfl := Rows.dueOnly listed is
  rcases ended with ⟨tried, e, later, told, taken, left, after, s', split, least, -⟩ |
    ⟨told, taken, left, after, s', drained, next⟩
  · have mem : e ∈ [first, second] := split ▸ List.mem_append_right _ List.mem_cons_self
    have proper : ∀ e ∈ [first, second], e.task.options.delay ≠ some .minValue := by decide
    exact absurd least (proper e mem)
  · obtain ⟨rfl, rfl⟩ := drained.byId (· ≠ .versionFour 1) (pickingGoes _)
    obtain ⟨told', cleared, s₂, again, -⟩ := next Unit (picking fun _ => true) () fun r x => rfl
    have taken : [first, second].filter (fun e => decide (e.task.id ≠ .versionFour 1)) = [second] := by decide +kernel
    have left : [first, second].filter (fun e => !decide (e.task.id ≠ .versionFour 1)) = [first] := by decide +kernel
    rw [taken, left] at drained
    rw [left] at again
    exact ⟨told, after, told', cleared, drained, again⟩

theorem leastDelayStops :
    let b := bankWith [entry 1 early (some .minValue), second]
    (b.relay Bank.grace).1 = .error (.overflow .delay) ∧ (own.drain Bank.grace b ()).2.2.2 = [] ∧
      (b.relay Bank.grace).2.accounts.state.value? = b.accounts.state.value? := by
  intro b
  have room : b.HasRoom := show 0 < 10 by decide
  have cut : b.now.sub? Bank.grace = some halfway := by decide
  obtain ⟨due, tried, rest, told, taken, left, outcome, after, s', is, split, drained, ends⟩ :=
    own.drains () room cut (Rows.legibleHeld (bankHolds _))
  have listed : Rows.DueBy b.accounts.state.value? halfway [entry 1 early (some .minValue), second] :=
    bankDue (by decide +kernel) (by decide +kernel) halfway
  rw [Rows.dueOnly listed is] at split
  obtain rfl : tried = [] := by
    rcases tried with _ | ⟨e, tried⟩
    · rfl
    · obtain ⟨rfl, -⟩ := List.cons.inj split
      exact absurd rfl (drained.offered.proper _ List.mem_cons_self)
  cases drained.offered
  rcases ends with ⟨rfl, -⟩ | ⟨-, -, -, -, rfl⟩
  · cases split
  · have relayed := (relayOwn Bank.grace b).symm.trans (own.drainRelay Bank.grace b ())
    rw [drained.drain] at relayed ⊢
    obtain ⟨result, state⟩ := Prod.mk.inj relayed
    refine ⟨result, rfl, ?_⟩
    rw [(Prod.mk.inj state).1, drained.rows, Rows.withoutNone]

end RelayTarget

end Teller
