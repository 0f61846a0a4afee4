import Teller.Bank.Worker
import Teller.Proofs.BankScript
import Teller.Proofs.Delays
import Teller.Proofs.NextTask

/-! Deadlines that leave the range of moments. The relay breaks off if nothing lies its grace before now, and the search
for the next task if it finds one and nothing lies the length of a lease after now. No other call of the broker or
of the store breaks off over a date. -/
namespace Teller
open Broker
variable {Event Answer ε α β σ : Type}

theorem raisedApart {result : Except ε α} {e raised : ε} (apart : result ≠ .error e) (found : result = .error raised) :
    (.error raised : Except ε β) ≠ .error e :=
  fun same => apart (found.trans (congrArg Except.error (Except.error.inj same)))

theorem boundApart {result : Except ε α} {next : α → Except ε β} {e : ε} (apart : result ≠ .error e)
    (later : ∀ a, next a ≠ .error e) : result >>= next ≠ .error e := by
  cases result with
  | ok a => exact later a
  | error e => exact raisedApart apart rfl

theorem mappedApart {result : Except ε α} {e : ε} (apart : result ≠ .error e) (f : α → β) : result.map f ≠ .error e := by
  cases result with
  | ok a => exact nofun
  | error e => exact raisedApart apart rfl

namespace Work

def Never (e : ε) (w : Work Event Answer ε α) : Prop :=
  w.Keeps (fun (_ : Unit) _ _ => True) (fun _ result => result ≠ .error e) ()

variable {e : ε}

theorem transactNever (host : Host σ Event Answer) (lens : ∀ x, host.replace x (host.database x) = x)
    {failure : CommitError → ε} (apart : ∀ cause, failure cause ≠ e) {body : Nat → Work Event Answer ε α}
    (never : ∀ n, (body n).Never e) (retries before : Nat) (x : σ) :
    (transact host failure body retries before x).1.result ≠ .error e := by
  obtain ⟨n, start, value, t, y, -, -, -, ran, ends⟩ :=
    transactLast failure body lens (I := fun _ => True) (fun _ _ => trivial) retries before (x := x) trivial
  obtain ⟨-, came⟩ := runEnds host (never (before + n)) (host.database start).begin.1
    (host.replace start (host.database start).begin.2)
  rw [show (body (before + n)).run host _ _ = (value, t, y) from ran] at came
  generalize transact host failure body retries before x = out at ends ⊢
  obtain ⟨⟨result, runs⟩, z⟩ := out
  cases ends with
  | failed => exact came
  | committed => nofun
  | refused => exact fun same => apart _ (Except.error.inj same)

end Work

namespace Broker
variable {limits : ArchiveLimits} {queue : String} {now : Moment} {duration : Span} {l : Lease} {r : TaskRecord}

theorem decodedDated (value : Bytes) : decoded value ≠ .error (.overflow .date) := by
  unfold decoded
  cases Json.decode TaskRecord.codec value.data.toList <;> nofun

theorem decodedRowsDated (rows : List (Bytes × Bytes)) : decodedRows rows ≠ .error (.overflow .date) := by
  unfold decodedRows
  exact mapMNever (fun row => decodedDated row.2) rows

theorem pruneDated : (prune limits queue now : Body Event Answer Unit).Never (.overflow .date) := by
  have erasing (gone : List (Moment × TaskRecord)) :
      (gone.forM fun e => Work.erase ⟨archiveTable queue, e.2.id.key⟩ : Body Event Answer Unit).Never
        (.overflow .date) := by
    induction gone with
    | nil => exact nofun
    | cons e gone ih => exact ⟨(), trivial, ih⟩
  rw [pruneRun]
  refine ⟨(), trivial, fun rows => ?_⟩
  have apart := decodedRowsDated rows
  dsimp only
  cases read : decodedRows rows with
  | error e => exact raisedApart apart read
  | ok records => exact erasing _

theorem putAwayDated (error : String) :
    (putAway limits r now error : Body Event Answer Unit).Never (.overflow .date) := by
  rw [putAwayRun]
  exact ⟨(), trivial, (), trivial, pruneDated⟩

theorem leasedInDated (held : Option Bytes) : leasedIn l held ≠ .error (.overflow .date) := by
  cases held with
  | none => exact fun same => by cases same
  | some value =>
    refine boundApart (decodedDated value) fun r => ?_
    split <;> exact fun same => by cases same

theorem leasedDated {next : TaskRecord → Body Event Answer α} (later : ∀ r, (next r).Never (.overflow .date)) :
    ((leased l).bind next).Never (.overflow .date) := by
  rw [leasedRun]
  refine ⟨(), trivial, fun held => ?_⟩
  have apart := leasedInDated (l := l) held
  dsimp only
  cases found : leasedIn l held with
  | error e => exact raisedApart apart found
  | ok r => exact later r

end Broker

namespace Bank
variable {b : Bank} {l : Lease} {body : Body Empty Empty α}

theorem askNever {cause : Overflow} (request : BrokerRequest) (never : body.Never (.overflow cause)) (b : Bank) :
    (ask request body b).1 ≠ .error (.overflow cause) := by
  unfold ask
  split
  · nofun
  · exact Work.transactNever queuesHost (fun _ => rfl) (fun _ same => by cases same) (fun _ => never) Broker.retries 0 b

theorem enqueueNever (r : TaskRecord) (b : Bank) (cause : Overflow) :
    (enqueueRecord r b).1 ≠ .error (.overflow cause) := by
  refine askNever _ ?_ b
  refine ⟨(), trivial, fun queued => ⟨(), trivial, fun archived => ?_⟩⟩
  show (if _ then _ else _ : Body Empty Empty Unit).Never (.overflow cause)
  split
  · exact ⟨(), trivial, nofun⟩
  · exact nofun

theorem settleDated (leased : LeasedTask) (ended : Except TaskError Unit) (b : Bank) :
    (settle leased ended b).1 ≠ .error (.overflow .date) := by
  unfold settle
  split
  · refine mappedApart (askNever _ (leasedDated fun r => ?_) b) _
    exact ⟨(), trivial, nofun⟩
  · exact mappedApart (askNever _ (leasedDated fun r => putAwayDated _) b) _
  · refine mappedApart (askNever _ (leasedDated fun r => ?_) _) _
    split
    · exact fun same => by cases same
    · exact ⟨(), trivial, nofun⟩

/-! ### The relay -/

theorem runStagedDated {perform : Event → Bank → Answer × Bank} {body : Nat → Query Event Answer α}
    (never : ∀ n, ((body n).run []).Never (.overflow .date)) (b : Bank) :
    (runStaged perform body b).1.result ≠ .error (.overflow .date) := by
  have unit (entered : Bank) : (transact (accountsHost perform) (fun e => .failed (.ofCommit e))
      (fun before => (body before).run []) b.plan.store.retries 0 entered).1.result ≠ .error (.overflow .date) :=
    Work.transactNever _ (fun _ => rfl) (fun cause same => by cases same) never _ 0 entered
  unfold runStaged
  split
  · exact unit _
  · intro same
    cases same

theorem runQueryDated {query : Query Empty Empty α} (never : (query.run []).Never (.overflow .date)) (b : Bank) :
    (runQuery query b).1.result ≠ .error (.overflow .date) := runStagedDated (fun _ => never) b

theorem listOutboxDated : ((Query.listOutbox : Query Empty Empty _).run []).Never (.overflow .date) := by
  have decodedDated (value : Bytes) : Query.decoded OutboxEntry.codec value ≠ .error (.overflow .date) := by
    unfold Query.decoded
    cases Json.decode OutboxEntry.codec value.data.toList <;> nofun
  rw [Query.listOutboxRun]
  refine ⟨(), trivial, fun rows => ?_⟩
  have apart : Query.entriesOf rows ≠ .error (.overflow .date) := by
    unfold Query.entriesOf
    exact mapMNever (fun row => decodedDated row.2) rows
  exact mappedApart apart _

theorem clearOutboxDated (id : Uuid) (b : Bank) : (clearOutbox id b).1 ≠ .error (.overflow .date) := by
  refine mappedApart (runQueryDated ?_ b) _
  exact ⟨(), trivial, fun same => by cases same⟩

theorem pendingDated (task : NewTask) (now : Moment) : TaskRecord.pending task now ≠ .error .date := by
  refine mappedApart (fun resolved => ?_) _
  cases ((TaskOptions.resolveBroken task.options now .date).mp resolved).1

theorem enqueueTaskNever (task : NewTask) (b : Bank) : (enqueueTask task b).1 ≠ .error (.overflow .date) := by
  unfold enqueueTask
  cases pending : TaskRecord.pending task b.now with
  | error cause => exact fun same => pendingDated task b.now (pending.trans (by cases same; rfl))
  | ok r =>
    have apart := enqueueNever r b .date
    dsimp only
    generalize enqueueRecord r b = out at apart ⊢
    obtain ⟨(_ | cause) | _, left⟩ := out
    · exact fun same => by cases same
    · exact fun same => apart (by cases same; rfl)
    · exact nofun

theorem handOverDated {offer : NewTask → σ → Except (Stop EnqueueError) TaskInfo × σ}
    {clear : Uuid → σ → Except (Stop StoreError) Unit × σ}
    (offered : ∀ task s, (offer task s).1 ≠ .error (.overflow .date))
    (cleared : ∀ id s, (clear id s).1 ≠ .error (.overflow .date)) (count : Nat) (entries : List OutboxEntry) (s : σ) :
    (handOver offer clear count entries s).1 ≠ .error .date := by
  induction entries generalizing count s with
  | nil => exact nofun
  | cons e rest ih =>
    have first := offered e.task s
    unfold handOver
    generalize offer e.task s = out at first ⊢
    obtain ⟨(_ | cause) | _, s⟩ := out
    · exact ih count s
    · exact fun same => first (by cases same; rfl)
    · have last := cleared e.id s
      dsimp only
      generalize clear e.id s = out at last ⊢
      obtain ⟨(_ | cause) | _, s⟩ := out
      · exact ih count s
      · exact fun same => last (by cases same; rfl)
      · exact ih (count + 1) s

theorem relayDatedIff (grace : Span) (b : Bank) :
    (relay grace b).1 = .error (.overflow .date) ↔ b.now.sub? grace = none := by
  unfold relay
  cases b.now.sub? grace with
  | none => simp
  | some cutoff =>
    have listed := runQueryDated listOutboxDated b
    simp only [reduceCtorEq, iff_false]
    generalize runQuery Query.listOutbox b = out at listed ⊢
    obtain ⟨⟨result, runs⟩, left⟩ := out
    cases result with
    | error e => exact raisedApart listed rfl
    | ok found =>
      obtain ⟨entries, staged⟩ := found
      have handed := handOverDated enqueueTaskNever clearOutboxDated 0 (entries.filter (·.createdAt ≤ cutoff)) left
      dsimp only
      unfold dispatch
      cases counted : (handOver enqueueTask clearOutbox 0 (entries.filter (·.createdAt ≤ cutoff)) left).1 with
      | ok count => exact nofun
      | error cause => exact fun same => handed (counted.trans (by cases same; rfl))

/-! ### The search for the next task -/

def Waits (rows : Rows) (queue : String) (now : Moment) : Prop := ∃ p date,
  rows.record? (queueTable queue) p.id = some p ∧ p.readyAt = some date ∧ date ≤ now ∧ Deliverable p

variable {queue : String} {now : Moment} {duration : Span} {b c : Bank}

theorem waitsIff {rows : Rows} {lost rest : List TaskRecord} (first : First rows queue now lost rest) :
    Waits rows queue now ↔ rest ≠ [] := by
  constructor
  · rintro ⟨p, date, stored, ready, due, deliverable⟩ rfl
    have mem := (first.due.listed p).mpr ⟨stored, date, ready, due⟩
    exact first.lost p (by simpa using mem) deliverable
  · intro more
    obtain ⟨p, rest, rfl⟩ := List.exists_cons_of_ne_nil more
    obtain ⟨stored, date, ready, due⟩ := (first.due.listed p).mp (by simp)
    exact ⟨p, date, stored, ready, due, first.next p rfl⟩

theorem leaseDatedIff (belong : Rows.Belong b.queues.state.value? queue) :
    (lease queue now duration b).1 = .error (.overflow .date) ↔ .lease ∉ b.outage ∧
      now.add? duration = none ∧ Waits b.queues.state.value? queue now := by
  unfold lease ask
  split
  next down =>
    have down : .lease ∈ b.outage := List.contains_iff_mem.mp down
    simp [down]
  next up =>
    have up : .lease ∉ b.outage := fun down => up (List.contains_iff_mem.mpr down)
    obtain ⟨lost, rest, own, first, -, came⟩ := aloneLease b.plan.archive now duration b.supply belong
    obtain ⟨-, closes⟩ := brokerRunCloses (Broker.lease b.plan.archive queue now duration) { b with polls := b.polls + 1 }
    have waits : Waits b.queues.state.value? queue now ↔ rest ≠ [] := waitsIff first
    rw [closesOverflow closes, came, waits]
    cases rest with
    | nil => simp
    | cons p rest => cases now.add? duration <;> simp_all

theorem leaseBelongs (belong : ∀ queue, Rows.Belong b.queues.state.value? queue)
    (nothing : lease queue now duration b = (.ok none, c)) :
    (∀ queue, Rows.Belong c.queues.state.value? queue) ∧ c.plan = b.plan ∧ c.outage = b.outage := by
  unfold lease ask at nothing
  split at nothing
  · cases nothing
  obtain ⟨lost, rest, own, first, shelves, came⟩ := aloneLease b.plan.archive now duration b.supply (belong queue)
  obtain ⟨⟨queues, left, -⟩, closes⟩ :=
    brokerRunCloses (Broker.lease b.plan.archive queue now duration) { b with polls := b.polls + 1 }
  rw [nothing] at left closes
  subst left
  obtain ⟨done, rows⟩ := closesKept closes
  rw [came] at done rows
  have mine (r : TaskRecord) (mem : r ∈ lost) : r.queue = queue :=
    Rows.recordQueue (belong queue).queued ((first.due.listed r).mp (List.mem_append_left rest mem)).1
  refine ⟨fun place => ?_, rfl, rfl⟩
  rw [rows]
  cases rest with
  | nil => exact Rows.belongShelves shelves mine belong place
  | cons p rest => cases fits : now.add? duration <;> simp [fits] at done

theorem leaseFromDatedIff (now : Moment) (queues : List String) (b : Bank) :
    (leaseFrom now queues b).1 = .error (.overflow .date) ↔ ∃ earlier queue later c,
      queues = earlier ++ queue :: later ∧ leaseFrom now earlier b = (.ok none, c) ∧
      (lease queue now c.plan.worker.lease c).1 = .error (.overflow .date) := by
  induction queues generalizing b with
  | nil => simp [leaseFrom]
  | cons queue rest ih =>
    have step (queues : List String) {c : Bank} (nothing : lease queue now b.plan.worker.lease b = (.ok none, c)) :
        leaseFrom now (queue :: queues) b = leaseFrom now queues c := by rw [leaseFrom, nothing]
    have found (queues : List String) (something : ∀ c, lease queue now b.plan.worker.lease b ≠ (.ok none, c)) :
        leaseFrom now (queue :: queues) b = lease queue now b.plan.worker.lease b := by
      unfold leaseFrom
      split
      next c nothing => exact absurd nothing (something c)
      next => rfl
    -- The queue itself is the one with nothing before it; any other comes behind a lease that found nothing.
    by_cases nothing : ∃ c, lease queue now b.plan.worker.lease b = (.ok none, c)
    · obtain ⟨c, nothing⟩ := nothing
      rw [step rest nothing, ih c]
      constructor
      · rintro ⟨earlier, place, later, d, rfl, before, last⟩
        exact ⟨queue :: earlier, place, later, d, rfl, (step earlier nothing).trans before, last⟩
      · rintro ⟨earlier, place, later, d, split, before, last⟩
        cases earlier with
        | nil =>
          cases split
          cases before
          rw [nothing] at last
          cases last
        | cons first earlier =>
          obtain ⟨rfl, rfl⟩ := List.cons.inj split
          exact ⟨earlier, place, later, d, rfl, (step earlier nothing).symm.trans before, last⟩
    · have something (c : Bank) : lease queue now b.plan.worker.lease b ≠ (.ok none, c) := fun h => nothing ⟨c, h⟩
      rw [found rest something]
      constructor
      · exact fun dated => ⟨[], queue, rest, b, rfl, rfl, dated⟩
      · rintro ⟨earlier, place, later, d, split, before, last⟩
        cases earlier with
        | nil =>
          cases split
          cases before
          exact last
        | cons first earlier =>
          obtain ⟨rfl, rfl⟩ := List.cons.inj split
          exact absurd ((found earlier something).symm.trans before) (something d)

theorem leaseFromBelongs {queues : List String} (belong : ∀ queue, Rows.Belong b.queues.state.value? queue)
    (nothing : leaseFrom now queues b = (.ok none, c)) :
    (∀ queue, Rows.Belong c.queues.state.value? queue) ∧ c.plan = b.plan ∧ c.outage = b.outage := by
  induction queues generalizing b with
  | nil =>
    cases nothing
    exact ⟨belong, rfl, rfl⟩
  | cons queue rest ih =>
    unfold leaseFrom at nothing
    split at nothing
    next d first =>
      obtain ⟨belong, plan, outage⟩ := leaseBelongs belong first
      obtain ⟨left, plan', outage'⟩ := ih belong nothing
      exact ⟨left, plan'.trans plan, outage'.trans outage⟩
    next something => exact absurd nothing (something c)

def ComesTo (b : Bank) (queue : String) (c : Bank) : Prop := ∃ earlier later,
  b.scheduler.pollOrder.1 = earlier ++ queue :: later ∧
    leaseFrom b.now earlier { b with scheduler := b.scheduler.pollOrder.2 } = (.ok none, c)

theorem leaseNextDatedIff (belong : ∀ queue, Rows.Belong b.queues.state.value? queue) :
    (leaseNext b).1 = .error (.overflow .date) ↔ .lease ∉ b.outage ∧ b.now.add? b.plan.worker.lease = none ∧
      ∃ queue c, b.ComesTo queue c ∧ Waits c.queues.state.value? queue b.now := by
  have started : ∀ queue, Rows.Belong ({ b with scheduler := b.scheduler.pollOrder.2 } : Bank).queues.state.value? queue :=
    belong
  show (leaseFrom b.now b.scheduler.pollOrder.1 { b with scheduler := b.scheduler.pollOrder.2 }).1 = _ ↔ _
  rw [leaseFromDatedIff]
  constructor
  · rintro ⟨earlier, queue, later, c, order, before, last⟩
    obtain ⟨left, plan, outage⟩ := leaseFromBelongs started before
    obtain ⟨up, fits, waits⟩ := (leaseDatedIff (left queue)).mp last
    rw [plan] at fits
    rw [outage] at up
    exact ⟨up, fits, queue, c, ⟨earlier, later, order, before⟩, waits⟩
  · rintro ⟨up, fits, queue, c, ⟨earlier, later, order, before⟩, waits⟩
    obtain ⟨left, plan, outage⟩ := leaseFromBelongs started before
    refine ⟨earlier, queue, later, c, order, before, (leaseDatedIff (left queue)).mpr ⟨?_, ?_, waits⟩⟩
    · rwa [outage]
    · rwa [plan]

end Bank
end Teller
