import Teller.Proofs.Deadlines
import Teller.Proofs.Dispatch
import Teller.Proofs.UnitsAlone
import Teller.Proofs.Unseen

/-! The relay with any broker at all behind it. A broker may take a task or refuse it, just as it likes; in the bank
it has no business but with the queues. The bank's own broker is one of these, and a note that is kept of what a
broker is asked and how it answers changes nothing. -/
namespace Teller
open Query (outbox outboxRow)

theorem Work.transactOnce {σ Event Answer ε α : Type} (host : Host σ Event Answer) (failure : CommitError → ε)
    (body : Nat → Work Event Answer ε α) (retries before : Nat) (x : σ) {a : α} {t : Transaction} {y : σ}
    (ran : (body before).run host (host.database x).begin.1 (host.replace x (host.database x).begin.2) = (.ok a, t, y))
    (ok : ((host.database y).commit t).1 = .ok ()) : transact host failure body retries before x =
      (⟨.ok a, [.ok a]⟩, host.replace y ((host.database y).commit t).2) := by
  rw [transact]
  simp only [ran, ok]

namespace Bank
variable {b c d : Bank}

structure Steady (b c : Bank) : Prop where
  plan : c.plan = b.plan
  clock : c.clock = b.clock
  running : c.running = b.running

theorem steadyTrans (first : b.Steady c) (second : c.Steady d) : b.Steady d :=
  ⟨second.plan.trans first.plan, second.clock.trans first.clock, second.running.trans first.running⟩

theorem steadyRoom (h : b.Steady c) (room : b.HasRoom) : c.HasRoom := by
  rw [HasRoom, h.running, h.plan]
  exact room

theorem steadyNow (h : b.Steady c) : c.now = b.now := congrArg Clock.now h.clock

theorem askQueuesOnly {α : Type} (request : BrokerRequest) (body : Broker.Body Empty Empty α) (b : Bank) :
    ∃ queues supply, (ask request body b).2 = { b with queues, supply } := by
  unfold ask
  split
  · exact ⟨b.queues, b.supply, rfl⟩
  · have kept : ∃ queues supply, (transact queuesHost (fun e => Stop.failed (BrokerError.ofCommit e)) (fun _ => body)
        Broker.retries 0 b).2 = { b with queues, supply } := by
      refine Work.transactInvariant (I := fun c : Bank => ∃ queues supply, c = { b with queues, supply }) ?_ nofun ?_
        _ _ _ _ ⟨b.queues, b.supply, rfl⟩
      · rintro _ ⟨queues, supply, rfl⟩
        exact ⟨queues, supply.next, rfl⟩
      · rintro _ db ⟨queues, supply, rfl⟩
        exact ⟨db, supply, rfl⟩
    exact kept

theorem clearingFits (id : UInt64) (entry : Uuid) :
    Journal.Record.Fits ⟨id, [.delete outbox entry.key]⟩ := by
  have size : entry.key.size = 16 := entry.length_eq
  simp only [Journal.Record.Fits, Journal.Record.size, Journal.Record.writesSize, Journal.Write.sizeEncoded,
    Journal.Write.encodedSize, size]
  decide

theorem clearAlone (room : b.HasRoom) (id : Uuid) : ∃ accounts, clearOutbox id b = (.ok (), { b with accounts }) ∧
    accounts.state.value? = Rows.set b.accounts.state.value? (outboxRow id) none := by
  let db : Database := b.accounts.begin.2
  let t : Transaction := b.accounts.begin.1.delete (outboxRow id)
  have writes : t.toWrites = [.delete outbox id.key] := rfl
  have settled := Database.commitEnds db t
  have fits : Journal.Record.Fits ⟨t.id, t.toWrites⟩ := by
    rw [writes]
    exact clearingFits t.id id
  have fresh : t.isStale db.state = false := rfl
  rw [fresh, if_neg Bool.false_ne_true, if_neg fun large => large.2 fits] at settled
  have ok : (db.commit t).1 = .ok () := congrArg Prod.fst settled
  have committed : db.commit t = (.ok (), (db.commit t).2) := Prod.ext ok rfl
  refine ⟨(db.commit t).2, ?_, ?_⟩
  · have entered : b.running < b.plan.store.room := room
    obtain ⟨perform, asks⟩ := queryAsks (Query.deleteOutbox id) b
    have once := Work.transactOnce (accountsHost perform) (fun e => Stop.failed (StoreError.ofCommit e))
      (fun _ => (Query.deleteOutbox id : Query Empty Empty Unit).run []) b.plan.store.retries 0
      { b with running := b.running + 1 } rfl ok
    rw [clearOutbox, asks, runStaged, if_pos entered]
    exact congrArg (fun out => (out.1.result.map (·.1), { out.2 with running := b.running })) once
  · funext r
    have left := Database.valueAfterCommit ok r
    rw [left]
    show ((SortedMap.insert ∅ (outboxRow id) none).get? r).getD (b.accounts.state.value? r) = _
    rw [SortedMap.getInsert, Rows.set]
    split <;> rfl

theorem handOverAlong {σ τ : Type} (f : σ → τ) {offer : NewTask → σ → Except (Stop EnqueueError) TaskInfo × σ}
    {offer' : NewTask → τ → Except (Stop EnqueueError) TaskInfo × τ}
    {clear : Uuid → σ → Except (Stop StoreError) Unit × σ} {clear' : Uuid → τ → Except (Stop StoreError) Unit × τ}
    (offers : ∀ task x, offer' task (f x) = ((offer task x).1, f (offer task x).2))
    (clears : ∀ id x, clear' id (f x) = ((clear id x).1, f (clear id x).2)) (count : Nat) (entries : List OutboxEntry)
    (x : σ) : handOver offer' clear' count entries (f x) =
      ((handOver offer clear count entries x).1, f (handOver offer clear count entries x).2) := by
  induction entries generalizing count x with
  | nil => rfl
  | cons e rest ih =>
    unfold handOver
    rw [offers]
    rcases offer e.task x with ⟨(_ | cause) | _, y⟩
    · exact ih count y
    · rfl
    · dsimp only
      rw [clears]
      rcases clear e.id y with ⟨(_ | cause) | _, z⟩
      · exact ih count z
      · rfl
      · exact ih (count + 1) z

end Bank

structure RelayTarget (σ : Type) where
  take : TaskRecord → Bank × σ → Except (Stop BrokerError) Unit × Bank × σ
  answers : ∀ r x cause, (take r x).1 ≠ .error (.overflow cause)
  apart : ∀ r x, (take r x).2.1.accounts = x.1.accounts ∧ x.1.Steady (take r x).2.1

namespace RelayTarget
variable {σ : Type}

def offer (t : RelayTarget σ) (task : NewTask) (x : Bank × σ) : Except (Stop EnqueueError) TaskInfo × Bank × σ :=
  match TaskRecord.pending task x.1.now with
  | .error cause => (.error (.overflow cause), x)
  | .ok record =>
      let (result, x) := t.take record x
      (match result with
        | .ok () => .ok record.info
        | .error e => .error (e.map .broker), x)

theorem offerPending (t : RelayTarget σ) {task : NewTask} {x : Bank × σ} {r : TaskRecord}
    (pending : TaskRecord.pending task x.1.now = .ok r) : t.offer task x = (match (t.take r x).1 with
      | .ok () => .ok r.info
      | .error e => .error (e.map .broker), (t.take r x).2) := by
  rw [offer, pending]

def clear (id : Uuid) (x : Bank × σ) : Except (Stop StoreError) Unit × Bank × σ :=
  let (done, b) := Bank.clearOutbox id x.1
  (done, b, x.2)

def relay (t : RelayTarget σ) (grace : Span) (x : Bank × σ) : Except (Stop StoreError) Nat × Bank × σ :=
  match x.1.now.sub? grace with
  | none => (.error (.overflow .date), x)
  | some cutoff =>
      let (done, b) := Bank.runQuery Query.listOutbox x.1
      match done.result with
      | .error e => (.error e, b, x.2)
      | .ok (entries, _) =>
          let (count, x) := Bank.handOver t.offer clear 0 (entries.filter (·.createdAt ≤ cutoff)) (b, x.2)
          (count.mapError .overflow, x)

def own : RelayTarget Unit where
  take r x := ((Bank.enqueueRecord r x.1).1, (Bank.enqueueRecord r x.1).2, ())
  answers r x cause := Bank.enqueueNever r x.1 cause
  apart r x := by
    obtain ⟨queues, supply, same⟩ := Bank.askQueuesOnly .enqueue (Broker.enqueue r) x.1
    rw [show (Bank.enqueueRecord r x.1).2 = _ from same]
    exact ⟨rfl, rfl, rfl, rfl⟩

theorem relayOwn (grace : Span) (b : Bank) :
    own.relay grace (b, ()) = ((b.relay grace).1, (b.relay grace).2, ()) := by
  have offers (task : NewTask) (b : Bank) :
      own.offer task (b, ()) = ((Bank.enqueueTask task b).1, (Bank.enqueueTask task b).2, ()) := by
    unfold offer Bank.enqueueTask own
    cases TaskRecord.pending task b.now <;> rfl
  unfold relay Bank.relay
  dsimp only
  cases b.now.sub? grace with
  | none => rfl
  | some cutoff =>
    dsimp only
    rcases Bank.runQuery Query.listOutbox b with ⟨⟨_ | ⟨entries, staged⟩, runs⟩, c⟩
    · rfl
    · have clears (id : Uuid) (b : Bank) :
          clear id (b, ()) = ((Bank.clearOutbox id b).1, (Bank.clearOutbox id b).2, ()) := rfl
      have handed := Bank.handOverAlong (fun b : Bank => (b, ())) offers clears 0
        (entries.filter (·.createdAt ≤ cutoff)) c
      simp only [handed, Bank.dispatch]

def noting (t : RelayTarget σ) : RelayTarget (σ × List (TaskRecord × Bool)) where
  take r x :=
    let out := t.take r (x.1, x.2.1)
    (out.1, out.2.1, out.2.2, x.2.2 ++ [(r, out.1.isOk)])
  answers r x cause := t.answers r (x.1, x.2.1) cause
  apart r x := t.apart r (x.1, x.2.1)

def drain (t : RelayTarget σ) (grace : Span) (b : Bank) (s : σ) :
    Except (Stop StoreError) Nat × Bank × σ × List (TaskRecord × Bool) := t.noting.relay grace (b, s, [])

theorem drainRelay (t : RelayTarget σ) (grace : Span) (b : Bank) (s : σ) :
    t.relay grace (b, s) = ((t.drain grace b s).1, (t.drain grace b s).2.1, (t.drain grace b s).2.2.1) := by
  let plain (x : Bank × σ × List (TaskRecord × Bool)) : Bank × σ := (x.1, x.2.1)
  have offers (task : NewTask) (x) :
      t.offer task (plain x) = ((t.noting.offer task x).1, plain (t.noting.offer task x).2) := by
    unfold offer noting plain
    dsimp only
    cases TaskRecord.pending task x.1.now with
    | error cause => rfl
    | ok r => rfl
  unfold drain relay
  dsimp only
  cases b.now.sub? grace with
  | none => rfl
  | some cutoff =>
    dsimp only
    rcases Bank.runQuery Query.listOutbox b with ⟨⟨_ | ⟨entries, staged⟩, runs⟩, c⟩
    · rfl
    · have clears (id : Uuid) (x : Bank × σ × List (TaskRecord × Bool)) :
          clear id (plain x) = ((clear id x).1, plain (clear id x).2) := rfl
      have handed := Bank.handOverAlong plain offers clears 0 (entries.filter (·.createdAt ≤ cutoff)) (c, s, [])
      simp only [plain] at handed
      simp only [handed]

end RelayTarget
end Teller
