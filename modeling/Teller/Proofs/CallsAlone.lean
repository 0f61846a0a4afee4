import Teller.Bank.Broker
import Teller.Proofs.Commit
import Teller.Proofs.TableViews

/-! A call of the broker with nobody else about. What its body comes to is a function of the rows and of the
identifiers that are drawn, and only the journal may refuse what it wrote. -/
namespace Teller
open Transaction (Op Buffer)
variable {ε α β : Type}

namespace Work
variable {s : State} {own : Buffer} {supply : Supply}

def alone (s : State) : Work Empty Empty ε α → Buffer → Supply → Except ε α × Buffer × Supply
  | done result, own, supply => (result, own, supply)
  | get row next, own, supply => (next (s.amended own row)).alone s own supply
  | scan table next, own, supply =>
      (next (own.entries.foldl (Transaction.overlay table) (s.table table)).entries).alone s own supply
  | put row value next, own, supply => next.alone s (own.insert row (some value)) supply
  | delete row next, own, supply => next.alone s (own.insert row none) supply
  | fresh next, own, supply => (next supply.id.1).alone s own supply.id.2
  | outside event _, _, _ => nomatch event

theorem aloneBind (w : Work Empty Empty ε α) (f : α → Work Empty Empty ε β) : (w.bind f).alone s own supply =
    match w.alone s own supply with
    | (.ok a, own, supply) => (f a).alone s own supply
    | (.error e, own, supply) => (.error e, own, supply) := by
  induction w generalizing own supply with
  | done r => cases r <;> rfl
  | get row next ih => exact ih _
  | scan table next ih => exact ih _
  | put row value next ih => exact ih
  | delete row next ih => exact ih
  | fresh next ih => exact ih _
  | outside event next => cases event

theorem aloneBound {w : Work Empty Empty ε α} {f : α → Work Empty Empty ε β} {a : α} {own' : Buffer}
    {supply' : Supply} (first : w.alone s own supply = (.ok a, own', supply')) :
    (w.bind f).alone s own supply = (f a).alone s own' supply' := by
  rw [aloneBind, first]

structure Undisturbed (b : Bank) (came : Except ε α × Buffer × Supply) (out : Except ε α × Transaction × Bank) :
    Prop where
  result : out.1 = came.1
  writes : out.2.1.writes = came.2.1
  fresh : out.2.1.isStale b.queues.state = false
  bank : out.2.2 = { b with supply := came.2.2 }

theorem aloneAsked {w : Work Empty Empty ε α} {op : Op} (asked : w.ask = some op) : w.alone s own supply =
    (w.told (Transaction.reply own s op)).alone s (Transaction.buffered own op) supply := by
  cases w <;> cases asked <;> rfl

theorem undisturbedAsked {w : Work Empty Empty ε α} {op : Op} (asked : w.ask = some op) {t : Transaction} {b : Bank}
    (later : Undisturbed b
      ((w.told (t.perform b.queues.state op).1).alone b.queues.state (t.perform b.queues.state op).2.writes b.supply)
      ((w.told (t.perform b.queues.state op).1).run Bank.queuesHost (t.perform b.queues.state op).2 b)) :
    Undisturbed b (w.alone b.queues.state t.writes b.supply) (w.run Bank.queuesHost t b) := by
  rw [runAsked _ asked, aloneAsked asked, ← Transaction.performReply, ← Transaction.performWrites]
  exact later

theorem runUndisturbed (w : Work Empty Empty ε α) {t : Transaction} {b : Bank}
    (fresh : t.isStale b.queues.state = false) :
    Undisturbed b (w.alone b.queues.state t.writes b.supply) (w.run Bank.queuesHost t b) := by
  induction w generalizing t b with
  | done r => exact ⟨rfl, rfl, fresh, rfl⟩
  | get row next ih =>
    refine undisturbedAsked rfl ?_
    exact ih _ (Transaction.freshPerform fresh (.get row))
  | scan table next ih =>
    refine undisturbedAsked rfl ?_
    exact ih _ (Transaction.freshPerform fresh (.scan table))
  | put row value next ih =>
    refine undisturbedAsked rfl ?_
    exact ih (Transaction.freshPerform fresh (.put row value))
  | delete row next ih =>
    refine undisturbedAsked rfl ?_
    exact ih (Transaction.freshPerform fresh (.delete row))
  | fresh next ih =>
    obtain ⟨result, writes, fresh, bank⟩ := ih b.drawId.1 (b := b.drawId.2) fresh
    exact ⟨result, writes, fresh, bank⟩
  | outside event next => cases event

end Work

def Database.Takes (db : Database) (own : Buffer) : Prop := db.log = none ∨
  16 + Journal.Record.writesSize (own.entries.map Transaction.asWrite) + Journal.checksumSize ≤ Journal.maxRecordSize

theorem Database.takesIff {db : Database} {t : Transaction} :
    (∃ log, logCommit db.log ⟨t.id, t.toWrites⟩ = .ok log) ↔ db.Takes t.writes := by
  rw [logCommitIff, Journal.Record.encodeIff]
  rfl

theorem Database.commitFresh {db : Database} {t : Transaction} (fresh : t.isStale db.state = false) :
    ((db.commit t).1 = .ok () ∧ (t.writes = ∅ ∨ db.Takes t.writes)) ∨
      ∃ cause, (db.commit t).1 = .error (.journal cause) ∧ t.writes ≠ ∅ ∧ ¬ db.Takes t.writes := by
  rw [← takesIff]
  rcases commitCases db t with ⟨stale, -⟩ | ⟨-, only, done⟩ | ⟨-, writes, cause, refused, done⟩ |
    ⟨-, writes, log, logged, done⟩
  · simp [stale] at fresh
  · exact .inl ⟨by rw [done], .inl (SortedMap.isEmptyIff.mp only)⟩
  · refine .inr ⟨cause, by rw [done], fun empty => ?_, by simp [refused]⟩
    have : t.isReadOnly = true := SortedMap.isEmptyIff.mpr empty
    simp [this] at writes
  · exact .inl ⟨by rw [done], .inr ⟨log, logged⟩⟩

namespace Bank

inductive Closes (db : Database) (own : Buffer) (came : Except (Stop BrokerError) α) :
    Except (Stop BrokerError) α → Rows → Prop where
  | failed {e} (failed : came = .error e) : Closes db own came (.error e) db.state.value?
  | refused {a cause} (done : came = .ok a) (writes : own ≠ ∅) (large : ¬ db.Takes own) :
      Closes db own came (.error (.failed (.ofCommit (.journal cause)))) db.state.value?
  | kept {a} (done : came = .ok a) (taken : own = ∅ ∨ db.Takes own) : Closes db own came (.ok a) (db.state.amended own)

theorem closesTaken {db : Database} {own : Buffer} {came result : Except (Stop BrokerError) α} {rows : Rows}
    (closes : Closes db own came result rows) (taken : db.Takes own) : result = came := by
  cases closes with
  | failed failed => exact failed.symm
  | refused done writes large => exact absurd taken large
  | kept done => exact done.symm

theorem closesKept {db : Database} {own : Buffer} {came : Except (Stop BrokerError) α} {a : α} {rows : Rows}
    (closes : Closes db own came (.ok a) rows) : came = .ok a ∧ rows = db.state.amended own := by
  cases closes with
  | kept done => exact ⟨done, rfl⟩

theorem closesOverflow {db : Database} {own : Buffer} {came result : Except (Stop BrokerError) α} {rows : Rows}
    (closes : Closes db own came result rows) (cause : Overflow) :
    result = .error (.overflow cause) ↔ came = .error (.overflow cause) := by
  cases closes with
  | failed failed => rw [failed]
  | refused done => simp [done]
  | kept done => simp [done]

theorem brokerRunCloses (body : Broker.Body Empty Empty α) (b : Bank) :
    let came := body.alone b.queues.state ∅ b.supply
    let out := brokerRun body b
    (∃ queues, out.2 = { b with queues, supply := came.2.2 } ∧ queues.log.isSome = b.queues.log.isSome) ∧
      Closes b.queues came.2.1 came.1 out.1 out.2.queues.state.value? := by
  intro came out
  rcases ran : body.firstRun queuesHost b with ⟨value, t, c⟩
  have begun := Work.runUndisturbed body (t := b.queues.begin.1) (b := { b with queues := b.queues.begin.2 }) rfl
  unfold Work.firstRun at ran
  rw [show body.run queuesHost b.queues.begin.1 { b with queues := b.queues.begin.2 } = (value, t, c) from ran] at begun
  obtain ⟨result, writes, fresh, bank⟩ := begun
  obtain rfl : c = { b with queues := b.queues.begin.2, supply := came.2.2 } := bank
  have left : t.writes = came.2.1 := writes
  have told : out = ((transact queuesHost _ (fun _ => body) Broker.retries 0 b).1.result,
    (transact queuesHost _ (fun _ => body) Broker.retries 0 b).2) := rfl
  have ends : ((b.queues.begin.2.commit t).1 = .ok () ∧ (t.writes = ∅ ∨ b.queues.Takes t.writes)) ∨ _ :=
    Database.commitFresh fresh
  rcases Work.transactCases queuesHost (fun e => .failed (.ofCommit e)) (fun _ => body) Broker.retries 0 b ran with
    ⟨e, rfl, done⟩ | ⟨a, db, rfl, committed, done⟩ | ⟨a, db, fewer, rfl, committed, -⟩ |
      ⟨a, db, cause, rfl, committed, -, done⟩
  · rw [told, done]
    exact ⟨⟨_, rfl, rfl⟩, .failed result.symm⟩
  · have committed : b.queues.begin.2.commit t = (.ok (), db) := committed
    have rows : db.state.value? = b.queues.state.amended t.writes := by
      funext r
      have after := Database.valueAfterCommit (congrArg Prod.fst committed) r
      rw [committed] at after
      exact after
    rcases ends with ⟨-, taken⟩ | ⟨cause, refused, -⟩
    · rw [told, done]
      have durable := Database.commitDurable b.queues.begin.2 t
      rw [committed] at durable
      refine ⟨⟨db, rfl, durable⟩, ?_⟩
      rw [show (queuesHost.replace _ db).queues.state.value? = _ from rows, left]
      exact .kept result.symm (left ▸ taken)
    · rw [committed] at refused
      cases refused
  · have committed : (b.queues.begin.2.commit t).1 = .error .conflict := congrArg Prod.fst committed
    rcases ends with ⟨ok, -⟩ | ⟨cause, refused, -⟩
    · rw [committed] at ok
      cases ok
    · rw [committed] at refused
      cases refused
  · have committed : b.queues.begin.2.commit t = (.error cause, db) := committed
    obtain rfl : b.queues.begin.2 = db :=
      (Database.commitRefused (congrArg Prod.fst committed)).symm.trans (congrArg Prod.snd committed)
    rcases ends with ⟨ok, -⟩ | ⟨cause, refused, writes, large⟩
    · rw [committed] at ok
      cases ok
    · rw [committed] at refused
      cases refused
      rw [told, done]
      exact ⟨⟨_, rfl, rfl⟩, .refused result.symm (left ▸ writes) (left ▸ large)⟩

end Bank
end Teller
