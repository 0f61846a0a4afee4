import Teller.Bank.Store
import Teller.Proofs.Commit
import Teller.Proofs.WorkSteps

/-! A unit of work is done as a whole or not at all. Rivals may do anything to the bank while a body runs;
they do so where the body names them, at its start and at its end as well as between its queries. -/
namespace Teller
variable {Event Answer α : Type}

namespace Bank

inductive Beside (perform : Event → Bank → Answer × Bank) (b : Bank) : Bank → Prop where
  | same : Beside perform b b
  | rival {c} (e : Event) (before : Beside perform b c) : Beside perform b (perform e c).2
  | draw {c} (before : Beside perform b c) : Beside perform b c.drawId.2
  | begin {c} (before : Beside perform b c) : Beside perform b { c with accounts := c.accounts.begin.2 }
  | places {c} (running : Nat) (before : Beside perform b c) : Beside perform b { c with running }

structure Try (α : Type) where
  value : Except (Stop StoreError) (α × List OutboxEntry)
  txn : Transaction
  finish : Bank

variable {perform : Event → Bank → Answer × Bank} {body : Nat → Query Event Answer α}

def Try.Fresh (perform : Event → Bank → Answer × Bank) (query : Query Event Answer α) (b : Bank) (y : Try α) :
    Prop :=
  (query.run []).run (accountsHost perform) ⟨b.accounts.nextTxnId, ∅, ∅, ∅⟩
    { b with accounts := b.accounts.begin.2 } = (y.value, y.txn, y.finish)

inductive Tries (perform : Event → Bank → Answer × Bank) (body : Nat → Query Event Answer α) :
    (n : Nat) → Bank → List (Try α) → Try α → Prop where
  | last {n b y} (fresh : y.Fresh perform (body n) b) : Tries perform body n b [] y
  | again {n b y a rest last} (fresh : y.Fresh perform (body n) b) (value : y.value = .ok a)
      (conflict : (y.finish.accounts.commit y.txn).1 = .error .conflict)
      (later : Tries perform body (n + 1) y.finish rest last) : Tries perform body n b (y :: rest) last

theorem besideFresh {b c : Bank} {query : Query Event Answer α} {y : Try α} (fresh : y.Fresh perform query c)
    (before : Beside perform b c) : Beside perform b y.finish := by
  have after : Beside perform b ((query.run []).run (accountsHost perform) ⟨c.accounts.nextTxnId, ∅, ∅, ∅⟩
      { c with accounts := c.accounts.begin.2 }).2.2 :=
    Work.runInvariant (fun _ => .draw) (fun e _ => .rival e) _ _ before.begin
  rwa [fresh] at after

theorem besideTries {b c : Bank} {n : Nat} {failed : List (Try α)} {last : Try α}
    (tries : Tries perform body n c failed last) (before : Beside perform b c) :
    Beside perform b last.finish := by
  induction tries with
  | last fresh => exact besideFresh fresh before
  | again fresh _ _ _ ih => exact ih (besideFresh fresh before)

inductive Try.Ends (y : Try α) : Except (Stop StoreError) (α × List OutboxEntry) → Bank → Prop where
  | failed {e} (value : y.value = .error e) : y.Ends (.error e) y.finish
  | refused {a cause} (value : y.value = .ok a) (commit : (y.finish.accounts.commit y.txn).1 = .error cause) :
      y.Ends (.error (.failed (.ofCommit cause))) y.finish
  | committed {a} (value : y.value = .ok a) (commit : (y.finish.accounts.commit y.txn).1 = .ok ()) :
      y.Ends (.ok a) { y.finish with accounts := (y.finish.accounts.commit y.txn).2 }

theorem transactTries (perform : Event → Bank → Answer × Bank) (body : Nat → Query Event Answer α)
    (retries n : Nat) (b : Bank) :
    let out := transact (accountsHost perform) (fun e => .failed (.ofCommit e)) (fun n => (body n).run [])
      retries n b
    ∃ failed last, Tries perform body n b failed last ∧ failed.length ≤ retries ∧
      out.1.runs = failed.map (·.value) ++ [last.value] ∧ last.Ends out.1.result out.2 := by
  induction retries using Nat.strongRecOn generalizing n b with
  | ind retries ih =>
    rcases ran : ((body n).run []).firstRun (accountsHost perform) b with ⟨value, t, c⟩
    have fresh : Try.Fresh perform (body n) b ⟨value, t, c⟩ := ran
    rcases Work.transactCases (accountsHost perform) (fun e => .failed (.ofCommit e))
      (fun n => (body n).run []) retries n b ran with ⟨e, rfl, done⟩ | ⟨a, db, rfl, committed, done⟩ |
        ⟨a, db, fewer, rfl, committed, rfl, done⟩ | ⟨a, db, cause, rfl, committed, _, done⟩
    · rw [done]
      exact ⟨[], _, .last fresh, Nat.zero_le _, rfl, .failed rfl⟩
    · rw [done]
      obtain rfl : (c.accounts.commit t).2 = db := congrArg Prod.snd committed
      exact ⟨[], _, .last fresh, Nat.zero_le _, rfl, .committed rfl (congrArg Prod.fst committed)⟩
    · rw [done]
      obtain rfl : c.accounts = db :=
        (Database.commitRefused (congrArg Prod.fst committed)).symm.trans (congrArg Prod.snd committed)
      obtain ⟨failed, last, tries, few, runs, ends⟩ := ih fewer (Nat.lt_succ_self fewer) (n + 1) c
      refine ⟨⟨.ok a, t, c⟩ :: failed, last, .again fresh rfl (congrArg Prod.fst committed) tries,
        Nat.succ_le_succ few, ?_, ends⟩
      exact congrArg (_ :: ·) runs
    · rw [done]
      obtain rfl : c.accounts = db :=
        (Database.commitRefused (congrArg Prod.fst committed)).symm.trans (congrArg Prod.snd committed)
      exact ⟨[], _, .last fresh, Nat.zero_le _, rfl, .refused rfl (congrArg Prod.fst committed)⟩

theorem runStagedTries (perform : Event → Bank → Answer × Bank) (body : Nat → Query Event Answer α) (b : Bank) :
    let out := runStaged perform body b
    (b.plan.store.room ≤ b.running ∧ out = (⟨.error (.failed .crowded), []⟩, b)) ∨
    ∃ failed last c, Tries perform body 0 { b with running := b.running + 1 } failed last ∧
      failed.length ≤ b.plan.store.retries ∧ out.1.runs = failed.map (·.value) ++ [last.value] ∧
      last.Ends out.1.result c ∧ out.2 = { c with running := b.running } := by
  unfold runStaged
  split
  · obtain ⟨failed, last, tries, few, runs, ends⟩ :=
      transactTries perform body b.plan.store.retries 0 { b with running := b.running + 1 }
    exact .inr ⟨failed, last, _, tries, few, runs, ends, rfl⟩
  · rename_i full
    exact .inl ⟨Nat.le_of_not_lt full, rfl⟩

theorem triesLast {n : Nat} {b : Bank} {failed : List (Try α)} {last : Try α}
    (tries : Tries perform body n b failed last) : ∃ k c, last.Fresh perform (body k) c := by
  induction tries with
  | last fresh => exact ⟨_, _, fresh⟩
  | again _ _ _ _ ih => exact ih

theorem runStagedEnds {γ : Type} {may : γ → Transaction.Op → γ → Prop}
    {ends : γ → Except (Stop StoreError) (α × List OutboxEntry) → Prop} {g : γ} {b : Bank}
    {result : α × List OutboxEntry}
    (h : ∀ k, ((body k).run []).Keeps may ends g) (ok : (runStaged perform body b).1.result = .ok result) :
    ∃ g, ends g (.ok result) := by
  rcases runStagedTries perform body b with ⟨-, crowded⟩ | ⟨failed, last, c, tries, _, _, closes, _⟩
  · rw [crowded] at ok; cases ok
  · obtain ⟨k, d, fresh⟩ := triesLast tries
    obtain ⟨g, ended⟩ := Work.runEnds (accountsHost perform) (h k) ⟨d.accounts.nextTxnId, ∅, ∅, ∅⟩
      { d with accounts := d.accounts.begin.2 }
    rw [show ((body k).run []).run (accountsHost perform) _ _ = _ from fresh] at ended
    refine ⟨g, ?_⟩
    generalize (runStaged perform body b).1.result = done at closes ok
    cases closes with
    | failed value => cases ok
    | refused => cases ok
    | committed value _ => cases ok; exact value ▸ ended

end Bank
end Teller
