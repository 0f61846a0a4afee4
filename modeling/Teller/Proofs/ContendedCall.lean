import Teller.Bank.Broker
import Teller.Proofs.CallsInTurn

/-! A call of the broker among rivals. They are workers of the same broker, who may do whatever workers do
between any two operations of the call, before its first and before its commit, and so again in each of its
attempts. -/
namespace Teller
open Broker
open Transaction (Op Underway Told)

namespace Work
variable {Rivals ε α : Type}

/-- Whatever the rivals do at a place comes before the operation that stands there, or before the end. -/
def amid (gap : Nat → Rivals) : (place : Nat) → Work Empty Empty ε α → Work Rivals Unit ε α
  | n, done result => outside (gap n) fun _ => done result
  | n, get row next => outside (gap n) fun _ => get row fun held => (next held).amid gap (n + 1)
  | n, scan table next => outside (gap n) fun _ => scan table fun rows => (next rows).amid gap (n + 1)
  | n, put row value next => outside (gap n) fun _ => put row value (next.amid gap (n + 1))
  | n, delete row next => outside (gap n) fun _ => delete row (next.amid gap (n + 1))
  | n, fresh next => outside (gap n) fun _ => fresh fun id => (next id).amid gap (n + 1)
  | _, outside event _ => nomatch event

theorem keepsAmid {γ : Type} {may : γ → Op → γ → Prop} {ends : γ → Except ε α → Prop} {g : γ}
    {w : Work Empty Empty ε α} (h : w.Keeps may ends g) (gap : Nat → Rivals) (place : Nat) :
    (w.amid gap place).Keeps may ends g := by
  induction w generalizing g place with
  | done result => exact fun _ => h
  | get row next ih => obtain ⟨g', allowed, rest⟩ := h; exact fun _ => ⟨g', allowed, fun v => ih v (rest v) _⟩
  | scan table next ih => obtain ⟨g', allowed, rest⟩ := h; exact fun _ => ⟨g', allowed, fun v => ih v (rest v) _⟩
  | put row value next ih => obtain ⟨g', allowed, rest⟩ := h; exact fun _ => ⟨g', allowed, ih rest _⟩
  | delete row next ih => obtain ⟨g', allowed, rest⟩ := h; exact fun _ => ⟨g', allowed, ih rest _⟩
  | fresh next ih => exact fun _ id => ih id (h id) _
  | outside event next => exact nomatch event

end Work

structure ContendedCall where
  workers : SharedBroker
  supply : Supply

namespace ContendedCall

abbrev db (x : ContendedCall) : Database := x.workers.shared.db

def withDb (x : ContendedCall) (db : Database) : ContendedCall :=
  { x with workers := { x.workers with shared := { x.workers.shared with db } } }

def draw (x : ContendedCall) : Uuid × ContendedCall := (x.supply.id.1, { x with supply := x.supply.id.2 })

def rivals (x : ContendedCall) (moves : List SharedBroker.Move) : ContendedCall := { x with workers := x.workers.run moves }

def host : Host ContendedCall (List SharedBroker.Move) Unit := ⟨db, withDb, draw, fun moves x => ((), x.rivals moves)⟩

def attempt (x : ContendedCall) (request : Request) (gap : Nat → List SharedBroker.Move) :
    Except (Stop BrokerError) Reply × Transaction × ContendedCall :=
  ((request.body x.workers.limits).amid gap 0).firstRun host x

def serve (x : ContendedCall) (request : Request) (gap : (attempt place : Nat) → List SharedBroker.Move) :
    Transacted (Stop BrokerError) Reply × ContendedCall :=
  transact host (fun e => .failed (.ofCommit e)) (fun n => (request.body x.workers.limits).amid (gap n) 0)
    Broker.retries 0 x

inductive Beside (x : ContendedCall) : ContendedCall → Prop where
  | same : Beside x x
  | rivals {y} (moves : List SharedBroker.Move) (before : Beside x y) : Beside x (y.rivals moves)
  | draw {y} (before : Beside x y) : Beside x y.draw.2
  | begin {y} (before : Beside x y) : Beside x (y.withDb y.db.begin.2)

theorem besideTrans {x y z : ContendedCall} (h : x.Beside y) (later : y.Beside z) : x.Beside z := by
  induction later with
  | same => exact h
  | rivals moves _ ih => exact ih.rivals moves
  | draw _ ih => exact ih.draw
  | begin _ ih => exact ih.begin

def met (x : ContendedCall) (moves : List SharedBroker.Move) : ContendedCall := (x.withDb x.db.begin.2).rivals moves

def Sound (first : State) (x : ContendedCall) : Prop := x.workers.Orderly (fun _ _ => True) first

variable {first : State} {x y : ContendedCall} {v : Underway}

theorem soundSame (h : x.Sound first) {db : Database} (same : db.state = x.db.state) : (x.withDb db).Sound first := by
  obtain ⟨⟨kept, works, filed, rows, traced⟩, inTurn, begun, logged⟩ := h
  have state : (x.withDb db).workers.shared.db.state = x.workers.shared.db.state := same
  refine ⟨⟨⟨?_, fun found => ?_⟩, works, ?_, ?_, traced⟩, inTurn, begun, logged⟩
  · rw [state]; exact kept.dated
  · rw [state]; exact kept.told found
  · rw [state]; exact filed
  · rw [state]; exact rows

theorem soundRivals (h : x.Sound first) (moves : List SharedBroker.Move) : (x.rivals moves).Sound first :=
  SharedBroker.orderlyRun (fun _ _ _ _ => trivial) h
    (@SharedBroker.askingAlways (fun _ => True) moves (fun _ _ _ => trivial) x.workers)

theorem soundBeside (h : x.Sound first) (beside : x.Beside y) : y.Sound first := by
  induction beside with
  | same => exact h
  | rivals moves _ ih => exact soundRivals ih moves
  | draw _ ih => exact ih
  | begin _ ih => exact soundSame ih rfl

theorem limitsBeside (beside : x.Beside y) : y.workers.limits = x.workers.limits := by
  induction beside with
  | same => rfl
  | rivals moves _ ih => exact (SharedBroker.runLimits _ moves).trans ih
  | draw _ ih => exact ih
  | begin _ ih => exact ih

end ContendedCall

namespace SharedBroker

theorem toldStep {c : SharedBroker} {v : Underway} (told : Told c.shared.db.state v) (m : Move) :
    Told (c.step m).shared.db.state v := by
  cases m with
  | begin who request => exact told
  | act who drawn =>
    simp only [step]
    split
    · exact told
    · split
      · simp only [SharedDatabase.step]
        split <;> exact told
      · exact told
    · exact told
  | commit who =>
    simp only [step]
    split
    · split
      · simp only [SharedDatabase.step]
        split
        · exact SharedDatabase.toldCommit _ told
        · exact told
      · exact told
    · exact told
  | leave who => exact told
  | checkpoint => simpa [step, SharedDatabase.step] using told
  | block on => simpa [step, SharedDatabase.step] using told

theorem toldRun {c : SharedBroker} {v : Underway} (told : Told c.shared.db.state v) (moves : List Move) :
    Told (c.run moves).shared.db.state v := by
  induction moves generalizing c with
  | nil => exact told
  | cons m moves ih => exact ih (toldStep told m)

end SharedBroker

namespace ContendedCall
variable {first : State} {x y : ContendedCall} {v : Underway} {body rest : Body Empty Empty Reply}
  {gap : Nat → List SharedBroker.Move} {place : Nat}

structure Under (first : State) (body rest : Body Empty Empty Reply) (x : ContendedCall) (v : Underway) : Prop where
  sound : x.Sound first
  told : Told x.db.state v
  progress : Work.Progress body rest v

theorem underRivals (h : Under first body rest x v) (moves : List SharedBroker.Move) :
    Under first body rest (x.rivals moves) v :=
  ⟨soundRivals h.sound moves, SharedBroker.toldRun h.told moves, h.progress⟩

theorem underAct (h : Under first body rest x v) {op : Op} (asked : rest.ask = some op) :
    Under first body (rest.told (v.txn.perform x.db.state op).1) x (v.act x.db.state op) :=
  ⟨h.sound, Transaction.toldAct h.sound.sound.kept.dated h.told op, Work.progressAct h.progress asked x.db.state⟩

def Comes (first : State) (body : Body Empty Empty Reply) (x : ContendedCall)
    (out : Except (Stop BrokerError) Reply × Transaction × ContendedCall) : Prop :=
  ∃ v, out.2.1 = v.txn ∧ Under first body (.done out.1) out.2.2 v ∧ x.Beside out.2.2

theorem comesBehind {out : Except (Stop BrokerError) Reply × Transaction × ContendedCall} (beside : x.Beside y)
    (comes : Comes first body y out) : Comes first body x out := by
  obtain ⟨v, txn, under, later⟩ := comes
  exact ⟨v, txn, under, besideTrans beside later⟩

theorem amidComes (h : Under first body rest x v) : Comes first body x ((rest.amid gap place).run host v.txn x) := by
  induction rest generalizing x v place with
  | done result => exact ⟨v, rfl, underRivals h (gap place), .rivals _ .same⟩
  | get row next ih => exact comesBehind (.rivals _ .same) (ih _ (underAct (underRivals h (gap place)) rfl))
  | scan table next ih => exact comesBehind (.rivals _ .same) (ih _ (underAct (underRivals h (gap place)) rfl))
  | put row value next ih => exact comesBehind (.rivals _ .same) (ih (underAct (underRivals h (gap place)) rfl))
  | delete row next ih => exact comesBehind (.rivals _ .same) (ih (underAct (underRivals h (gap place)) rfl))
  | fresh next ih =>
    obtain ⟨sound, told, progress⟩ := underRivals h (gap place)
    have drew := Work.progressDrew progress (x.rivals (gap place)).draw.1
    exact comesBehind (.draw (.rivals _ .same)) (ih _ ⟨sound, told, drew⟩)
  | outside event next => exact nomatch event

theorem attemptComes (h : x.Sound first) (request : Request) (gap : Nat → List SharedBroker.Move) :
    Comes first (request.body x.workers.limits) x (x.attempt request gap) := by
  have begun : Under first (request.body x.workers.limits) (request.body x.workers.limits) (x.withDb x.db.begin.2)
      ⟨x.db.begin.1, []⟩ :=
    ⟨soundSame h rfl, Transaction.toldBegin _ _, Work.progressBegin (keepsBody _ request) _⟩
  exact comesBehind (.begin .same) (amidComes begun)

theorem committedEnds {t : Transaction} {reply : Reply} (under : Under first body (.done (.ok reply)) y v)
    (txn : t = v.txn) (ok : (y.db.commit t).1 = .ok ()) : Work.Ends y.db.state ∅ body t.writes (.ok reply) := by
  subst txn
  let d : SharedDatabase := ⟨y.db, fun _ => some v⟩
  have kept : d.Kept := by
    refine ⟨under.sound.sound.kept.dated, fun found => ?_⟩
    cases found
    exact under.told
  have ongoing : d.underway 0 = some v := rfl
  have ends : Work.Ends d.db.state ∅ body v.txn.writes (.ok reply) :=
    Work.endsCommitted kept ongoing under.progress ok
  exact ends

end ContendedCall

namespace Broker
variable {Event Answer α : Type} {l : Lease} {request : Request}

def Lasting (w : Body Event Answer α) : Prop :=
  w.Keeps (fun (_ : Unit) _ _ => True) (fun _ result => result ≠ .error (.failed .leaseLost)) ()

theorem decodedLasting (value : Bytes) : decoded value ≠ .error (.failed .leaseLost) := by
  unfold decoded
  cases Json.decode TaskRecord.codec value.data.toList <;> exact fun same => by cases same

theorem decodedRowsLasting (rows : List (Bytes × Bytes)) : decodedRows rows ≠ .error (.failed .leaseLost) := by
  unfold decodedRows
  exact mapMNever (fun row => decodedLasting row.2) rows

theorem pruneLasting (limits : ArchiveLimits) (queue : String) (now : Moment) :
    Lasting (prune limits queue now : Body Event Answer Unit) := by
  have erasing (dropped : List (Moment × TaskRecord)) :
      Lasting (dropped.forM fun e => Work.erase ⟨archiveTable queue, e.2.id.key⟩ : Body Event Answer Unit) := by
    induction dropped with
    | nil => exact fun same => by cases same
    | cons e dropped ih => exact ⟨(), trivial, ih⟩
  unfold prune
  rw [scanArchiveRun]
  refine Work.keepsBind ⟨(), trivial, fun rows => ?_⟩
  have apart := decodedRowsLasting rows
  dsimp only
  cases read : decodedRows rows with
  | error e =>
    rw [read] at apart
    exact fun same => apart (congrArg Except.error (Except.error.inj same))
  | ok records => exact erasing _

theorem underRun (limits : ArchiveLimits) (under : request.under? = some l) :
    ∃ next : TaskRecord → Body Event Answer Reply,
      request.body limits = (leased l).bind next ∧ ∀ r, Lasting (next r) := by
  cases request with
  | enqueue r => cases under
  | lease queue now duration => cases under
  | extend l' deadline =>
    cases under
    exact ⟨_, extendRun limits l deadline, fun r => ⟨(), trivial, nofun⟩⟩
  | acknowledge l' =>
    cases under
    exact ⟨_, acknowledgeRun limits l, fun r => ⟨(), trivial, nofun⟩⟩
  | retry l' runAt error =>
    cases under
    refine ⟨_, retryRun limits l runAt error, fun r => ?_⟩
    split
    · exact nofun
    · exact ⟨(), trivial, nofun⟩
  | archive l' now error =>
    cases under
    refine ⟨_, archiveRun limits l now error, fun r => ?_⟩
    rw [putAwayRun]
    refine ⟨(), trivial, (), trivial, Work.keepsBind (Work.keepsMono (pruneLasting limits r.queue now) ?_)⟩
    intro _ result apart
    cases result with
    | error e => exact fun same => apart (congrArg Except.error (Except.error.inj same))
    | ok done => exact nofun

end Broker

namespace ContendedCall
variable {first : State} {x y : ContendedCall} {l : Lease} {request : Request}

def Holds (x : ContendedCall) (l : Lease) : Prop :=
  ∃ r expiry, x.db.state.queued l.queue l.taskId = some r ∧ r.state = .active l.leaseId expiry

theorem attemptUnder {next : TaskRecord → Body Empty Empty Reply}
    (body : request.body x.workers.limits = (leased l).bind next) (gap : Nat → List SharedBroker.Move) :
    x.attempt request gap = Work.run host
      ((match leasedIn l ((x.met (gap 0)).db.state.value? (leaseRow l)) with
        | .ok r => next r
        | .error e => .done (.error e) : Body Empty Empty Reply).amid gap 1)
      (x.db.begin.1.get (x.met (gap 0)).db.state (leaseRow l)).2 (x.met (gap 0)) := by
  rw [attempt, body, leasedRun]
  rfl

theorem attemptLost (h : x.Sound first) (under : request.under? = some l) (gap : Nat → List SharedBroker.Move) :
    (x.attempt request gap).1 = .error (.failed .leaseLost) ↔ ¬ (x.met (gap 0)).Holds l := by
  obtain ⟨next, body, lasting⟩ := underRun x.workers.limits under
  have begun : (x.withDb x.db.begin.2).Sound first := soundSame h rfl
  have sound : (x.met (gap 0)).Sound first := soundRivals begun (gap 0)
  have read := attemptUnder body gap
  rcases leasedInCases sound.sound.filed l with ⟨r, expiry, stored, active, _, found⟩ | ⟨missing, lost⟩
  · rw [read, found]
    obtain ⟨_, kept⟩ := Work.runEnds host (Work.keepsAmid (lasting r) gap 1)
      (x.db.begin.1.get (x.met (gap 0)).db.state (leaseRow l)).2 (x.met (gap 0))
    exact iff_of_false kept (not_not_intro ⟨r, expiry, stored, active⟩)
  · rw [read, lost]
    exact iff_of_true rfl missing

theorem turnRetries {call : Call} {queue : String} {id : Uuid} {r r' : TaskRecord}
    (turn : Turn call queue id (some r) (some r')) : r'.retried.toNat ≤ r.retried.toNat + 1 := by
  have more : (r.retried + 1).toNat ≤ r.retried.toNat + 1 := by
    rw [UInt32.toNat_add]
    exact Nat.mod_le _ _
  cases turn with
  | kept other => exact Nat.le_succ _
  | extended active => exact Nat.le_succ _
  | retried active => exact more
  | granted own ready due grants =>
    obtain ⟨leaseId, expiresAt, _, rfl⟩ := grants
    unfold reclaimed
    split
    · exact more
    · exact Nat.le_succ _

theorem retriedOver {l : Lease} {runAt : Moment} {error : String} {held left : Option TaskRecord}
    (turn : Turn ⟨.retry l runAt error, .done⟩ l.queue l.taskId held left) : ∃ r, held = some r ∧
      left = some { r with
        retried := r.retried + 1, notBefore := runAt, state := .pending, lastError := some error } := by
  generalize place : l.queue = queue, name : l.taskId = id at turn
  cases turn with
  | kept other => exact absurd ⟨place, name⟩ other
  | retried active => exact ⟨_, rfl, rfl⟩

theorem serveLast (h : x.Sound first) (request : Request) (gap : (attempt place : Nat) → List SharedBroker.Move) :
    ∃ n start value t left, (x.serve request gap).1.runs.length = n + 1 ∧ n ≤ Broker.retries ∧ x.Beside start ∧
      start.attempt request (gap n) = (value, t, left) ∧
      Work.Concludes host (fun e => .failed (.ofCommit e)) t left value (x.serve request gap).1.result
        (x.serve request gap).2 := by
  have same {n : Nat} {y : ContendedCall} (beside : x.Beside y) :
      y.attempt request (gap n) = ((request.body x.workers.limits).amid (gap n) 0).firstRun host y := by
    rw [attempt, limitsBeside beside]
  have kept {n : Nat} {y z : ContendedCall} {value t} (beside : x.Beside y)
      (ran : ((request.body x.workers.limits).amid (gap n) 0).firstRun host y = (value, t, z)) : x.Beside z := by
    obtain ⟨_, _, _, later⟩ := attemptComes (soundBeside h beside) request (gap n)
    rw [same beside, ran] at later
    exact besideTrans beside later
  obtain ⟨n, start, value, t, left, runs, few, beside, ran, ends⟩ :=
    Work.transactLast (fun e => .failed (.ofCommit e)) _ (show ∀ y, host.replace y (host.database y) = y from fun _ => rfl)
      kept Broker.retries 0 .same
  rw [Nat.zero_add] at ran
  exact ⟨n, start, value, t, left, runs, few, beside, (same beside).trans ran, ends⟩

theorem concludedLost {t : Transaction} {left : ContendedCall} {value result : Except (Stop BrokerError) Reply}
    (ends : Work.Concludes host (fun e => .failed (.ofCommit e)) t left value result y) :
    result = .error (.failed .leaseLost) ↔ value = .error (.failed .leaseLost) := by
  cases ends with
  | failed => exact Iff.rfl
  | committed commit => exact iff_of_false nofun nofun
  | @refused a cause commit => cases cause <;> exact iff_of_false nofun nofun

theorem turnsOnce {s s' : State} {writes : SortedMap RowId (Option Bytes)} {limits : ArchiveLimits} {reply : Reply}
    (filed : s.Filed) (after : s.After writes s')
    (ends : Work.Ends s ∅ (request.body limits : Body Empty Empty Reply) writes (.ok reply)) (queue : String)
    (id : Uuid) : Turn ⟨request, reply⟩ queue id (s.queued queue id) (s'.queued queue id) ∧
      ∀ r r', s.queued queue id = some r → s'.queued queue id = some r' → r'.retried.toNat ≤ r.retried.toNat + 1 := by
  obtain ⟨_, turns⟩ := turn filed after ends
  refine ⟨turns queue id, fun r r' before behind => ?_⟩
  have turned := turns queue id
  rw [before, behind] at turned
  exact turnRetries turned

/-- A call among rivals is tried eight times at most. Its last attempt begins with, and comes upon in the end, what
rivals alone have made of the rows. If the call fails, it is left at that. If it succeeds, the attempt has written
what it comes to alone there, and no task was tried more than once again by it. A lease is lost exactly if the task
was not active under it when the last attempt looked. -/
theorem takesEffectOnceOrNotAtAll (limits : ArchiveLimits) {db : Database} (opened : db.Opened) (filed : db.state.Filed)
    (moves : List SharedBroker.Move) (supply : Supply) (request : Request)
    (gap : (attempt place : Nat) → List SharedBroker.Move) :
    let x : ContendedCall := ⟨(SharedBroker.start limits db).run moves, supply⟩
    let out := x.serve request gap
    out.1.runs.length ≤ 8 ∧
    ∃ n start value t left, out.1.runs.length = n + 1 ∧ x.Beside start ∧
      start.attempt request (gap n) = (value, t, left) ∧ x.Beside left ∧
      rowsAfter db.state left.workers.log = left.db.state ∧ InTurn limits db.state left.workers.log ∧
      (∀ e, out.1.result = .error e → out.2 = left) ∧
      (∀ reply, out.1.result = .ok reply →
        value = .ok reply ∧ (left.db.commit t).1 = .ok () ∧ out.2 = left.withDb (left.db.commit t).2 ∧
        Work.Ends left.db.state ∅ (request.body limits : Body Empty Empty Reply) t.writes (.ok reply) ∧
        left.db.state.After t.writes out.2.db.state ∧
        ∀ queue id, Turn ⟨request, reply⟩ queue id (left.db.state.queued queue id) (out.2.db.state.queued queue id) ∧
          ∀ r r', left.db.state.queued queue id = some r → out.2.db.state.queued queue id = some r' →
            r'.retried.toNat ≤ r.retried.toNat + 1) ∧
      ∀ l, request.under? = some l →
        (out.1.result = .error (.failed .leaseLost) ↔ ¬ (start.met (gap n 0)).Holds l) := by
  intro x out
  have begins : Sound db.state ⟨SharedBroker.start limits db, supply⟩ :=
    ⟨SharedBroker.soundStart limits opened filed, trivial, fun _ _ _ => trivial, fun _ _ _ _ => trivial⟩
  have sound : x.Sound db.state := soundRivals begins moves
  have same : x.workers.limits = limits := SharedBroker.runLimits _ moves
  obtain ⟨n, start, value, t, left, runs, few, beside, ran, ends⟩ := serveLast sound request gap
  have startSound := soundBeside sound beside
  obtain ⟨v, txn, under, later⟩ := attemptComes startSound request (gap n)
  rw [ran] at txn under later
  rw [limitsBeside beside, same] at under
  have leftBeside := besideTrans beside later
  have inTurn := under.sound.inTurn
  rw [limitsBeside leftBeside, same] at inTurn
  refine ⟨?_, n, start, value, t, left, runs, beside, ran, leftBeside, under.sound.sound.rows, inTurn, ?_, ?_, ?_⟩
  · rw [runs]
    exact Nat.succ_le_succ few
  · intro e failed
    generalize out.1.result = result, out.2 = y at ends failed ⊢
    cases ends with
    | failed => rfl
    | committed commit => cases failed
    | refused commit => rfl
  · intro reply ended
    generalize out.1.result = result, out.2 = y at ends ended ⊢
    cases ends with
    | failed => cases ended
    | refused commit => cases ended
    | committed commit =>
      cases ended
      have alone := committedEnds under txn commit
      have after : left.db.state.After t.writes (left.db.commit t).2.state :=
        fun r => Database.valueAfterCommit commit r
      exact ⟨rfl, commit, rfl, alone, after, turnsOnce under.sound.sound.filed after alone⟩
  · intro l asked
    have lost := attemptLost startSound asked (gap n)
    rw [ran] at lost
    exact (concludedLost ends).trans lost

open SharedBroker (letter minute firstLease)

def leasing : List SharedBroker.Move :=
  let act (who : Nat) : SharedBroker.Move := .act who (.versionFour who)
  [.begin 0 (.enqueue letter), act 0, act 0, act 0, .commit 0, .begin 1 (.lease "mail" .epoch minute),
    act 1, act 1, act 1, .commit 1]

def extending : (attempt place : Nat) → List SharedBroker.Move
  | 0, 1 =>
      let act : SharedBroker.Move := .act 2 (.versionFour 2)
      [.begin 2 (.extend firstLease ⟨95000, by decide⟩), act, act, .commit 2]
  | _, _ => []

def afterLeasing : ContendedCall := ⟨(SharedBroker.start .standard .inMemory).run leasing, .counting⟩

def busy : Request := .retry firstLease ⟨70000, by decide⟩ "busy"

theorem takesEffectOnceBesideExtension :
    (afterLeasing.serve busy extending).1.runs.length = 2 ∧ (afterLeasing.serve busy extending).1.result = .ok .done ∧
    ∃ left r, afterLeasing.Beside left ∧ left.db.state.queued "mail" letter.id = some r ∧
      (afterLeasing.serve busy extending).2.db.state.queued "mail" letter.id = some { r with
        retried := r.retried + 1, notBefore := ⟨70000, by decide⟩, state := .pending, lastError := some "busy" } := by
  have filed : Database.inMemory.state.Filed := fun _ _ _ held => by cases held
  have told : ((afterLeasing.serve busy extending).1.runs.length, (afterLeasing.serve busy extending).1.result) =
      (2, .ok .done) := by decide +kernel
  obtain ⟨runs, ended⟩ := Prod.mk.inj told
  obtain ⟨_, n, start, value, t, left, _, _, _, beside, _, _, _, once, _⟩ :=
    takesEffectOnceOrNotAtAll .standard .inMemory filed leasing .counting busy extending
  have same : (⟨(SharedBroker.start .standard .inMemory).run leasing, .counting⟩ : ContendedCall) = afterLeasing := rfl
  rw [same] at once
  obtain ⟨_, _, _, _, _, turns⟩ := once .done ended
  obtain ⟨turn, _⟩ := turns firstLease.queue firstLease.taskId
  refine ⟨runs, ended, left, ?_⟩
  obtain ⟨r, here, after⟩ := retriedOver turn
  exact ⟨r, beside, here, after⟩

def asBank (x : ContendedCall) (b : Bank) : Bank := { b with queues := x.db, supply := x.supply }

theorem runUnrivalled (w : Body Empty Empty Reply) (place : Nat) (t : Transaction) (x : ContendedCall) (b : Bank) :
    w.run Bank.queuesHost t (x.asBank b) =
      (((w.amid (fun _ => []) place).run host t x).1, ((w.amid (fun _ => []) place).run host t x).2.1,
        ((w.amid (fun _ => []) place).run host t x).2.2.asBank b) := by
  induction w generalizing place t x with
  | done result => rfl
  | get row next ih => exact ih _ _ _ _
  | scan table next ih => exact ih _ _ _ _
  | put row value next ih => exact ih _ _ _
  | delete row next ih => exact ih _ _ _
  | fresh next ih => exact ih x.draw.1 (place + 1) t x.draw.2
  | outside event next => exact nomatch event

theorem transactUnrivalled (failure : CommitError → Stop BrokerError) (body : Body Empty Empty Reply)
    (retries before : Nat) (x : ContendedCall) (b : Bank) :
    transact Bank.queuesHost failure (fun _ => body) retries before (x.asBank b) =
      ((transact host failure (fun _ => body.amid (fun _ => []) 0) retries before x).1,
        (transact host failure (fun _ => body.amid (fun _ => []) 0) retries before x).2.asBank b) := by
  induction retries using Nat.strongRecOn generalizing before x with
  | ind retries ih =>
    rcases ran : (body.amid (fun _ => []) 0).firstRun host x with ⟨value, t, y⟩
    have alike : body.firstRun Bank.queuesHost (x.asBank b) = (value, t, y.asBank b) := by
      have run := runUnrivalled body 0 x.db.begin.1 (x.withDb x.db.begin.2) b
      unfold Work.firstRun at ran ⊢
      rw [show (body.amid (fun _ => []) 0).run host x.db.begin.1 (x.withDb x.db.begin.2) = (value, t, y) from ran] at run
      exact run
    rw [transact.eq_def, transact.eq_def host]
    unfold Work.firstRun at ran alike
    simp only [ran, alike]
    cases value with
    | error e => rfl
    | ok reply =>
      have same : Bank.queuesHost.database (y.asBank b) = host.database y := rfl
      rw [same]
      obtain ⟨committed, db⟩ := (host.database y).commit t
      rcases committed with cause | ⟨⟩
      · cases retries with
        | zero => cases cause <;> rfl
        | succ fewer =>
          cases cause with
          | conflict =>
            have later := ih fewer (Nat.lt_succ_self fewer) (before + 1) (y.withDb db)
            have left : Bank.queuesHost.replace (y.asBank b) db = (y.withDb db).asBank b := rfl
            simp only [left, later]
            rfl
          | poisoned | journal cause => rfl
      · rfl

theorem serveUnrivalled (x : ContendedCall) (request : Request) (b : Bank) :
    Bank.brokerRun (request.body x.workers.limits) (x.asBank b) =
      ((x.serve request fun _ _ => []).1.result, (x.serve request fun _ _ => []).2.asBank b) := by
  rw [Bank.brokerRun, transactUnrivalled]
  rfl

end ContendedCall
end Teller
