import Teller.Proofs.BankScript
import Teller.Proofs.Serializability

/-! Units of work on one bank, with their operations in any order. Users and sessions are never deleted,
and the outbox is read only as a whole, so that the one case that a commit does not notice cannot arise:
whatever a unit of work was answered, it would be answered alone just before its commit. -/
namespace Teller
open Transaction (Op Act Underway Steady Told)

namespace Transaction

def Customary : Op → Prop
  | .get row => row.table ≠ Query.outbox
  | .delete row => row.table = Query.outbox
  | .scan _ | .put _ _ => True

theorem steadyOfLasting {s : State} {v : Underway} (dated : s.Dated) (told : Told s v)
    (checked : v.txn.isStale s = false) (lasting : ∀ a ∈ v.acts, ∀ r, a.Finds r → s.value? r ≠ none) :
    Steady v.acts := by
  obtain ⟨rows, _⟩ := freshIff.mp checked
  refine List.pairwise_of_forall_mem_list fun a ha b hb r misses finds => ?_
  have present := lasting b hb r finds
  cases noted : v.txn.reads.get? r with
  | none => exact told.unread r noted a ha misses.1
  | some seen =>
    rcases Nat.eq_zero_or_pos seen with zero | pos
    · subst zero
      exact present ((valueMissing dated).mp (rows r 0 noted))
    · have same := (told.found r seen noted pos).2 (rows r seen noted) a ha misses.1
      rw [redoReads misses.1] at same
      have held := (congrArg Act.reply same).trans misses.2
      exact present (Reply.value.inj held)

end Transaction

open Transaction (Customary)

theorem Query.customary (now : Moment) (q : Ask) :
    (q.query now).Keeps (fun (_ : Unit) op _ => Customary op) fun _ _ => True := by
  have loading {α : Type} (codec : Json.Codec α) {row : RowId} (apart : row.table ≠ outbox) :
      (load codec row : Query Empty Empty α).Keeps (fun (_ : Unit) op _ => Customary op) fun _ _ => True :=
    keepsLoading codec fun _ => apart
  intro _ staged _
  have user : users ≠ outbox := by decide
  have session : sessions ≠ outbox := by decide
  cases q with
  | createUser new =>
    rw [Ask.query, createUserRun]
    refine ⟨(), user, fun held => ?_⟩
    cases held with
    | none => exact ⟨(), trivial, trivial⟩
    | some value => trivial
  | getUser username => exact loading _ user () staged trivial
  | createSession new =>
    rw [Ask.query, createSessionRun]
    refine ⟨(), session, fun held => ?_⟩
    cases held with
    | none => exact ⟨(), trivial, trivial⟩
    | some value => trivial
  | getSession id => exact loading _ session () staged trivial
  | setBlocked id blocked =>
    rw [Ask.query, setBlockedRun]
    refine Work.keepsBind (Work.keepsMono (keepsLoad Session.codec session staged) ?_)
    intro g r _
    rcases r with e | ⟨value, later⟩
    · trivial
    · exact ⟨(), trivial, trivial⟩
  | insertOutbox task =>
    rw [Ask.query, insertOutboxRun]
    exact ⟨(), trivial, trivial⟩
  | listOutbox =>
    rw [Ask.query, listOutboxRun]
    exact ⟨(), trivial, fun _ => trivial⟩
  | deleteOutbox id =>
    rw [Ask.query, deleteOutboxRun]
    exact ⟨(), rfl, trivial⟩

theorem Bank.runStagedOnce {Event Answer α : Type} {perform : Event → Bank → Answer × Bank}
    {body : Nat → Query Event Answer α} {b : Bank} {result t} (room : b.running < b.plan.store.room)
    (ran : ∀ s : Bank, s.accounts = b.accounts.begin.2 →
      ((body 0).run []).run (accountsHost perform) b.accounts.begin.1 s = (.ok result, t, s))
    (ok : (b.accounts.begin.2.commit t).1 = .ok ()) :
    runStaged perform body b =
      (⟨.ok result, [.ok result]⟩, { b with accounts := (b.accounts.begin.2.commit t).2 }) := by
  have first : ((body 0).run []).firstRun (accountsHost perform) { b with running := b.running + 1 } =
    (.ok result, t, { b with running := b.running + 1, accounts := b.accounts.begin.2 }) := ran _ rfl
  unfold runStaged
  rw [if_pos room]
  rcases Work.transactCases (accountsHost perform) (fun e => .failed (.ofCommit e))
    (fun before => (body before).run []) b.plan.store.retries 0 _ first with ⟨_, h, _⟩ |
      ⟨_, db, h, committed, done⟩ | ⟨_, _, _, _, committed, _⟩ | ⟨_, _, _, _, committed, _⟩
  · cases h
  · cases h
    obtain rfl : (b.accounts.begin.2.commit t).2 = db := congrArg Prod.snd committed
    rw [done]
    rfl
  · cases ok.symm.trans (congrArg Prod.fst committed)
  · cases ok.symm.trans (congrArg Prod.fst committed)

structure Attempt where
  {α : Type}
  script : Script α
  now : Moment
  rest : Work Empty Empty (Stop StoreError) ((α × List Answered) × List OutboxEntry)

def Attempt.begin {α : Type} (script : Script α) (now : Moment) : Attempt :=
  ⟨script, now, (script.body now).run []⟩

structure SharedStore where
  shared : SharedDatabase
  attempts : Nat → Option Attempt

namespace SharedStore

inductive Move where
  | begin (who : Nat) {α : Type} (script : Script α) (now : Moment)
  | act (who : Nat)
  | commit (who : Nat)
  | leave (who : Nat)
  | checkpoint
  | block (on : Bool)

def start (db : Database) : SharedStore := ⟨.start db, fun _ => none⟩

def step (c : SharedStore) : Move → SharedStore
  | .begin who script now =>
      ⟨c.shared.step (.begin who), setAt c.attempts who (some (.begin script now))⟩
  | .act who => match c.attempts who, c.shared.underway who with
    | some a, some v => match a.rest.ask with
      | some op =>
          let rest := a.rest.told (v.txn.perform c.shared.db.state op).1
          ⟨c.shared.step (.act who op), setAt c.attempts who (some { a with rest })⟩
      | none => c
    | _, _ => c
  | .commit who => match (c.attempts who).bind (·.rest.result?.map fun _ => ()) with
    | some () => ⟨c.shared.step (.commit who), setAt c.attempts who none⟩
    | none => c
  | .leave who => ⟨c.shared.step (.leave who), setAt c.attempts who none⟩
  | .checkpoint => { c with shared := c.shared.step .checkpoint }
  | .block on => { c with shared := c.shared.step (.block on) }

def run (c : SharedStore) (moves : List Move) : SharedStore := moves.foldl step c

structure Works (s : State) (a : Attempt) (v : Underway) : Prop where
  led : ((a.script.body a.now).run []).Leads v.acts a.rest
  customary : a.rest.Keeps (fun (_ : Unit) op _ => Customary op) (fun _ _ => True) ()
  lasting : ∀ x ∈ v.acts, ∀ r, x.Finds r → r.table ≠ Query.outbox ∧ s.value? r ≠ none
  erased : ∀ r, v.txn.writes.get? r = some none → r.table = Query.outbox

theorem worksBegin {α : Type} (s : State) (script : Script α) (now : Moment) (id : UInt64) :
    Works s (.begin script now) ⟨⟨id, ∅, ∅, ∅⟩, []⟩ where
  led := .nil
  customary := Work.keepsMono (Script.keepsBody (fun q _ => Query.customary now q) script.asksAny trivial)
    fun _ _ _ => trivial
  lasting _ mem := by simp at mem
  erased _ h := by simp at h

theorem worksAct {s : State} {a : Attempt} {v : Underway} {op : Op} (h : Works s a v)
    (asked : a.rest.ask = some op) :
    Works s { a with rest := a.rest.told (v.txn.perform s op).1 } (v.act s op) := by
  obtain ⟨_, allowed, rest⟩ := Work.keepsTold h.customary asked
  refine ⟨.snoc h.led asked, rest _ _, ?_, ?_⟩
  · intro x mem r finds
    rw [Transaction.actsOf] at mem
    rcases List.mem_append.mp mem with mem | mem
    · exact h.lasting x mem r finds
    · cases List.mem_singleton.mp mem
      obtain ⟨⟨rfl, buffer⟩, value, found⟩ := finds
      refine ⟨allowed, fun missing => ?_⟩
      simp [Transaction.reply, buffer, missing] at found
  · intro r gone
    have gone : (v.txn.perform s op).2.writes.get? r = some none := gone
    rw [Transaction.performWrites] at gone
    cases op with
    | get row => exact h.erased r gone
    | scan table => exact h.erased r gone
    | put row value =>
      rw [Transaction.buffered, SortedMap.getInsert] at gone
      split at gone
      · cases gone
      · exact h.erased r gone
    | delete row =>
      rw [Transaction.buffered, SortedMap.getInsert] at gone
      split at gone
      · rename_i same; subst same; exact allowed
      · exact h.erased r gone

theorem worksCommit {db : Database} {a b : Attempt} {v w : Underway} (h : Works db.state a v)
    (other : Works db.state b w) : Works (db.commit w.txn).2.state a v where
  led := h.led
  customary := h.customary
  erased := h.erased
  lasting x mem r finds := by
    obtain ⟨inside, present⟩ := h.lasting x mem r finds
    refine ⟨inside, ?_⟩
    rcases Database.commitState db w.txn with same | applied
    · rw [same]; exact present
    · rw [applied, Transaction.valueAfter]
      cases buffer : w.txn.writes.get? r with
      | none => exact present
      | some left =>
        cases left with
        | none => exact absurd (other.erased r buffer) inside
        | some value => simp

structure Steadfast (c : SharedStore) : Prop where
  kept : c.shared.Kept
  works : ∀ {who a}, c.attempts who = some a →
    ∃ v, c.shared.underway who = some v ∧ Works c.shared.db.state a v

theorem steadfastStart {db : Database} (h : db.Opened) : (start db).Steadfast where
  kept := SharedDatabase.keptStart h
  works found := by cases found

theorem steadfastWith {c : SharedStore} (h : c.Steadfast) (who : Nat) (ongoing : Option Underway)
    {shared : SharedDatabase} {attempt : Option Attempt} (kept : shared.Kept)
    (underway : shared.underway = setAt c.shared.underway who ongoing)
    (others : ∀ {a v}, Works c.shared.db.state a v → Works shared.db.state a v)
    (own : ∀ a, attempt = some a → ∃ v, ongoing = some v ∧ Works shared.db.state a v) :
    Steadfast ⟨shared, setAt c.attempts who attempt⟩ where
  kept := kept
  works {other a} found := by
    dsimp only at found ⊢
    rw [underway]
    by_cases same : other = who
    · subst same
      rw [setAtSelf] at found ⊢
      exact own a found
    · rw [setAtOther same] at found ⊢
      obtain ⟨v, ongoing, works⟩ := h.works found
      exact ⟨v, ongoing, others works⟩

theorem steadfastStep {c : SharedStore} (h : c.Steadfast) (m : Move) : (c.step m).Steadfast := by
  cases m with
  | begin who script now =>
    refine steadfastWith h who (some _) (SharedDatabase.keptStep h.kept (.begin who)) rfl id ?_
    intro a same
    cases same
    exact ⟨_, rfl, worksBegin ..⟩
  | act who =>
    simp only [step]
    split
    · rename_i a v attempt ongoing
      split
      · rename_i op asked
        obtain ⟨_, ongoing', works⟩ := h.works attempt
        cases ongoing.symm.trans ongoing'
        refine steadfastWith h who (some (v.act c.shared.db.state op))
          (SharedDatabase.keptStep h.kept (.act who op)) ?_ ?_ ?_
        · simp only [SharedDatabase.step, ongoing]
        · simp only [SharedDatabase.step, ongoing]; exact id
        · intro _ same
          cases same
          simp only [SharedDatabase.step, ongoing]
          exact ⟨_, rfl, worksAct works asked⟩
      · exact h
    · exact h
  | commit who =>
    simp only [step]
    split
    · rename_i ended
      obtain ⟨a, attempt, _⟩ := Option.bind_eq_some_iff.mp ended
      obtain ⟨v, ongoing, works⟩ := h.works attempt
      refine steadfastWith h who none (SharedDatabase.keptStep h.kept (.commit who)) ?_ ?_ ?_
      · simp only [SharedDatabase.step, ongoing]
      · simp only [SharedDatabase.step, ongoing]; exact fun other => worksCommit other works
      · intro _ same
        cases same
    · exact h
  | leave who =>
    refine steadfastWith h who none (SharedDatabase.keptStep h.kept (.leave who)) rfl id ?_
    intro _ same
    cases same
  | checkpoint =>
    refine ⟨SharedDatabase.keptStep h.kept .checkpoint, fun found => ?_⟩
    simpa [step, SharedDatabase.step] using h.works found
  | block on =>
    refine ⟨SharedDatabase.keptStep h.kept (.block on), fun found => ?_⟩
    simpa [step, SharedDatabase.step] using h.works found

theorem steadfastRun {c : SharedStore} (h : c.Steadfast) (moves : List Move) : (c.run moves).Steadfast := by
  induction moves generalizing c with
  | nil => exact h
  | cons m moves ih => exact ih (steadfastStep h m)

/-- An attempt that commits might have run its body alone on the bank as it was just before: every query is
answered as it was, the result is the same, and so are the rows, where just the attempt's writes are added. -/
theorem committedAttemptRunsAlone {db : Database} (opened : db.Opened) (moves : List Move) {who : Nat}
    {a : Attempt} {v : Underway} {result} (attempt : ((start db).run moves).attempts who = some a)
    (ongoing : ((start db).run moves).shared.underway who = some v) (ended : a.rest.result? = some result)
    (ok : (((start db).run moves).shared.db.commit v.txn).1 = .ok ())
    {b : Bank} (here : b.accounts = ((start db).run moves).shared.db) (room : b.running < b.plan.store.room) :
    let alone := b.runQuery (a.script.body a.now)
    let after := (((start db).run moves).shared.db.commit v.txn).2.state
    alone.1.result = .ok result ∧ alone.1.runs = [.ok result] ∧ alone.2.accounts.state = after ∧
      ∀ r, after.value? r = (v.txn.writes.get? r).getD (b.accounts.state.value? r) := by
  have steadfast := steadfastRun (steadfastStart opened) moves
  generalize (start db).run moves = c at *
  obtain ⟨_, ongoing', works⟩ := steadfast.works attempt
  cases ongoing.symm.trans ongoing'
  have steady := Transaction.steadyOfLasting steadfast.kept.dated (steadfast.kept.told ongoing)
    (Database.commitChecked ok) fun x mem r finds => (works.lasting x mem r finds).2
  obtain ⟨same, -, committed, state⟩ := SharedDatabase.keptCommit steadfast.kept ongoing ok
  have ran (perform : Empty → Bank → Empty × Bank) (s : Bank) (rows : s.accounts = b.accounts.begin.2) :
      ((a.script.body a.now).run []).run (Bank.accountsHost perform) b.accounts.begin.1 s =
        (.ok result, (Underway.alone b.accounts (v.acts.map (·.op))).1.txn, s) := by
    have state : ((Bank.accountsHost perform).database s).state = b.accounts.state := by
      show s.accounts.state = _
      rw [rows]
      rfl
    have path := Work.runLed (Bank.accountsHost perform) works.led b.accounts.begin.1 s
    rw [Work.resultIff.mp ended, state, here] at path
    rw [here, path (same.mpr steady)]
    rfl
  unfold Bank.runQuery
  rw [Bank.runStagedOnce room (ran _) (by rw [here]; exact committed)]
  refine ⟨rfl, rfl, by rw [here]; exact state, fun r => ?_⟩
  rw [here]
  exact Database.valueAfterCommit ok r

def aroundAnother (username : String) (other : NewUser) (id : Uuid) (now : Moment) : List Move :=
  let deletion : Script Unit := .ask (.deleteOutbox id) fun _ => .finish (.ok ())
  [.begin 0 (.ask (.getUser username) fun _ => .ask (.getUser username) fun _ => deletion) now, .act 0,
    .begin 1 (.ask (.createUser other) fun _ => .finish (.ok ())) now, .act 1, .act 1, .commit 1,
    .act 0, .act 0]

theorem committedAttemptRunsAloneAroundAnother :
    let moves := aroundAnother "ann" ⟨"bob", .depositor, "", "", ""⟩ (Uuid.versionFour 0) .epoch
    let c := (start .inMemory).run moves
    let b : Bank := { plan := {}, accounts := c.shared.db }
    ∃ a v result, c.attempts 0 = some a ∧ c.shared.underway 0 = some v ∧ a.rest.result? = some result ∧
      (c.shared.db.commit v.txn).1 = .ok () ∧ b.running < b.plan.store.room ∧
      let alone := b.runQuery (a.script.body a.now)
      let after := (c.shared.db.commit v.txn).2.state
      alone.1.result = .ok result ∧ alone.1.runs = [.ok result] ∧ alone.2.accounts.state = after ∧
        ∀ r, after.value? r = (v.txn.writes.get? r).getD (b.accounts.state.value? r) := by
  intro moves c b
  have ended : (c.attempts 0).any (·.rest.result?.isSome) = true := by decide +kernel
  have committed : (c.shared.underway 0).any (fun v => (c.shared.db.commit v.txn).1 = .ok ()) = true := by
    decide +kernel
  obtain ⟨a, attempt, ended⟩ := (Option.any_eq_true _ _).mp ended
  obtain ⟨v, ongoing, ok⟩ := (Option.any_eq_true _ _).mp committed
  obtain ⟨result, ended⟩ := Option.isSome_iff_exists.mp ended
  exact ⟨a, v, result, attempt, ongoing, ended, of_decide_eq_true ok, by decide,
    committedAttemptRunsAlone .inMemory moves attempt ongoing ended (of_decide_eq_true ok) rfl (by decide)⟩

end SharedStore
end Teller
