import Teller.Bank.Registration
import Teller.Proofs.Answers
import Teller.Proofs.Recoverable

/-! The users and the sessions of a bank over its whole life. Calls run their units of work among those of others and
try again after a conflict; whoever has committed hands over what was staged. The accounts may be opened again at any
time. -/
namespace Teller
open Query (users outbox userRow sessionRow outboxRow)

namespace Script

def stage (user : User) : List NewTask → List OutboxEntry → Script (User × List OutboxEntry)
  | [], entries => .finish (.ok (user, entries))
  | task :: tasks, entries => .ask (.insertOutbox task) fun
      | .ok entry => stage user tasks (entries ++ [entry])
      | .error e => .finish (.error e)

def registration (new : NewUser) (follow : User → Except (Stop StoreError) (List NewTask)) :
    Script (User × List OutboxEntry) :=
  .ask (.createUser new) fun
    | .error e => .finish (.error e)
    | .ok user => match follow user with
      | .error e => .finish (.error (Query.afterFailure e))
      | .ok tasks => stage user tasks []

def plain {α β : Type} (w : Work Empty Empty (Stop StoreError) ((α × β) × List OutboxEntry)) :
    Work Empty Empty (Stop StoreError) (α × List OutboxEntry) :=
  w.bind fun ((value, _), staged) => .done (.ok (value, staged))

theorem plainNext {α : Type} (w : Work Empty Empty (Stop StoreError) ((α × List Answered) × List OutboxEntry))
    (x : Answered) :
    plain (w.bind fun ((value, later), staged) => .done (.ok ((value, x :: later), staged))) = plain w :=
  Work.bindAssoc w _ _

theorem stageRun (now : Moment) (user : User) (tasks : List NewTask) (entries staged : List OutboxEntry) :
    plain (((stage user tasks entries).body now).run staged) =
      ((tasks.mapM (Query.insertOutbox now)).run staged).bind fun (later, staged) =>
        .done (.ok ((user, entries ++ later), staged)) := by
  induction tasks generalizing entries staged with
  | nil =>
    rw [List.mapM_nil]
    show Work.done (.ok ((user, entries), staged)) = Work.done (.ok ((user, entries ++ []), staged))
    rw [List.append_nil]
  | cons task tasks ih =>
    rw [List.mapM_cons, StateT.run_bind, Query.insertOutboxRun]
    refine congrArg (Work.put _ _) ((plainNext _ _).trans ((ih _ _).trans ?_))
    show _ = ((StateT.run (tasks.mapM (Query.insertOutbox now)) _ >>= fun p => _).bind _)
    refine Eq.trans ?_ (Work.bindAssoc _ _ _).symm
    refine congrArg (Work.bind _) (funext fun p => ?_)
    show Work.done (.ok ((user, entries ++ [_] ++ p.1), p.2)) = Work.done (.ok ((user, entries ++ _ :: p.1), p.2))
    rw [List.append_assoc, List.singleton_append]

theorem registrationRun (now : Moment) (new : NewUser) (follow : User → Except (Stop StoreError) (List NewTask))
    (staged : List OutboxEntry) :
    plain (((registration new follow).body now).run staged) =
      (Query.createUserWith now new fun user => StateT.lift (Work.ofExcept (follow user))).run staged := by
  refine congrArg (Work.get _) (funext fun held => ?_)
  cases held with
  | some value => rfl
  | none =>
    refine congrArg (Work.put _ _) ((plainNext _ _).trans ?_)
    show _ = (do
      let tasks ← tryCatch (StateT.lift (Work.ofExcept (follow (User.create new now)))) fun e =>
        throw (Query.afterFailure e)
      return (User.create new now, ← tasks.mapM (Query.insertOutbox now)) :
        Query Empty Empty (User × List OutboxEntry)).run staged
    dsimp only
    cases follow (User.create new now) with
    | error e => rfl
    | ok tasks => exact stageRun now _ tasks [] staged

theorem registrationRan {new : NewUser} {follow : User → Except (Stop StoreError) (List NewTask)}
    {answers : List Answered} {value} (ran : (registration new follow).Ran answers value) :
    ∃ user, ⟨.createUser new, .ok user⟩ ∈ answers := by
  cases ran with
  | @ask _ _ answer _ _ rest =>
    cases answer with
    | error e => cases rest
    | ok user => exact ⟨user, List.mem_cons_self⟩

end Script

structure Call where
  {α : Type}
  runs : Nat → Script α

def Call.register (new : NewUser) (follow : Nat → User → Except (Stop StoreError) (List NewTask)) : Call :=
  ⟨fun n => Script.registration new (follow n)⟩

def Call.look (name : String) : Call := ⟨fun _ => .ask (.getUser name) .finish⟩

/-- How far a call has come. What it returns is noted once that is certain, should it get to return at all. -/
structure Course where
  call : Call
  retries : Nat
  run : Nat := 0
  outcome : Option (Except (Stop StoreError) Unit) := none

structure Committed where
  who : Nat
  answers : List Answered
  staged : List OutboxEntry

structure Registry where
  store : SharedStore
  isOpen : Bool
  courses : Nat → Option Course := fun _ => none
  history : List Committed := []
  accepted : List NewTask := []

def SharedStore.Move.commits : SharedStore.Move → Bool
  | .commit _ => true
  | _ => false

namespace Registry

abbrev db (r : Registry) : Database := r.store.shared.db

def log (r : Registry) : List Answered := r.history.flatMap (·.answers)

def inHand (r : Registry) : List OutboxEntry :=
  r.history.flatMap (·.staged) ++ r.log.flatMap Answered.listed

inductive Event where
  | call (who : Nat) (call : Call) (retries : Nat) (now : Moment)
  | crowd (who : Nat) (call : Call)
  | act (who : Nat)
  | conclude (who : Nat) (now : Moment)
  | leave (who : Nat)
  | offer (entry : OutboxEntry) (broker : Bank)
  | checkpoint
  | block (on : Bool)
  | reopen (policy : CheckpointPolicy) (torn : Journal.Record) (k : Nat)

def start (durable : Bool) : Registry := if durable then ⟨.start .unopened, false, fun _ => none, [], []⟩
  else ⟨.start .inMemory, true, fun _ => none, [], []⟩

def begin (r : Registry) (who : Nat) (c : Course) (now : Moment) : Registry := { r with
  store := r.store.step (.begin who (c.call.runs c.run) now), courses := setAt r.courses who (some c) }

def returned (r : Registry) (move : SharedStore.Move) (who : Nat) (c : Course)
    (outcome : Except (Stop StoreError) Unit) :
    Registry := { r with
  store := r.store.step move, courses := setAt r.courses who (some { c with outcome := some outcome }) }

def conclude (r : Registry) (who : Nat) (now : Moment) (c : Course) (a : Attempt) (t : Transaction) : Registry :=
  match a.rest with
  | .done (.error e) => r.returned (.leave who) who c (.error e)
  | .done (.ok ((_, answers), staged)) => match (r.db.commit t).1, c.retries with
    | .ok (), _ => { r.returned (.commit who) who c (.ok ()) with history := r.history ++ [⟨who, answers, staged⟩] }
    | .error .conflict, retries + 1 => r.begin who { c with retries, run := c.run + 1 } now
    | .error cause, _ => r.returned (.leave who) who c (.error (.failed (.ofCommit cause)))
  | _ => r

def act (r : Registry) : Event → Registry
  | .call who call retries now => match r.courses who with
    | none => r.begin who { call, retries } now
    | some _ => r
  | .crowd who call => match r.courses who with
    | none => { r with
        courses := setAt r.courses who (some { call, retries := 0, outcome := some (.error (.failed .crowded)) }) }
    | some _ => r
  | .act who => { r with store := r.store.step (.act who) }
  | .conclude who now => match r.courses who, r.store.attempts who, r.store.shared.underway who with
    | some c, some a, some v => r.conclude who now c a v.txn
    | _, _, _ => r
  | .leave who => { r with store := r.store.step (.leave who) }
  | .offer entry broker =>
      if entry ∈ r.inHand then match (broker.enqueueTask entry.task).1 with
        | .ok _ => { r with accepted := r.accepted ++ [entry.task] }
        | .error _ => r
      else r
  | .checkpoint => { r with store := r.store.step .checkpoint }
  | .block on => { r with store := r.store.step (.block on) }
  | .reopen policy torn k => match r.db.log with
    | some _ =>
        let found := r.db.reopen policy torn k
        { r with store := .start found.2, isOpen := found.1 }
    | none => r

def serves (r : Registry) : Event → Bool
  | .reopen .. => true
  | _ => r.isOpen

def step (r : Registry) (e : Event) : Registry := if r.serves e then r.act e else r

def run (r : Registry) (events : List Event) : Registry := events.foldl step r

def Lasting (db : Database) : Prop := db.log = none ∨ db.Recoverable

theorem lastingUsed {db db' : Database} {ready : Transaction → Prop} (h : Lasting db) (used : db.Used ready db')
    (fits : ∀ t, ready t → (db.commit t).1 = .ok () → ∀ w ∈ t.toWrites, w.NameFits) : Lasting db' := by
  refine h.imp (fun unlogged => ?_) fun recoverable => Database.recoverableUsed recoverable used fits
  cases used with
  | still => exact unlogged
  | begun => exact unlogged
  | @committed t own ok =>
    rcases Database.commitCases db t with ⟨-, same⟩ | ⟨-, -, same⟩ | ⟨-, -, cause, -, same⟩ | ⟨-, -, log, logged, same⟩
    · rw [same]; exact unlogged
    · rw [same]; exact unlogged
    · rw [same]; exact unlogged
    · rw [unlogged] at logged
      cases logged
      rw [same]
      rfl
  | checkpointed => rw [Database.checkpoint, unlogged]; exact unlogged
  | blocked on => rw [Database.block, Database.disk?, unlogged]; exact unlogged

structure Sound (r : Registry) : Prop where
  steadfast : r.store.Steadfast
  lasting : Lasting r.db
  recounted : Recounted (fun _ => none) r.log r.db.state.value?
  staged : ∀ u ∈ r.history, u.staged = u.answers.filterMap Answered.staged?
  underWay : ∀ who a, r.store.attempts who = some a → ∃ c, r.courses who = some c ∧ c.outcome = none ∧
    ∃ n now rest, a = ⟨c.call.runs n, now, rest⟩
  concluded : ∀ u ∈ r.history, ∃ c, r.courses u.who = some c ∧ c.outcome = some (.ok ()) ∧
    ∃ n value, (c.call.runs n).Ran u.answers value
  counted : ∀ who c, r.courses who = some c → c.outcome = some (.ok ()) → ∃ u ∈ r.history, u.who = who
  wanted : ∀ t ∈ r.accepted, ∃ u ∈ r.history, ∃ e ∈ u.staged, e.task = t

variable {r : Registry}

theorem steadfastDated {db : Database} (dated : db.state.Dated) : (SharedStore.start db).Steadfast :=
  ⟨⟨dated, fun found => by cases found⟩, fun found => by cases found⟩

theorem soundNew {db : Database} (dated : db.state.Dated) (lasting : Lasting db)
    (empty : db.state.value? = fun _ => none) (isOpen : Bool) : Sound { store := .start db, isOpen } where
  steadfast := steadfastDated dated
  lasting := lasting
  recounted := empty ▸ .nil
  staged _ mem := by cases mem
  underWay _ _ found := by cases found
  concluded _ mem := by cases mem
  counted _ _ found := by cases found
  wanted _ mem := by cases mem

theorem soundStart (durable : Bool) : (start durable).Sound := by
  cases durable with
  | true => exact soundNew State.datedEmpty (.inr Database.recoverableUnopened) rfl false
  | false => exact soundNew State.datedEmpty (.inl rfl) rfl true

theorem soundAside (h : r.Sound) {store : SharedStore} {courses : Nat → Option Course} (steadfast : store.Steadfast)
    (used : r.db.Used (fun _ => False) store.shared.db)
    (underWay : ∀ who a, store.attempts who = some a → ∃ c, courses who = some c ∧ c.outcome = none ∧
      ∃ n now rest, a = ⟨c.call.runs n, now, rest⟩)
    (kept : ∀ who c, c.outcome = some (.ok ()) → (courses who = some c ↔ r.courses who = some c)) :
    { r with store, courses }.Sound := by
  have same : store.shared.db.state = r.db.state := by
    rcases Database.usedCases used with same | ⟨_, own, -⟩
    · exact same
    · exact own.elim
  refine ⟨steadfast, lastingUsed h.lasting used fun _ own => own.elim, ?_, h.staged, underWay, fun u mem => ?_,
    fun who c course ok => h.counted who c ((kept who c ok).mp course) ok, h.wanted⟩
  · rw [db, same]
    exact h.recounted
  · obtain ⟨c, course, ok, ran⟩ := h.concluded u mem
    exact ⟨c, (kept u.who c ok).mpr course, ok, ran⟩

theorem usedAside (c : SharedStore) {move : SharedStore.Move} (aside : move.commits = false) :
    c.shared.db.Used (fun _ => False) (c.step move).shared.db := by
  cases move with
  | begin who script now => exact .begun
  | act who =>
    simp only [SharedStore.step]
    split
    · split
      · simp only [SharedDatabase.step]
        split <;> exact .still
      · exact .still
    · exact .still
  | commit who => cases aside
  | leave who => exact .still
  | checkpoint => exact .checkpointed
  | block on => exact .blocked on

theorem attemptsAct {c : SharedStore} {who other : Nat} {a : Attempt}
    (found : (c.step (.act who)).attempts other = some a) :
    ∃ before rest, c.attempts other = some before ∧ a = ⟨before.script, before.now, rest⟩ := by
  simp only [SharedStore.step] at found
  split at found
  · rename_i before v attempt ongoing
    split at found
    · dsimp only at found
      by_cases own : other = who
      · subst own
        rw [setAtSelf] at found
        cases found
        exact ⟨before, _, attempt, rfl⟩
      · rw [setAtOther own] at found
        exact ⟨a, a.rest, found, rfl⟩
    · exact ⟨a, a.rest, found, rfl⟩
  · exact ⟨a, a.rest, found, rfl⟩

theorem soundMoved (h : r.Sound) {move : SharedStore.Move} (aside : move.commits = false)
    (attempts : ∀ who a, (r.store.step move).attempts who = some a →
      ∃ before rest, r.store.attempts who = some before ∧ a = ⟨before.script, before.now, rest⟩) :
    { r with store := r.store.step move }.Sound := by
  refine soundAside h (SharedStore.steadfastStep h.steadfast move) (usedAside r.store aside) (fun who a found => ?_)
    fun _ _ _ => Iff.rfl
  obtain ⟨before, rest, attempt, rfl⟩ := attempts who a found
  obtain ⟨c, course, going, n, now, earlier, rfl⟩ := h.underWay who before attempt
  exact ⟨c, course, going, n, now, rest, rfl⟩

theorem setCourse {who : Nat} {c : Course} (going : c.outcome ≠ some (.ok ()))
    (before : ∀ d, r.courses who = some d → d.outcome ≠ some (.ok ())) (other : Nat) (d : Course)
    (ok : d.outcome = some (.ok ())) : setAt r.courses who (some c) other = some d ↔ r.courses other = some d := by
  by_cases own : other = who
  · subst own
    rw [setAtSelf]
    refine ⟨fun same => ?_, fun course => absurd ok (before d course)⟩
    cases same
    exact absurd ok going
  · rw [setAtOther own]

theorem soundBegin (h : r.Sound) {who : Nat} {c : Course} (going : c.outcome = none)
    (before : ∀ d, r.courses who = some d → d.outcome ≠ some (.ok ())) (now : Moment) : (r.begin who c now).Sound := by
  refine soundAside h (SharedStore.steadfastStep h.steadfast _) (usedAside r.store rfl)
    (setAtEach (fun other a apart found => ?_) fun a same => ?_) (setCourse (by rw [going]; exact nofun) before)
  · rw [setAtOther apart]
    exact h.underWay other a found
  · cases same
    rw [setAtSelf]
    exact ⟨c, rfl, going, c.run, now, _, rfl⟩

theorem soundFailed (h : r.Sound) {who : Nat} {c : Course}
    (before : ∀ d, r.courses who = some d → d.outcome ≠ some (.ok ())) (e : Stop StoreError) :
    (r.returned (.leave who) who c (.error e)).Sound := by
  refine soundAside h (SharedStore.steadfastStep h.steadfast _) (usedAside r.store rfl)
    (setAtEach (fun other a apart found => ?_) fun a same => by cases same) (setCourse nofun before)
  rw [setAtOther apart]
  exact h.underWay other a found

theorem stepCommitted {c : SharedStore} {who : Nat} {a : Attempt} {v : Transaction.Underway}
    (attempt : c.attempts who = some a)
    (ongoing : c.shared.underway who = some v) {result} (ended : a.rest = .done (.ok result)) :
    c.step (.commit who) =
      ⟨⟨(c.shared.db.commit v.txn).2, setAt c.shared.underway who none⟩, setAt c.attempts who none⟩ := by
  have finished : (c.attempts who).bind (·.rest.result?.map fun _ => ()) = some () := by
    rw [attempt, Option.bind_some, ended]
    rfl
  simp only [SharedStore.step, finished, SharedDatabase.step, ongoing]

theorem soundCommitted (h : r.Sound) {who : Nat} {c : Course} {a : Attempt} {v : Transaction.Underway}
    (course : r.courses who = some c) (attempt : r.store.attempts who = some a)
    (ongoing : r.store.shared.underway who = some v) {value : a.α} {answers : List Answered} {staged : List OutboxEntry}
    (ended : a.rest = .done (.ok ((value, answers), staged))) (ok : (r.db.commit v.txn).1 = .ok ()) :
    Sound { r.returned (.commit who) who c (.ok ()) with history := r.history ++ [⟨who, answers, staged⟩] } := by
  obtain ⟨ran, recounted, rfl, writes⟩ := SharedStore.recountedCommit h.steadfast attempt ongoing ended ok
  obtain ⟨d, same, going, n, now, rest, rfl⟩ := h.underWay who a attempt
  cases course.symm.trans same
  have after := stepCommitted attempt ongoing ended
  have fits : ∀ w ∈ v.txn.toWrites, w.NameFits := Transaction.namesFitWrites fun row left there => by
    obtain ⟨x, -, written⟩ := writes row left there
    rcases Answered.tableWritten written with table | table | table <;> rw [table] <;> decide
  -- Whoever has returned `Ok` is under way no more, and so it was another.
  have others {u : Committed} (mem : u ∈ r.history) : u.who ≠ who := by
    rintro rfl
    obtain ⟨d, found, ok, -⟩ := h.concluded u mem
    cases course.symm.trans found
    cases going.symm.trans ok
  refine ⟨SharedStore.steadfastStep h.steadfast (.commit who), ?_, ?_, fun u mem => ?_, ?_, fun u mem => ?_,
    fun other d found ok => ?_, fun t mem => ?_⟩
  · show Lasting (r.store.step (.commit who)).shared.db
    rw [after]
    have used : r.db.Used (· = v.txn) (r.db.commit v.txn).2 := .committed rfl ok
    refine lastingUsed h.lasting used fun t own _ => ?_
    rw [own]
    exact fits
  · show Recounted _ (List.flatMap _ _) (r.store.step (.commit who)).shared.db.state.value?
    rw [after, List.flatMap_append, List.flatMap_singleton]
    exact h.recounted.append recounted
  · rcases List.mem_append.mp mem with mem | mem
    · exact h.staged u mem
    · cases List.mem_singleton.mp mem
      rfl
  · show ∀ other b, (r.store.step (.commit who)).attempts other = some b → _
    rw [after]
    refine setAtEach (fun other b apart found => ?_) fun b same => by cases same
    obtain ⟨d, there, rest⟩ := h.underWay other b found
    exact ⟨d, (setAtOther apart _ _).trans there, rest⟩
  · rcases List.mem_append.mp mem with mem | mem
    · obtain ⟨d, found, rest⟩ := h.concluded u mem
      exact ⟨d, (setAtOther (others mem) _ _).trans found, rest⟩
    · cases List.mem_singleton.mp mem
      exact ⟨_, setAtSelf _ _ _, rfl, n, _, ran⟩
  · by_cases own : other = who
    · exact ⟨_, List.mem_append_right _ (List.mem_singleton_self _), own.symm⟩
    · obtain ⟨u, mem, same⟩ := h.counted other d ((setAtOther own _ _).symm.trans found) ok
      exact ⟨u, List.mem_append_left _ mem, same⟩
  · obtain ⟨u, mem, wanted⟩ := h.wanted t mem
    exact ⟨u, List.mem_append_left _ mem, wanted⟩

theorem soundOffered (h : r.Sound) {entry : OutboxEntry} (mem : entry ∈ r.inHand) :
    { r with accepted := r.accepted ++ [entry.task] }.Sound := by
  refine { h with wanted := fun t took => ?_ }
  rcases List.mem_append.mp took with took | took
  · exact h.wanted t took
  · cases List.mem_singleton.mp took
    rcases List.mem_append.mp mem with staged | listed
    · obtain ⟨u, known, mem⟩ := List.mem_flatMap.mp staged
      exact ⟨u, known, entry, mem, rfl⟩
    · obtain ⟨x, mem, staged⟩ := List.mem_filterMap.mp (h.recounted.listedStaged listed)
      obtain ⟨u, known, mem⟩ := List.mem_flatMap.mp mem
      exact ⟨u, known, entry, h.staged u known ▸ List.mem_filterMap.mpr ⟨x, mem, staged⟩, rfl⟩

theorem soundReopened (h : r.Sound) {db : Database} (dated : db.state.Dated) (lasting : Lasting db)
    (rows : db.state.value? = r.db.state.value?) (isOpen : Bool) : { r with store := .start db, isOpen }.Sound where
  steadfast := steadfastDated dated
  lasting := lasting
  recounted := rows ▸ h.recounted
  staged := h.staged
  underWay _ _ found := by cases found
  concluded := h.concluded
  counted := h.counted
  wanted := h.wanted

theorem soundConclude (h : r.Sound) {who : Nat} (now : Moment) {c : Course} {a : Attempt} {v : Transaction.Underway}
    (course : r.courses who = some c) (attempt : r.store.attempts who = some a)
    (ongoing : r.store.shared.underway who = some v) : (r.conclude who now c a v.txn).Sound := by
  obtain ⟨d, same, going, -⟩ := h.underWay who a attempt
  cases course.symm.trans same
  have before (d : Course) (found : r.courses who = some d) : d.outcome ≠ some (.ok ()) := by
    cases course.symm.trans found
    rw [going]
    exact nofun
  unfold conclude
  split
  · exact soundFailed h before _
  · rename_i value answers staged ended
    split
    · rename_i ok
      exact soundCommitted h course attempt ongoing ended ok
    · refine soundBegin h ?_ before now
      exact going
    · exact soundFailed h before _
  · exact h

theorem soundAct (h : r.Sound) (e : Event) : (r.act e).Sound := by
  cases e with
  | call who call retries now =>
    simp only [act]
    split
    · rename_i free
      exact soundBegin h rfl (fun d found => by cases free.symm.trans found) now
    · exact h
  | crowd who call =>
    simp only [act]
    split
    · rename_i free
      refine soundAside h h.steadfast .still (fun other a found => ?_)
        (setCourse nofun fun d found => by cases free.symm.trans found)
      obtain ⟨c, course, rest⟩ := h.underWay other a found
      have apart : other ≠ who := by
        rintro rfl
        cases free.symm.trans course
      exact ⟨c, (setAtOther apart _ _).trans course, rest⟩
    · exact h
  | act who => exact soundMoved h rfl fun _ _ => attemptsAct
  | conclude who now =>
    simp only [act]
    split
    · rename_i c a v course attempt ongoing
      exact soundConclude h now course attempt ongoing
    · exact h
  | leave who =>
    refine soundMoved h rfl (setAtEach (fun other a _ found => ?_) fun a same => by cases same)
    exact ⟨a, a.rest, found, rfl⟩
  | offer entry broker =>
    simp only [act]
    split
    · rename_i mem
      split
      · exact soundOffered h mem
      · exact h
    · exact h
  | checkpoint => exact soundMoved h rfl fun other a found => ⟨a, a.rest, found, rfl⟩
  | block on => exact soundMoved h rfl fun other a found => ⟨a, a.rest, found, rfl⟩
  | reopen policy torn k =>
    simp only [act]
    split
    · rename_i log logged
      have recoverable : r.db.Recoverable := h.lasting.resolve_left (by rw [logged]; exact nofun)
      obtain ⟨again, rows, dated⟩ := Database.reopenRecovers recoverable policy torn k
      exact soundReopened h (dated h.steadfast.kept.dated) (.inr again) rows _
    · exact h

theorem historyAct (r : Registry) (e : Event) : r.history <+: (r.act e).history := by
  cases e with
  | call who call retries now =>
    simp only [act]
    split <;> exact List.prefix_refl _
  | crowd who call =>
    simp only [act]
    split <;> exact List.prefix_refl _
  | conclude who now =>
    simp only [act]
    split
    · unfold conclude
      split
      · exact List.prefix_refl _
      · split
        · exact List.prefix_append _ _
        · exact List.prefix_refl _
        · exact List.prefix_refl _
      · exact List.prefix_refl _
    · exact List.prefix_refl _
  | offer entry broker =>
    simp only [act]
    split
    · split <;> exact List.prefix_refl _
    · exact List.prefix_refl _
  | reopen policy torn k =>
    simp only [act]
    split <;> exact List.prefix_refl _
  | _ => exact List.prefix_refl _

theorem soundStep (h : r.Sound) (e : Event) : (r.step e).Sound ∧ r.history <+: (r.step e).history := by
  unfold step
  split
  · exact ⟨soundAct h e, historyAct r e⟩
  · exact ⟨h, List.prefix_refl _⟩

theorem soundRun (h : r.Sound) (events : List Event) :
    (r.run events).Sound ∧ r.history <+: (r.run events).history := by
  induction events generalizing r with
  | nil => exact ⟨h, List.prefix_refl _⟩
  | cons e events ih =>
    obtain ⟨sound, grown⟩ := soundStep h e
    obtain ⟨still, longer⟩ := ih sound
    exact ⟨still, grown.trans longer⟩

theorem logGrows {later : Registry} (grown : r.history <+: later.history) : ∃ more, later.log = r.log ++ more ∧
    ∀ before x after, r.log = before ++ x :: after → later.log = before ++ x :: (after ++ more) := by
  obtain ⟨fresh, same⟩ := grown
  have longer : later.log = r.log ++ fresh.flatMap (·.answers) := by
    rw [log, ← same, List.flatMap_append]
    rfl
  refine ⟨_, longer, fun before x after split => ?_⟩
  rw [longer, split, List.append_assoc, List.cons_append]

end Registry
end Teller
