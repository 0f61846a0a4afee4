import Teller.Bank.Workshop
import Teller.Proofs.Accepted
import Teller.Proofs.Deadlines
import Teller.Proofs.Dispatch
import Teller.Proofs.Workers

/-! Leases of the length that the settings give. While a task is worked on its lease is extended from what the clock
then shows; the work breaks off over a date just where such a lease would end after the last moment. -/
namespace Teller
variable {Event Answer α σ : Type} {plan : Plan}

/-! ### The plan of a bank stays as it is -/

namespace Bank

theorem askPlan (request : BrokerRequest) (body : Broker.Body Empty Empty α) (b : Bank) :
    (ask request body b).2.plan = b.plan := by
  unfold ask
  split
  · rfl
  · exact Work.transactInvariant (I := fun c : Bank => c.plan = b.plan) (fun _ h => h) (fun e => nomatch e)
      (fun _ _ h => h) _ _ _ _ rfl

theorem runStagedPlan {perform : Event → Bank → Answer × Bank} (performs : ∀ e c, (perform e c).2.plan = c.plan)
    (body : Nat → Query Event Answer α) (b : Bank) : (runStaged perform body b).2.plan = b.plan := by
  have unit (entered : Bank) (same : entered.plan = b.plan) : (transact (accountsHost perform)
      (fun e => .failed (.ofCommit e)) (fun before => (body before).run []) b.plan.store.retries 0 entered).2.plan =
      b.plan :=
    Work.transactInvariant (I := fun c : Bank => c.plan = b.plan) (fun _ h => h)
      (fun e c h => (performs e c).trans h) (fun _ _ h => h) _ _ _ _ same
  unfold runStaged
  split
  · exact unit _ rfl
  · rfl

theorem enqueueTaskPlan (task : NewTask) (b : Bank) : (enqueueTask task b).2.plan = b.plan := by
  unfold enqueueTask
  split
  · rfl
  · exact askPlan _ _ _

theorem dispatchPlan (entries : List OutboxEntry) (b : Bank) : (dispatch entries b).2.plan = b.plan := by
  have cleared (id : Uuid) (c : Bank) : (clearOutbox id c).2.plan = c.plan := runStagedPlan (fun e => nomatch e) _ c
  exact handOverKeeps (I := fun c : Bank => c.plan = b.plan) (fun task c h => (enqueueTaskPlan task c).trans h)
    (fun id c h => (cleared id c).trans h) 0 entries rfl

theorem runPlan {perform : Event → Bank → Answer × Bank} (performs : ∀ e c, (perform e c).2.plan = c.plan)
    (body : Nat → Query Event Answer α) (b : Bank) : (run perform body b).2.plan = b.plan := by
  have stays := runStagedPlan performs body b
  unfold run
  generalize runStaged perform body b = out at stays ⊢
  obtain ⟨⟨_ | ⟨value, staged⟩, runs⟩, c⟩ := out
  · exact stays
  · have handed := (dispatchPlan staged c).trans stays
    dsimp only
    split
    · generalize dispatch staged c = out at handed ⊢
      obtain ⟨_ | _, d⟩ := out <;> exact handed
    · exact stays

theorem verifyEmailPlan (task : Task) (b : Bank) : (verifyEmail task b).2.plan = b.plan := by
  unfold verifyEmail
  split
  · rfl
  next mail _ =>
    have stays : (getUser mail.username b).2.plan = b.plan :=
      runPlan (fun e => nomatch e) _ b
    generalize getUser mail.username b = out at stays ⊢
    split <;> exact stays

theorem performPlan (deeds : List Deed) (b : Bank) : (perform deeds b).2.plan = b.plan := by
  fun_induction perform deeds b <;> simp_all

theorem handlePlan (task : Task) (b : Bank) : (handle task b).2.plan = b.plan := by
  unfold handle
  split
  · rfl
  · exact verifyEmailPlan task b
  · exact performPlan _ _

theorem settlePlan (leased : LeasedTask) (ended : Except TaskError Unit) (b : Bank) :
    (settle leased ended b).2.plan = b.plan := by
  obtain ⟨kind, runAt, b', -, plan, settled⟩ := Broker.settleAsks leased ended b
  rw [settled, askPlan, plan]

theorem leaseFromPlan (now : Moment) (queues : List String) (b : Bank) : (leaseFrom now queues b).2.plan = b.plan := by
  induction queues generalizing b with
  | nil => rfl
  | cons queue rest ih =>
    have first : (lease queue now b.plan.worker.lease b).2.plan = b.plan := askPlan _ _ _
    unfold leaseFrom
    split
    next c nothing =>
      rw [nothing] at first
      exact (ih c).trans first
    next => exact first

theorem leaseNextPlan (b : Bank) : (leaseNext b).2.plan = b.plan := leaseFromPlan _ _ _

end Bank

open Bank

abbrev noDate : Option (Except (Stop BrokerError) Settled) := some (.error (.overflow .date))

namespace Workshop
variable {w : Workshop} {leased : LeasedTask} {owner : Owner} {job : Job} {jobs : List Job}

def callers (jobs : List Job) : Nat := jobs.countP (·.owner = .caller)

theorem callersAppend (jobs more : List Job) : callers (jobs ++ more) = callers jobs + callers more :=
  List.countP_append

theorem callersNone (others : ∀ j ∈ jobs, j.owner ≠ .caller) : callers jobs = 0 := by
  simpa [callers, List.countP_eq_zero] using others

theorem callersLeft {left : Option Job} (same : ∀ j ∈ left, j.owner = owner) :
    callers left.toList ≤ if owner = .caller then 1 else 0 := by
  cases left with
  | none => exact Nat.zero_le _
  | some j =>
    rw [← same j rfl, callers, Option.toList_some, List.countP_singleton]
    split <;> simp_all

/-! ### A job goes on -/

structure Proceeds (w : Workshop) (owner : Owner) (out : Workshop × Option Job) : Prop where
  plan : out.1.bank.plan = w.bank.plan
  jobs : out.1.jobs = w.jobs
  left : ∀ j ∈ out.2, j.owner = owner
  aside : owner ≠ .caller → out.1.answer = w.answer
  answer : w.answer ≠ noDate → out.1.answer ≠ noDate

theorem proceeds (w : Workshop) (leased : LeasedTask) (owner : Owner) (beatAt : Nat) {step : Progress × Bank}
    (stays : step.2.plan = w.bank.plan) : Proceeds w owner (proceed leased owner beatAt step w) := by
  obtain ⟨progress, bank⟩ := step
  cases progress with
  | asleep ms deeds => exact ⟨stays, rfl, by rintro j ⟨⟩; rfl, fun _ => rfl, id⟩
  | ended result =>
    constructor
    case plan => exact (settlePlan leased result bank).trans stays
    case jobs => rfl
    case left => rintro j ⟨⟩
    case aside => exact fun other => if_neg other
    case answer =>
      intro waits
      show (if owner = .caller then some (settle leased result bank).1 else w.answer) ≠ noDate
      split
      · exact fun same => settleDated leased result bank (Option.some.inj same)
      · exact waits

theorem beginProceeds (w : Workshop) (leased : LeasedTask) (owner : Owner) :
    ∃ out, Proceeds w owner out ∧ begin leased owner w = { out.1 with jobs := out.1.jobs ++ out.2.toList } :=
  ⟨_, proceeds w leased owner _ (handlePlan leased.record.toTask w.bank), rfl⟩

def Beats (job : Job) (w : Workshop) : Prop := w.time < job.wakeAt ∧ job.beatAt ≤ 2 * w.time

instance : Decidable (Beats job w) := inferInstanceAs (Decidable (_ ∧ _))

def Unending (w : Workshop) : Prop := w.bank.now.add? w.bank.plan.worker.lease = none

structure Ticks (w : Workshop) (job : Job) (out : Workshop × Option Job) : Prop where
  plan : out.1.bank.plan = w.bank.plan
  jobs : out.1.jobs = w.jobs
  left : ∀ j ∈ out.2, j.owner = job.owner
  aside : job.owner ≠ .caller → out.1.answer = w.answer
  answer : job.owner = .caller → w.answer ≠ noDate → (out.1.answer = noDate ↔ Beats job w ∧ w.Unending)

theorem ticks (w : Workshop) (job : Job) : Ticks w job (tick w job) := by
  unfold tick
  split
  next awake =>
    obtain ⟨plan, jobs, left, aside, answer⟩ :=
      proceeds w job.leased job.owner job.beatAt (performPlan job.deeds w.bank)
    have still : ¬ Beats job w := fun beats => absurd awake (Nat.not_le.mpr beats.1)
    exact ⟨plan, jobs, left, aside, fun _ waits => iff_of_false (answer waits) fun late => still late.1⟩
  next sleeps =>
    split
    next late =>
      have beats : Beats job w := ⟨Nat.lt_of_not_le sleeps, late⟩
      unfold heartbeat
      split
      next unending =>
        refine ⟨rfl, rfl, by rintro j ⟨⟩, fun other => if_neg other, fun caller _ => ?_⟩
        exact iff_of_true (if_pos caller) ⟨beats, unending⟩
      next deadline fits =>
        refine ⟨askPlan _ _ _, rfl, by rintro j ⟨⟩; rfl, fun _ => rfl, fun _ waits => ?_⟩
        exact iff_of_false waits fun late => Option.some_ne_none _ (fits.symm.trans late.2)
    next early =>
      refine ⟨rfl, rfl, by rintro j ⟨⟩; rfl, fun _ => rfl, fun _ waits => ?_⟩
      exact iff_of_false waits fun late => early late.1.2

def afterTurn (w : Workshop) (job : Job) : Workshop :=
  { (tick w job).1 with jobs := (tick w job).1.jobs ++ (tick w job).2.toList }

def extensions : List Job → Workshop → List Moment
  | [], _ => []
  | job :: rest, w =>
      (if job.owner = .caller ∧ Beats job w then [w.bank.now] else []) ++ extensions rest (w.afterTurn job)

theorem tickAllPlan (jobs : List Job) (w : Workshop) : (tickAll jobs w).bank.plan = w.bank.plan := by
  induction jobs generalizing w with
  | nil => rfl
  | cons job rest ih => exact (ih (w.afterTurn job)).trans (ticks w job).plan

theorem tickAllCallers (jobs : List Job) (w : Workshop) : callers (tickAll jobs w).jobs ≤ callers w.jobs + callers jobs := by
  induction jobs generalizing w with
  | nil => exact Nat.le_add_right _ _
  | cons job rest ih =>
    have turn := ticks w job
    have left := callersLeft turn.left
    have after : callers (w.afterTurn job).jobs = callers w.jobs + callers (tick w job).2.toList := by
      rw [afterTurn, callersAppend, turn.jobs]
    have later := ih (w.afterTurn job)
    have split : callers (job :: rest) = callers rest + if job.owner = .caller then 1 else 0 := by
      simp [callers, List.countP_cons]
    show callers (tickAll rest (w.afterTurn job)).jobs ≤ _
    omega

theorem tickAllAside (others : ∀ j ∈ jobs, j.owner ≠ .caller) (w : Workshop) :
    (tickAll jobs w).answer = w.answer ∧ extensions jobs w = [] := by
  induction jobs generalizing w with
  | nil => exact ⟨rfl, rfl⟩
  | cons job rest ih =>
    have other := others job List.mem_cons_self
    obtain ⟨answer, nothing⟩ := ih (fun j mem => others j (List.mem_cons_of_mem _ mem)) (w.afterTurn job)
    refine ⟨answer.trans ((ticks w job).aside other), ?_⟩
    rw [extensions, if_neg fun both => other both.1, nothing]
    rfl

theorem tickAllAnswer (sole : callers jobs ≤ 1) (waits : w.answer ≠ noDate) : (tickAll jobs w).answer = noDate ↔
    ∃ m ∈ extensions jobs w, m.add? w.bank.plan.worker.lease = none := by
  induction jobs generalizing w with
  | nil => simpa [tickAll, extensions] using waits
  | cons job rest ih =>
    have turn := ticks w job
    have split : callers (job :: rest) = callers rest + if job.owner = .caller then 1 else 0 := by
      simp [callers, List.countP_cons]
    by_cases caller : job.owner = .caller
    · rw [if_pos caller] at split
      have others : ∀ j ∈ rest, j.owner ≠ .caller := by
        have : callers rest = 0 := by omega
        simpa [callers, List.countP_eq_zero] using this
      obtain ⟨answer, nothing⟩ := tickAllAside others (w.afterTurn job)
      show (tickAll rest (w.afterTurn job)).answer = _ ↔ _
      rw [answer, extensions, nothing, show (w.afterTurn job).answer = (tick w job).1.answer from rfl, turn.answer caller waits]
      by_cases beats : Beats job w <;> simp [caller, beats, Unending]
    · have aside := turn.aside caller
      rw [if_neg caller] at split
      have later := ih (w := w.afterTurn job) (by omega) (aside ▸ waits)
      rw [show (w.afterTurn job).bank.plan = w.bank.plan from turn.plan] at later
      rw [extensions, if_neg fun both => caller both.1]
      exact later

/-! ### Others take up work -/

structure Joins (w after : Workshop) : Prop where
  plan : after.bank.plan = w.bank.plan
  answer : after.answer = w.answer
  callers : callers after.jobs = callers w.jobs

theorem joinsTrans {mid after : Workshop} (first : w.Joins mid) (later : mid.Joins after) : w.Joins after :=
  ⟨later.plan.trans first.plan, later.answer.trans first.answer, later.callers.trans first.callers⟩

theorem joinsBegin (w : Workshop) (leased : LeasedTask) : w.Joins (begin leased .loop w) := by
  obtain ⟨out, proceeds, begun⟩ := beginProceeds w leased .loop
  have left := callersLeft proceeds.left
  rw [begun]
  refine ⟨proceeds.plan, proceeds.aside nofun, ?_⟩
  rw [callersAppend, proceeds.jobs]
  simpa using left

theorem joinsGather (places : Nat) (w : Workshop) : w.Joins (gather places w).2 := by
  induction places generalizing w with
  | zero => exact ⟨rfl, rfl, rfl⟩
  | succ places ih =>
    have stays := leaseNextPlan w.bank
    unfold gather
    generalize leaseNext w.bank = out at stays ⊢
    obtain ⟨(_ | _) | (_ | _), bank⟩ := out
    · exact ⟨stays, rfl, rfl⟩
    · exact ⟨stays, rfl, rfl⟩
    · exact ⟨stays, rfl, rfl⟩
    · have moved : w.Joins { w with bank } := ⟨stays, rfl, rfl⟩
      exact joinsTrans moved (ih _)

theorem joinsLoop (fuel leases : Nat) (w : Workshop) : w.Joins (runLoop fuel leases w) := by
  induction fuel generalizing leases w with
  | zero => exact ⟨rfl, rfl, rfl⟩
  | succ fuel ih =>
    have begun (tasks : List LeasedTask) (v : Workshop) : v.Joins (tasks.foldl (fun w l => w.begin l .loop) v) := by
      induction tasks generalizing v with
      | nil => exact ⟨rfl, rfl, rfl⟩
      | cons l tasks more => exact joinsTrans (joinsBegin v l) (more _)
    have gathered := joinsGather (min leases (w.places - w.busy)) w
    have after := joinsTrans gathered (begun (gather (min leases (w.places - w.busy)) w).1 _)
    unfold runLoop
    dsimp only
    split
    · exact joinsTrans after (ih turn _)
    · exact after

/-! ### Time passes -/

theorem joinsLeap (w : Workshop) (time : Nat) :
    (tickAll w.jobs { w with time, jobs := [] }).Joins (w.leap time) := by
  unfold leap
  dsimp only
  split
  · exact joinsLoop _ _ _
  · exact ⟨rfl, rfl, rfl⟩

def extensionsUntil : (fuel : Nat) → Workshop → List Moment
  | 0, _ => []
  | fuel + 1, w =>
      if w.answer.isSome then []
      else match w.nextTime with
        | none => []
        | some time => extensions w.jobs { w with time, jobs := [] } ++ extensionsUntil fuel (w.leap time)

theorem answeredPass (answered : w.answer.isSome) (fuel : Nat) :
    passUntil (·.answer.isSome) none fuel w = w ∧ extensionsUntil fuel w = [] := by
  cases fuel with
  | zero => exact ⟨rfl, rfl⟩
  | succ fuel =>
    unfold passUntil extensionsUntil
    exact ⟨if_pos answered, if_pos answered⟩

theorem passAnswer (sole : callers w.jobs ≤ 1) (waits : w.answer ≠ noDate) (fuel : Nat) :
    (passUntil (·.answer.isSome) none fuel w).answer = noDate ↔
      ∃ m ∈ extensionsUntil fuel w, m.add? w.bank.plan.worker.lease = none := by
  induction fuel generalizing w with
  | zero => simpa [passUntil, extensionsUntil] using waits
  | succ fuel ih =>
    by_cases answered : w.answer.isSome
    · obtain ⟨same, nothing⟩ := answeredPass answered (fuel + 1)
      rw [same, nothing]
      simpa using waits
    unfold passUntil extensionsUntil
    rw [if_neg answered, if_neg answered]
    cases next : w.nextTime with
    | none => simpa using waits
    | some time =>
      have joins := joinsLeap w time
      have told := tickAllAnswer (w := { w with time, jobs := [] }) sole waits
      have few := tickAllCallers w.jobs { w with time, jobs := [] }
      have sole : callers (w.leap time).jobs ≤ 1 := by
        rw [joins.callers]
        exact Nat.le_trans few (by simpa [callers] using sole)
      have plan : (w.leap time).bank.plan = w.bank.plan := joins.plan.trans (tickAllPlan _ _)
      rw [← joins.answer] at told
      dsimp only
      simp only [List.mem_append, or_and_right, exists_or]
      by_cases out : (w.leap time).answer = noDate
      · obtain ⟨same, -⟩ := answeredPass (w := w.leap time) (by rw [out]; rfl) fuel
        rw [same]
        exact iff_of_true out (.inl (told.mp out))
      · rw [ih sole out, plan]
        exact (or_iff_right fun early => out (told.mpr early)).symm

def nextExtensions (w : Workshop) : List Moment :=
  match leaseNext w.bank with
  | (.ok (some leased), bank) => extensionsUntil endless (({ w with bank, answer := none } : Workshop).begin leased .caller)
  | _ => []

theorem processNextDatedIff (idle : ∀ j ∈ w.jobs, j.owner ≠ .caller) : w.processNext.1 = .error (.overflow .date) ↔
    (leaseNext w.bank).1 = .error (.overflow .date) ∨
      ∃ m ∈ w.nextExtensions, m.add? w.bank.plan.worker.lease = none := by
  have plan := leaseNextPlan w.bank
  unfold processNext nextExtensions
  generalize leaseNext w.bank = out at plan ⊢
  obtain ⟨e | (_ | leased), bank⟩ := out
  · simp
  · simp
  · obtain ⟨out, proceeds, begun⟩ := beginProceeds { w with bank, answer := none } leased .caller
    have left := callersLeft proceeds.left
    have sole : callers (begin leased .caller { w with bank, answer := none }).jobs ≤ 1 := by
      rw [begun, callersAppend, proceeds.jobs, callersNone idle]
      simpa using left
    have waits : (begin leased .caller { w with bank, answer := none }).answer ≠ noDate := by
      rw [begun]
      exact proceeds.answer nofun
    have told := passAnswer sole waits endless
    have stays : (begin leased .caller { w with bank, answer := none }).bank.plan = w.bank.plan := by
      rw [begun]
      exact proceeds.plan.trans plan
    rw [stays] at told
    simp only [reduceCtorEq, false_or]
    rw [← told]
    show ((Option.getD (passUntil _ none endless (begin leased .caller { w with bank, answer := none })).answer
      (.error (.failed .leaseLost))).map some) = _ ↔ _
    generalize Workshop.answer _ = answer
    rcases answer with _ | (e | settled) <;> simp [Except.map]

end Workshop

namespace Workshop

theorem unreachedIff (ms : Int) : Moment.ofMs? ms = none ↔ ms < Moment.first ∨ Moment.last < ms := by
  unfold Moment.ofMs?
  split <;> simp <;> omega

/-- Which deadlines the settings leave without a date, and what breaks off over them: the relay where nothing lies its
grace before now, the search for the next task where it finds one and the lease would end after the last moment, and
work on the next task where the search does or its lease, whenever it is extended, would end after the last moment. -/
theorem deadlinesOutOfReach {lookup : String → Option String} {s : Settings} (accepted : Settings.load lookup = .ok s)
    {w : Workshop} (lease : w.bank.plan.worker.lease = s.leaseDuration)
    (belong : ∀ queue, Rows.Belong w.bank.queues.state.value? queue) (idle : ∀ j ∈ w.jobs, j.owner ≠ .caller)
    (grace : Span) :
    ((relay grace w.bank).1 = .error (.overflow .date) ↔
      w.bank.now.ms - grace.ms < Moment.first ∨ Moment.last < w.bank.now.ms - grace.ms) ∧
    ((leaseNext w.bank).1 = .error (.overflow .date) ↔ .lease ∉ w.bank.outage ∧
      Moment.last < w.bank.now.ms + s.leaseDuration.ms ∧
      ∃ queue c, w.bank.ComesTo queue c ∧ Waits c.queues.state.value? queue w.bank.now) ∧
    (w.processNext.1 = .error (.overflow .date) ↔ (leaseNext w.bank).1 = .error (.overflow .date) ∨
      ∃ m ∈ w.nextExtensions, Moment.last < m.ms + s.leaseDuration.ms) := by
  have positive := Settings.leasePositive accepted
  have ends (m : Moment) : m.add? s.leaseDuration = none ↔ Moment.last < m.ms + s.leaseDuration.ms := by
    have := m.inRange
    rw [Moment.add?, unreachedIff]
    omega
  refine ⟨?_, ?_, ?_⟩
  · rw [relayDatedIff, Moment.sub?, unreachedIff]
  · rw [leaseNextDatedIff belong, lease, ends]
  · simp only [processNextDatedIff idle, lease, ends]

def settingsWith (lease name : String) : Option String :=
  if name = "SIMPLE_BANK_TOKEN_SYMMETRIC_KEY" then some "0123456789abcdef0123456789abcdef"
  else if name = "SIMPLE_BANK_TASK_LEASE_DURATION" then some lease
  else none

def loaded (lease : Span) : Settings :=
  { key := "0123456789abcdef0123456789abcdef", scheme := .sealed, accessDuration := SessionPlan.standard.access
    refreshDuration := SessionPlan.standard.refresh, directory := "./data", poolSize := 10, poolTimeout := ⟨5000⟩
    txRetries := 3, concurrency := 10, leaseDuration := lease, relayInterval := ⟨1000⟩ }

def tray : SortedMap RowId Versioned :=
  (∅ : SortedMap RowId Versioned).insert (Broker.queueRow waiting) ⟨1, Json.encode TaskRecord.codec waiting⟩

def sorting (lease : Span) (deeds : List Deed) : Workshop :=
  { bank := {
      plan := {
        worker := { WorkerPlan.standard with queues := [("mail", 1)], lease }
        handlers := [("send", .script [deeds])] }
      queues := { state := { rows := tray } }
      clock := ⟨2000⟩ } }

theorem sortingBelongs (lease : Span) (deeds : List Deed) (queue : String) :
    Rows.Belong (sorting lease deeds).bank.queues.state.value? queue := by
  refine Rows.belongQueued (fun row value held => ?_) queue
  simp only [State.value?, sorting, tray, SortedMap.getInsert, SortedMap.getEmpty] at held
  split at held
  next here =>
    cases held
    exact ⟨waiting, Broker.decodedEncode _, here⟩
  next => cases held

theorem halfMinuteInReach :
    let s := loaded ⟨30000, by decide⟩
    let w := sorting s.leaseDuration [.sleep 40000]
    Settings.load (settingsWith "30s") = .ok s ∧ w.nextExtensions = [⟨2000, by decide⟩, ⟨2000, by decide⟩] ∧
      (leaseNext w.bank).1 ≠ .error (.overflow .date) ∧ w.processNext.1 ≠ .error (.overflow .date) := by
  intro s w
  have accepted : Settings.load (settingsWith "30s") = .ok s := by decide +kernel
  have shown : w.nextExtensions = [⟨2000, by decide⟩, ⟨2000, by decide⟩] := by decide +kernel
  have idle : ∀ j ∈ w.jobs, j.owner ≠ .caller := by
    intro j mem
    cases mem
  obtain ⟨-, search, work⟩ := deadlinesOutOfReach accepted rfl (sortingBelongs _ _) idle .zero
  have found : (leaseNext w.bank).1 ≠ .error (.overflow .date) := by
    rw [ne_eq, search]
    rintro ⟨-, late, -⟩
    revert late
    decide
  refine ⟨accepted, shown, found, ?_⟩
  rw [ne_eq, work, shown, not_or]
  exact ⟨found, by decide⟩

theorem longLeaseOutOfReach :
    let nine := loaded ⟨9000000000000000, by decide⟩
    let eight := loaded ⟨8000000000000000, by decide⟩
    let work := sorting nine.leaseDuration []
    let longWork := sorting eight.leaseDuration [.advance 253402300797999, .sleep 5000000000000000]
    (Settings.load (settingsWith "9000000000000s") = .ok nine ∧ (leaseNext work.bank).1 = .error (.overflow .date) ∧
      work.processNext.1 = .error (.overflow .date)) ∧
    (Settings.load (settingsWith "8000000000000s") = .ok eight ∧
      longWork.nextExtensions = [⟨253402300799999, by decide⟩] ∧ longWork.processNext.1 = .error (.overflow .date)) ∧
    (relay .longest work.bank).1 = .error (.overflow .date) := by
  decide +kernel

end Workshop
end Teller
