import Teller.Bank.Registration
import Teller.Proofs.Dispatch
import Teller.Proofs.SharedOutbox

/-! What the bank does on its own, a process at the outbox does step by step: units of work with their
repetitions, the handing over of what they have staged, and the relay. -/
namespace Teller.SharedOutbox

def Reaches (m m' : SharedOutbox) : Prop := ∃ events, m.run events = m'

namespace Reaches
variable {m m' m'' : SharedOutbox}

theorem refl (m : SharedOutbox) : Reaches m m := ⟨[], rfl⟩

theorem trans (h : Reaches m m') (h' : Reaches m' m'') : Reaches m m'' := by
  obtain ⟨events, rfl⟩ := h
  obtain ⟨more, rfl⟩ := h'
  exact ⟨events ++ more, List.foldl_append ..⟩

end Reaches

def withProcess (m : SharedOutbox) (who : Nat) (process : Option OutboxProcess) : SharedOutbox :=
  { m with processes := setAt m.processes who process }

@[simp] theorem withProcessOwn (m : SharedOutbox) (who : Nat) (process : Option OutboxProcess) :
    (m.withProcess who process).processes who = process := setAtSelf ..

@[simp] theorem withProcessTwice (m : SharedOutbox) (who : Nat) (process next : Option OutboxProcess) :
    (m.withProcess who process).withProcess who next = m.withProcess who next := by
  simp [withProcess]

theorem withProcessIdle {m : SharedOutbox} {who : Nat} (idle : m.processes who = none) :
    m.withProcess who none = m := by
  have same : setAt m.processes who none = m.processes := by
    funext other
    unfold setAt
    split
    · rename_i here
      exact here ▸ idle.symm
    · rfl
  rw [withProcess, same]

structure Round (α : Type) where
  query : Query Empty Empty α
  idle : Option OutboxProcess
  busy : QueryUnderway α → OutboxProcess
  onward : α × List OutboxEntry → OutboxProcess
  gone : Option OutboxProcess
  begins : ∀ (m : SharedOutbox) who, m.processes who = idle → ∃ event,
    m.step event = { m.withProcess who (some (busy (.begin query m.db))) with db := m.db.begin.2 }
  acts : ∀ drawn s underway, (busy underway).act drawn s = busy (underway.act drawn s)
  ends : ∀ t result, (busy ⟨.done (.ok result), t⟩).ready? = some ⟨t, result.2, onward result, idle⟩
  drops : ∀ underway, (busy underway).leave = gone
  quits : idle.bind OutboxProcess.leave = gone

def Round.unit {α : Type} {body : Query Empty Empty α} (staging : body.Staging) : Round α where
  query := body
  idle := none
  busy := .stages
  onward result := .hands result.2
  gone := none
  begins _ who _ := ⟨.unit who body staging, rfl⟩
  acts _ _ _ := rfl
  ends _ _ := rfl
  drops _ := rfl
  quits := rfl

def Round.listing (cutoff : Moment) : Round (List OutboxEntry) where
  query := Query.listOutbox
  idle := none
  busy := .lists cutoff
  onward result := .hands (result.1.filter (·.createdAt ≤ cutoff))
  gone := none
  begins _ who _ := ⟨.relay who cutoff, rfl⟩
  acts _ _ _ := rfl
  ends _ _ := rfl
  drops _ := rfl
  quits := rfl

def Round.clearing (id : Uuid) (later : List OutboxEntry) : Round Unit where
  query := Query.deleteOutbox id
  idle := some (.taken id later)
  busy := .clears id later
  onward _ := .hands later
  gone := some (.hands later)
  begins m who here := ⟨.clear who, by simp only [step, here]; rfl⟩
  acts _ _ _ := rfl
  ends _ _ := rfl
  drops _ := rfl
  quits := rfl

variable {α : Type} (r : Round α) (m : SharedOutbox) (who : Nat)

theorem runReaches {perform : Empty → Bank → Empty × Bank}
    {w : Work Empty Empty (Stop StoreError) (α × List OutboxEntry)} {t t' : Transaction} {b c : Bank} {value}
    (here : m.db.state = b.accounts.state) (ran : w.run (Bank.accountsHost perform) t b = (value, t', c)) :
    c.accounts = b.accounts ∧
      (m.withProcess who (some (r.busy ⟨w, t⟩))).Reaches (m.withProcess who (some (r.busy ⟨.done value, t'⟩))) := by
  have acts (drawn : Uuid) (w) (t : Transaction) :
      (m.withProcess who (some (r.busy ⟨w, t⟩))).Reaches
        (m.withProcess who (some (r.busy (QueryUnderway.act drawn b.accounts.state ⟨w, t⟩)))) := by
    refine ⟨[.act who drawn], ?_⟩
    simp [run, SharedOutbox.step, withProcess, r.acts, here]
  induction w generalizing t b with
  | done result => cases ran; exact ⟨rfl, .refl _⟩
  | get row next ih => exact (ih _ here ran acts).imp id (acts b.drawId.1 _ t).trans
  | scan table next ih => exact (ih _ here ran acts).imp id (acts b.drawId.1 _ t).trans
  | put row value next ih => exact (ih here ran acts).imp id (acts b.drawId.1 _ t).trans
  | delete row next ih => exact (ih here ran acts).imp id (acts b.drawId.1 _ t).trans
  | fresh next ih =>
    exact (ih b.drawId.1 (b := b.drawId.2) here ran acts).imp id (acts b.drawId.1 _ t).trans
  | outside event next ih => cases event

theorem firstRunReaches {perform : Empty → Bank → Empty × Bank} {b c : Bank} {value t} (here : m.db = b.accounts)
    (ran : (r.query.run []).firstRun (Bank.accountsHost perform) b = (value, t, c)) :
    (m.withProcess who r.idle).Reaches
      ({ m with db := c.accounts }.withProcess who (some (r.busy ⟨.done value, t⟩))) := by
  have began : (m.withProcess who r.idle).Reaches
      ({ m with db := b.accounts.begin.2 }.withProcess who (some (r.busy (.begin r.query b.accounts)))) := by
    obtain ⟨event, begins⟩ := r.begins (m.withProcess who r.idle) who (withProcessOwn ..)
    rw [withProcessTwice, show (m.withProcess who r.idle).db = b.accounts from here] at begins
    exact ⟨[event], begins⟩
  obtain ⟨kept, ended⟩ := runReaches r { m with db := b.accounts.begin.2 } who (by rfl) ran
  rw [kept]
  exact began.trans ended

def after (db : Database) : Except (Stop StoreError) (α × List OutboxEntry) → SharedOutbox
  | .ok result => { m.withProcess who (some (r.onward result)) with db, committed := m.committed ++ result.2 }
  | .error _ => { m.withProcess who r.gone with db }

theorem leaveReaches {process gone : Option OutboxProcess} (left : process.bind OutboxProcess.leave = gone) :
    (m.withProcess who process).Reaches (m.withProcess who gone) := by
  refine ⟨[.leave who], ?_⟩
  simp [run, step, withProcess, left]

theorem commitReaches {result : α × List OutboxEntry} {t : Transaction} {done : Except CommitError Unit}
    {db : Database} (commit : m.db.commit t = (done, db)) :
    (m.withProcess who (some (r.busy ⟨.done (.ok result), t⟩))).Reaches (match done with
      | .ok () => after r m who db (.ok result)
      | .error _ => { m with db }.withProcess who r.idle) := by
  refine ⟨[.commit who], ?_⟩
  have ready : ((m.withProcess who (some (r.busy ⟨.done (.ok result), t⟩))).processes who).bind OutboxProcess.ready? =
      some ⟨t, result.2, r.onward result, r.idle⟩ := by
    rw [withProcessOwn]
    exact r.ends t result
  have commit : (m.withProcess who (some (r.busy ⟨.done (.ok result), t⟩))).db.commit t = (done, db) := commit
  simp only [run, List.foldl_cons, List.foldl_nil, step, ready, commit]
  cases done <;> simp [withProcess, after]

theorem transactReaches {perform : Empty → Bank → Empty × Bank} (retries n : Nat) {b : Bank}
    (here : m.db = b.accounts) :
    let out := transact (Bank.accountsHost perform) (fun e => .failed (.ofCommit e)) (fun _ => r.query.run [])
      retries n b
    (m.withProcess who r.idle).Reaches (after r m who out.2.accounts out.1.result) := by
  induction retries using Nat.strongRecOn generalizing n b m with
  | ind retries ih =>
    rcases ran : (r.query.run []).firstRun (Bank.accountsHost perform) b with ⟨value, t, c⟩
    have ended := firstRunReaches r m who here ran
    rcases Work.transactCases (Bank.accountsHost perform) (fun e => .failed (.ofCommit e))
      (fun _ => r.query.run []) retries n b ran with ⟨e, rfl, done⟩ | ⟨a, db, rfl, committed, done⟩ |
        ⟨a, db, fewer, rfl, committed, rfl, done⟩ | ⟨a, db, cause, rfl, committed, _, done⟩
    · rw [done]
      exact ended.trans (leaveReaches { m with db := c.accounts } who (r.drops _))
    · rw [done]
      exact ended.trans (commitReaches r { m with db := c.accounts } who committed)
    · rw [done]
      -- The process is idle again, so that the next run is an attempt like the first.
      have refused := ended.trans (commitReaches r { m with db := c.accounts } who committed)
      have again := ih fewer (Nat.lt_succ_self fewer) { m with db } (n + 1) (b := { c with accounts := db }) rfl
      exact refused.trans again
    · rw [done]
      have refused := ended.trans (commitReaches r { m with db := c.accounts } who committed)
      exact refused.trans (leaveReaches { m with db } who r.quits)

theorem stagedReaches {perform : Empty → Bank → Empty × Bank} {b : Bank} (here : m.db = b.accounts) :
    let out := Bank.runStaged perform (fun _ => r.query) b
    (m.withProcess who r.idle).Reaches (after r m who out.2.accounts out.1.result) := by
  unfold Bank.runStaged
  split
  · exact transactReaches r m who _ 0 (b := { b with running := b.running + 1 }) here
  · have same : { m with db := b.accounts } = m := by rw [← here]
    have left := leaveReaches m who r.quits
    exact same ▸ left

theorem nothingStaged {query : Query Empty Empty α}
    (quiet : (query.run []).Keeps (fun (_ : Unit) _ _ => True)
      (fun _ r => ∀ value left, r = .ok (value, left) → left = []) ())
    {b : Bank} {value : α} {staged : List OutboxEntry} (ok : (b.runQuery query).1.result = .ok (value, staged)) :
    staged = [] := by
  obtain ⟨_, ends⟩ := Bank.runStagedEnds (fun _ => quiet) ok
  exact ends value staged rfl

theorem listingStages {b : Bank} {entries staged : List OutboxEntry}
    (ok : (b.runQuery Query.listOutbox).1.result = .ok (entries, staged)) : staged = [] := by
  refine nothingStaged ?_ ok
  rw [Query.listOutboxRun]
  refine ⟨(), trivial, fun rows => ?_⟩
  dsimp only
  cases Query.entriesOf rows with
  | error e =>
    intro _ _ same
    cases same
  | ok found =>
    intro _ _ same
    cases same
    rfl

theorem clearingStages {id : Uuid} {b : Bank} {value : Unit} {staged : List OutboxEntry}
    (ok : (b.runQuery (Query.deleteOutbox id)).1.result = .ok (value, staged)) : staged = [] := by
  refine nothingStaged ?_ ok
  rw [Query.deleteOutboxRun]
  exact ⟨(), trivial, by rintro _ _ ⟨⟩; rfl⟩

theorem clearReaches (m : SharedOutbox) (who : Nat) (id : Uuid) (later : List OutboxEntry) {b : Bank}
    (here : m.db = b.accounts) :
    (m.withProcess who (some (.taken id later))).Reaches
      ({ m with db := (Bank.clearOutbox id b).2.accounts }.withProcess who (some (.hands later))) := by
  have done : (m.withProcess who (some (.taken id later))).Reaches (after (.clearing id later) m who
      (b.runQuery (Query.deleteOutbox id)).2.accounts (b.runQuery (Query.deleteOutbox id)).1.result) :=
    stagedReaches (.clearing id later) m who here
  show Reaches _ ({ m with db := (b.runQuery (Query.deleteOutbox id)).2.accounts }.withProcess who _)
  cases ended : (b.runQuery (Query.deleteOutbox id)).1.result with
  | error e => rw [ended] at done; exact done
  | ok result =>
    obtain ⟨value, staged⟩ := result
    obtain rfl := clearingStages ended
    rw [ended] at done
    simpa [after, Round.clearing, withProcess] using done

def accepting {σ : Type} (offer : NewTask → σ → Except (Stop EnqueueError) TaskInfo × σ) (task : NewTask) :
    σ × List NewTask → Except (Stop EnqueueError) TaskInfo × σ × List NewTask
  | (s, taken) => match offer task s with
    | (.ok info, s) => (.ok info, s, taken ++ [task])
    | (.error e, s) => (.error e, s, taken)

theorem handOverAccepting {σ : Type} (offer : NewTask → σ → Except (Stop EnqueueError) TaskInfo × σ)
    (clear : Uuid → σ → Except (Stop StoreError) Unit × σ) (count : Nat) (entries : List OutboxEntry) (s : σ)
    (taken : List NewTask) :
    let plain := Bank.handOver offer clear count entries s
    ∃ more, Bank.handOver (accepting offer) (Bank.aside clear) count entries (s, taken) =
      (plain.1, plain.2, taken ++ more) := by
  induction entries generalizing count s taken with
  | nil => exact ⟨[], by simp [Bank.handOver]⟩
  | cons e rest ih =>
    simp only [Bank.handOver, accepting, Bank.aside]
    rcases offer e.task s with ⟨(_ | cause) | _, s⟩
    · exact ih count s taken
    · exact ⟨[], by simp⟩
    · dsimp only
      have onward (count : Nat) (s : σ) : ∃ more,
          Bank.handOver (accepting offer) (Bank.aside clear) count rest (s, taken ++ [e.task]) =
            ((Bank.handOver offer clear count rest s).1, (Bank.handOver offer clear count rest s).2,
              taken ++ more) := by
        obtain ⟨more, same⟩ := ih count s (taken ++ [e.task])
        exact ⟨e.task :: more, by rw [same]; simp⟩
      rcases clear e.id s with ⟨(_ | cause) | _, s⟩
      · exact onward count s
      · exact ⟨[e.task], rfl⟩
      · exact onward (count + 1) s

theorem offerReaches (m : SharedOutbox) (who : Nat) (e : OutboxEntry) (later : List OutboxEntry) (b : Bank) :
    (m.withProcess who (some (.hands (e :: later)))).Reaches (match (b.enqueueTask e.task).1 with
      | .ok _ => { m with accepted := m.accepted ++ [e.task] }.withProcess who (some (.taken e.id later))
      | .error _ => m.withProcess who (some (.hands later))) := by
  refine ⟨[.offer who b], ?_⟩
  simp only [run, List.foldl_cons, List.foldl_nil, step, withProcessOwn]
  split <;> simp [withProcess, *]

def dispatched (m : SharedOutbox) (count : Nat) (entries : List OutboxEntry) (b : Bank) : SharedOutbox :=
  let out := Bank.handOver (accepting Bank.enqueueTask) (Bank.aside Bank.clearOutbox) count entries (b, m.accepted)
  { m with db := out.2.1.accounts, accepted := out.2.2 }

theorem dispatchedDb (m : SharedOutbox) (entries : List OutboxEntry) (b : Bank) :
    (m.dispatched 0 entries b).db = (Bank.dispatch entries b).2.accounts := by
  obtain ⟨more, same⟩ := handOverAccepting Bank.enqueueTask Bank.clearOutbox 0 entries b m.accepted
  rw [dispatched, same]
  rfl

theorem dispatchReaches (m : SharedOutbox) (who count : Nat) (entries : List OutboxEntry) {b : Bank}
    (here : m.db = b.accounts) :
    (m.withProcess who (some (.hands entries))).Reaches ((m.dispatched count entries b).withProcess who none) := by
  have leaves (m : SharedOutbox) (entries : List OutboxEntry) :
      (m.withProcess who (some (.hands entries))).Reaches (m.withProcess who none) := leaveReaches m who rfl
  induction entries generalizing m count b with
  | nil =>
    have same : m.dispatched count [] b = m := by rw [dispatched, Bank.handOver, ← here]
    rw [same]
    exact leaves m []
  | cons e later ih =>
    have offered := offerReaches m who e later b
    have untouched := Bank.enqueueKeepsAccounts e.task b
    unfold dispatched
    simp only [Bank.handOver, accepting, Bank.aside]
    generalize Bank.enqueueTask e.task b = offer at offered untouched ⊢
    rcases offer with ⟨(cause | cause) | info, c⟩
    · exact offered.trans (ih m count (here.trans untouched.symm))
    · have same : { m with db := c.accounts } = m := by rw [untouched, ← here]
      exact same ▸ offered.trans (leaves m later)
    · have cleared := clearReaches { m with accepted := m.accepted ++ [e.task] } who e.id later
        (here.trans untouched.symm)
      dsimp only at cleared ⊢
      generalize Bank.clearOutbox e.id c = done at cleared ⊢
      have cleared := offered.trans cleared
      rcases done with ⟨(cause | cause) | _, d⟩
      · exact cleared.trans (ih { m with db := d.accounts, accepted := m.accepted ++ [e.task] } count rfl)
      · exact cleared.trans (leaves { m with db := d.accounts, accepted := m.accepted ++ [e.task] } later)
      · exact cleared.trans (ih { m with db := d.accounts, accepted := m.accepted ++ [e.task] } (count + 1) rfl)

def stagedOf : Except (Stop StoreError) (α × List OutboxEntry) → List OutboxEntry
  | .ok (_, staged) => staged
  | .error _ => []

def worked (m : SharedOutbox) (ran : Bank.Unitwork (α × List OutboxEntry) × Bank) : SharedOutbox :=
  let staged := stagedOf ran.1.result
  let m := { m with db := ran.2.accounts, committed := m.committed ++ staged }
  if ran.2.plan.dispatches then m.dispatched 0 staged ran.2 else m

theorem workedDb (m : SharedOutbox) {Event Answer : Type} (perform : Event → Bank → Answer × Bank)
    (body : Nat → Query Event Answer α) (b : Bank) :
    (m.worked (b.runStaged perform body)).db = (b.run perform body).2.accounts := by
  unfold worked Bank.run
  rcases b.runStaged perform body with ⟨⟨_ | ⟨value, staged⟩, runs⟩, c⟩
  · split
    · exact dispatchedDb _ [] c
    · rfl
  · dsimp only [stagedOf]
    split
    · have same := dispatchedDb { m with db := c.accounts, committed := m.committed ++ staged } staged c
      generalize Bank.dispatch staged c = done at same ⊢
      rcases done with ⟨_ | _, d⟩ <;> exact same
    · rfl

theorem unitReaches {body : Query Empty Empty α} (staging : body.Staging) (perform : Empty → Bank → Empty × Bank)
    (m : SharedOutbox) (who : Nat) {b : Bank} (here : m.db = b.accounts) :
    (m.withProcess who none).Reaches ((m.worked (b.runStaged perform fun _ => body)).withProcess who none) := by
  have done : let out := b.runStaged perform fun _ => body
      (m.withProcess who none).Reaches (after (.unit staging) m who out.2.accounts out.1.result) :=
    stagedReaches (.unit staging) m who here
  unfold worked
  generalize b.runStaged perform (fun _ => body) = ran at done ⊢
  rcases ran with ⟨⟨_ | ⟨value, staged⟩, runs⟩, c⟩
  · have same : { m with db := c.accounts, committed := m.committed ++ [] } = { m with db := c.accounts } := by
      rw [List.append_nil]
    dsimp only [stagedOf]
    rw [same]
    have idle : { m with db := c.accounts }.dispatched 0 [] c = { m with db := c.accounts } := rfl
    rw [idle, ite_self]
    exact done
  · let next : SharedOutbox := { m with db := c.accounts, committed := m.committed ++ staged }
    have done : (m.withProcess who none).Reaches (next.withProcess who (some (.hands staged))) := done
    dsimp only [stagedOf]
    split
    · exact done.trans (dispatchReaches next who 0 staged rfl)
    · exact done.trans (leaveReaches next who rfl)

def relayed (m : SharedOutbox) (grace : Span) (b : Bank) : SharedOutbox :=
  match b.now.sub? grace with
  | none => m
  | some cutoff =>
      let (done, c) := b.runQuery Query.listOutbox
      match done.result with
      | .error _ => { m with db := c.accounts }
      | .ok (entries, _) => { m with db := c.accounts }.dispatched 0 (entries.filter (·.createdAt ≤ cutoff)) c

theorem relayedDb (m : SharedOutbox) (grace : Span) {b : Bank} (here : m.db = b.accounts) :
    (m.relayed grace b).db = (b.relay grace).2.accounts := by
  unfold relayed Bank.relay
  cases b.now.sub? grace with
  | none => exact here
  | some cutoff =>
    dsimp only
    rcases b.runQuery Query.listOutbox with ⟨⟨_ | ⟨entries, staged⟩, runs⟩, c⟩
    · rfl
    · exact dispatchedDb { m with db := c.accounts } (entries.filter (·.createdAt ≤ cutoff)) c

theorem relayReaches (grace : Span) (m : SharedOutbox) (who : Nat) {b : Bank} (here : m.db = b.accounts) :
    (m.withProcess who none).Reaches ((m.relayed grace b).withProcess who none) := by
  unfold relayed
  split
  · exact .refl _
  · rename_i cutoff _
    have done : (m.withProcess who none).Reaches (after (.listing cutoff) m who
        (b.runQuery Query.listOutbox).2.accounts (b.runQuery Query.listOutbox).1.result) :=
      stagedReaches (.listing cutoff) m who here
    have stages := @listingStages b
    generalize b.runQuery Query.listOutbox = ran at done stages ⊢
    rcases ran with ⟨⟨_ | ⟨entries, staged⟩, runs⟩, c⟩
    · exact done
    · obtain rfl := stages rfl
      let next : SharedOutbox := { m with db := c.accounts }
      have done : (m.withProcess who none).Reaches
          (next.withProcess who (some (.hands (entries.filter (·.createdAt ≤ cutoff))))) := by
        simpa [after, Round.listing, withProcess] using done
      exact done.trans (dispatchReaches next who 0 _ rfl)

theorem stagingRegister (now : Moment) (new : NewUser) :
    (do return (← Query.createUserWith now new VerifyEmail.task).1 : Query Empty Empty User).Staging := by
  have follow (user : User) : (VerifyEmail.task user : Query Empty Empty (List NewTask)).Staging :=
    .bind .newId fun id => .pure _
  exact .bind (Query.stagingCreateUserWith now new follow) fun created => .pure created.1

inductive Call where
  | unit {α : Type} (body : Query Empty Empty α) (staging : body.Staging)
  | register (new : NewUser)
  | relay (grace : Span)

namespace Call

def bank : Call → Bank → Bank
  | .unit body _, b => (b.runAlone body).2
  | .register new, b => (b.register new).2
  | .relay grace, b => (b.relay grace).2

def account (b : Bank) (m : SharedOutbox) : Call → SharedOutbox
  | .unit body _ => m.worked (b.runQuery body)
  | .register new => m.worked (b.runQuery do return (← Query.createUserWith b.now new VerifyEmail.task).1)
  | .relay grace => m.relayed grace b

end Call

theorem accountDb (call : Call) (m : SharedOutbox) {b : Bank} (here : m.db = b.accounts) :
    (call.account b m).db = (call.bank b).accounts := by
  cases call with
  | unit body staging => exact workedDb m _ _ b
  | register new => exact workedDb m _ _ b
  | relay grace => exact relayedDb m grace here

theorem accountReaches (call : Call) (m : SharedOutbox) (who : Nat) {b : Bank} (here : m.db = b.accounts) :
    (m.withProcess who none).Reaches ((call.account b m).withProcess who none) := by
  cases call with
  | unit body staging => exact unitReaches staging _ m who here
  | register new => exact unitReaches (stagingRegister b.now new) _ m who here
  | relay grace => exact relayReaches grace m who here

theorem workedProcesses (m : SharedOutbox) (ran : Bank.Unitwork (α × List OutboxEntry) × Bank) :
    (m.worked ran).processes = m.processes := by
  unfold worked
  dsimp only
  split <;> rfl

theorem accountProcesses (call : Call) (b : Bank) (m : SharedOutbox) : (call.account b m).processes = m.processes := by
  cases call with
  | unit body staging => exact workedProcesses m _
  | register new => exact workedProcesses m _
  | relay grace =>
    show (m.relayed grace b).processes = m.processes
    unfold relayed
    split
    · rfl
    · dsimp only
      split <;> rfl

/-- Units of work, registrations and relays of a bank, one after the other: at any point the tasks that its broker has
accepted are those of entries that were committed, and an entry that was committed is in the outbox of the bank or has
been accepted. -/
theorem callsSafe {b : Bank} {before : List OutboxEntry} (stocked : Stocked before b.accounts.state)
    (calls : List Call) :
    let (m, c) := calls.foldl (fun (m, b) call => (call.account b m, call.bank b)) (start b.accounts before, b)
    m.db = c.accounts ∧ m.Safe := by
  suffices follows : ∀ (m : SharedOutbox) (b : Bank), m.db = b.accounts → m.processes 0 = none → m.Sound →
      let (m, c) := calls.foldl (fun (m, b) call => (call.account b m, call.bank b)) (m, b)
      m.db = c.accounts ∧ m.Safe from
    follows (start b.accounts before) b rfl rfl (soundStart stocked)
  induction calls with
  | nil => exact fun m b here _ sound => ⟨here, soundSafe sound⟩
  | cons call calls ih =>
    intro m b here idle sound
    obtain ⟨events, reached⟩ := accountReaches call m 0 here
    have still := (congrFun (accountProcesses call b m) 0).trans idle
    rw [withProcessIdle idle, withProcessIdle still] at reached
    exact ih _ _ (accountDb call m here) still (reached ▸ (soundRun sound events).1)

end Teller.SharedOutbox
