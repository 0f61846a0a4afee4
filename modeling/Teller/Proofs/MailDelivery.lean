import Teller.Proofs.Addressees
import Teller.Proofs.TaskMatter

/-! The way of a verification mail from the registration that stages it to the handler that looks for its user. Those
who register, relay, work and handle take their steps in any order. The broker may refuse what it is offered, or take it
and not say so; either database may be closed and opened again at any time. -/
namespace Teller
open Broker
open Query (userRow)

/-- Where tasks come from: the entries that were committed, with the name of whoever was registered by the same unit of
work, and the ids of tasks that were handed in past the outbox. -/
structure Provenance where
  entries : List (Option String × OutboxEntry) := []
  strays : List Uuid := []

namespace Provenance

def Covers (b : Provenance) (m : Task) (such : Prop) : Prop :=
  (∃ x ∈ b.entries, x.2.task.id = m.id ∧ x.2.task.type = m.type ∧ x.2.task.payload = m.payload ∧
    (x.1 ≠ none → such)) ∨ m.id ∈ b.strays

def Sole (b : Provenance) (x : Option String × OutboxEntry) : Prop :=
  (∀ y ∈ b.entries, y.2.task.id = x.2.task.id → y = x) ∧ x.2.task.id ∉ b.strays

structure Within (b more : Provenance) : Prop where
  entries : b.entries ⊆ more.entries
  strays : b.strays ⊆ more.strays

theorem Within.refl {b : Provenance} : b.Within b := ⟨List.Subset.refl _, List.Subset.refl _⟩

variable {b more : Provenance} {m : Task} {such also : Prop}

theorem coversMono (h : b.Covers m such) (within : b.Within more) (imp : such → also) : more.Covers m also := by
  rcases h with ⟨x, mem, id, type, payload, own⟩ | stray
  · exact .inl ⟨x, within.entries mem, id, type, payload, fun named => imp (own named)⟩
  · exact .inr (within.strays stray)

theorem coversSole {x : Option String × OutboxEntry} (h : b.Covers m such) (sole : b.Sole x)
    (same : m.id = x.2.task.id) (named : x.1 ≠ none) :
    x.2.task.type = m.type ∧ x.2.task.payload = m.payload ∧ such := by
  rcases h with ⟨y, mem, id, type, payload, own⟩ | stray
  · obtain rfl := sole.1 y mem (id.trans same)
    exact ⟨type, payload, own named⟩
  · exact absurd (same ▸ stray) sole.2

end Provenance

def SharedBroker.Move.asked : SharedBroker.Move → List Request
  | .begin _ request => [request]
  | _ => []

def SharedBroker.Move.strays : SharedBroker.Move → List Uuid
  | .begin _ (.enqueue r) => [r.id]
  | _ => []

structure MailDelivery where
  mail : SharedOutbox
  accountsOpen : Bool := false
  applicants : Nat → Option NewUser := fun _ => none
  provenance : Provenance := {}
  workers : SharedBroker
  queuesOpen : Bool := false
  asked : List Request := []
  past : List Entry := []
  readers : Nat → Option Reader := fun _ => none
  verdicts : List (LeasedTask × Except TaskError Unit) := []

namespace MailDelivery

inductive Side where
  | accounts
  | queues

inductive Event where
  | register (who : Nat) (new : NewUser) (now : Moment)
  | mail (event : SharedOutbox.Event)
  | send (who worker : Nat) (now : Moment)
  | work (move : SharedBroker.Move)
  | handle (who : Nat) (task : LeasedTask) (room : Bool)
  | look (who : Nat) (drawn : Uuid)
  | again (who : Nat)
  | conclude (who : Nat)
  | close (side : Side)
  | reopen (side : Side) (policy : CheckpointPolicy) (torn : Journal.Record) (k : Nat)

def start (limits : ArchiveLimits) : MailDelivery where
  mail := .start .unopened []
  workers := .start limits .unopened

def given (p : MailDelivery) : List LeasedTask := grantedIn (p.past ++ p.workers.log)

def author? (p : MailDelivery) : SharedOutbox.Event → Option String
  | .commit who => ((p.mail.processes who).bind (OutboxProcess.registers? (p.applicants who))).map (·.username)
  | _ => none

def atMail (p : MailDelivery) (event : SharedOutbox.Event) (applicants : Nat → Option NewUser) : MailDelivery :=
  let mail := p.mail.step event
  let fresh := mail.committed.drop p.mail.committed.length
  { p with mail, applicants, provenance := { p.provenance with
      entries := p.provenance.entries ++ fresh.map (p.author? event, ·) } }

def atQueues (p : MailDelivery) (move : SharedBroker.Move) : MailDelivery :=
  { p with workers := p.workers.step move, asked := p.asked ++ move.asked }

def withStrays (p : MailDelivery) (ids : List Uuid) : MailDelivery :=
  { p with provenance := { p.provenance with strays := p.provenance.strays ++ ids } }

def withAccounts (p : MailDelivery) (db : Database) : MailDelivery := { p with mail := { p.mail with db } }

def judge (p : MailDelivery) (task : LeasedTask) (ended : Except TaskError Unit) : MailDelivery :=
  { p with verdicts := p.verdicts ++ [(task, ended)] }

def handle (p : MailDelivery) (who : Nat) (task : LeasedTask) (room : Bool) : MailDelivery :=
  match Json.decode VerifyEmail.codec task.record.payload with
  | .error e => p.judge task (VerifyEmail.unreadable e)
  | .ok mail =>
      if room then
        let search := QueryUnderway.begin (Query.getUser mail.username) p.mail.db
        { p.withAccounts p.mail.db.begin.2 with
          readers := setAt p.readers who (some ⟨task, mail.username, search⟩) }
      else p.judge task (VerifyEmail.verdict (.error (.failed .crowded)))

def onAccounts (p : MailDelivery) (found : Bool × Database) : MailDelivery :=
  { p with mail := p.mail.reopened found.2, accountsOpen := found.1, readers := fun _ => none }

def onQueues (p : MailDelivery) (found : Bool × Database) : MailDelivery :=
  { p with workers := .start p.workers.limits found.2, queuesOpen := found.1, past := p.past ++ p.workers.log }

def act (p : MailDelivery) : Event → MailDelivery
  | .register who new now => p.atMail (SharedOutbox.registering who new now) (setAt p.applicants who (some new))
  | .mail event => p.atMail event (event.nextApplicants p.applicants)
  | .send who worker now => match p.mail.processes who with
    | some (.hands (e :: _)) => match TaskRecord.pending e.task now with
      | .ok r => p.atQueues (.begin worker (.enqueue r))
      | .error _ => p
    | _ => p
  | .work move => (p.withStrays move.strays).atQueues move
  | .handle who task room => if task ∈ p.given then p.handle who task room else p
  | .look who drawn => { p with readers := setAt p.readers who ((p.readers who).map fun x =>
      { x with search := x.search.act drawn p.mail.db.state }) }
  | .again who => { p.withAccounts p.mail.db.begin.2 with readers := setAt p.readers who ((p.readers who).map fun x =>
      { x with search := .begin (Query.getUser x.username) p.mail.db }) }
  | .conclude who => match p.readers who with
    | some x => match x.conclude p.mail.db with
      | (some found, db) =>
          { (p.withAccounts db).judge x.task (VerifyEmail.verdict found) with readers := setAt p.readers who none }
      | (none, _) => p
    | none => p
  | .close .accounts => { p with accountsOpen := false }
  | .close .queues => { p with queuesOpen := false }
  | .reopen .accounts policy torn k => p.onAccounts (p.mail.db.reopen policy torn k)
  | .reopen .queues policy torn k => p.onQueues (p.workers.shared.db.reopen policy torn k)

def serves (p : MailDelivery) : Event → Bool
  | .send .. | .work _ => p.queuesOpen
  | .close _ | .reopen .. => true
  | _ => p.accountsOpen

def step (p : MailDelivery) (e : Event) : MailDelivery := if p.serves e then p.act e else p

def run (p : MailDelivery) (events : List Event) : MailDelivery := events.foldl step p

structure Sound (p : MailDelivery) : Prop where
  mail : p.mail.Sound
  enrols : p.mail.Enrols p.applicants
  entered : p.provenance.entries.map (·.2) = p.mail.committed
  registered : ∀ name e, (some name, e) ∈ p.provenance.entries →
    p.mail.db.state.value? (userRow name) ≠ none ∧ ∃ id, e.task = VerifyEmail.letter name id
  supplied : p.workers.Supplied (p.provenance.Covers · True) p.asked p.past
  readers : ∀ who x, p.readers who = some x → ∃ there : Prop, x.search.Looks x.username there ∧
    (there → p.mail.db.state.value? (userRow x.username) ≠ none) ∧ p.provenance.Covers x.task.record.matter there
  verdicts : ∀ v ∈ p.verdicts, p.provenance.Covers v.1.record.matter (Unskipped v.2)

variable {p : MailDelivery}

theorem nothingUnopened : SharedOutbox.Stocked [] Database.unopened.state where
  named _ mem := by cases mem
  rows _ _ _ there := by cases there
  present _ mem := by cases mem

theorem suppliedUnopened (limits : ArchiveLimits) (such : Task → Prop) :
    (SharedBroker.start limits .unopened).Supplied such [] [] where
  sound := ⟨{}, {
    kept := ⟨State.datedEmpty, fun found => by cases found⟩
    works := fun _ _ found => by cases found
    filed := fun _ _ _ held => by cases held
    rows := rfl
    traced := trivial }⟩
  recoverable := Database.recoverableUnopened
  handed _ _ found := by cases found
  stocked _ _ _ stored := by cases stored
  given _ mem := by cases mem

theorem soundStart (limits : ArchiveLimits) : (start limits).Sound where
  mail := SharedOutbox.soundStart nothingUnopened
  enrols := {
    recoverable := Database.recoverableUnopened
    users := fun _ _ _ there => by cases there
    processes := fun _ _ found => by cases found }
  entered := rfl
  registered _ _ mem := by cases mem
  supplied := suppliedUnopened limits _
  readers _ _ found := by cases found
  verdicts _ mem := by cases mem

theorem soundLater (h : p.Sound) {later : MailDelivery} (within : p.provenance.Within later.provenance)
    (stays : ∀ name, p.mail.db.state.value? (userRow name) ≠ none → later.mail.db.state.value? (userRow name) ≠ none) :
    (∀ who x, p.readers who = some x → ∃ there : Prop, x.search.Looks x.username there ∧
      (there → later.mail.db.state.value? (userRow x.username) ≠ none) ∧
      later.provenance.Covers x.task.record.matter there) ∧
    ∀ v ∈ p.verdicts, later.provenance.Covers v.1.record.matter (Unskipped v.2) := by
  refine ⟨fun who x found => ?_, fun v mem => Provenance.coversMono (h.verdicts v mem) within id⟩
  obtain ⟨there, looks, row, covers⟩ := h.readers who x found
  exact ⟨there, looks, fun is => stays _ (row is), Provenance.coversMono covers within id⟩

theorem entriesLater (p : MailDelivery) (event : SharedOutbox.Event) (applicants : Nat → Option NewUser) :
    p.provenance.Within (p.atMail event applicants).provenance := ⟨List.subset_append_left _ _, List.Subset.refl _⟩

theorem freshRegistered (h : p.Sound) {event : SharedOutbox.Event} {name : String} {e : OutboxEntry}
    (author : p.author? event = some name) (mem : e ∈ (p.mail.step event).committed.drop p.mail.committed.length) :
    (p.mail.step event).db.state.value? (userRow name) ≠ none ∧ ∃ id, e.task = VerifyEmail.letter name id := by
  rcases SharedOutbox.stepCommits p.mail event with same | ⟨who, c, r, rfl, process, ready, ok, after, committed⟩
  · rw [same, List.drop_length] at mem
    cases mem
  · rw [committed, List.drop_left] at mem
    obtain ⟨new, applies, rfl⟩ := Option.map_eq_some_iff.mp author
    rw [process, Option.bind_some] at applies
    obtain ⟨⟨enrolled, enrolling, admits⟩, -⟩ := OutboxProcess.enrolsReady (h.enrols.processes who c process) ready
    obtain ⟨there, id, now, staged⟩ := admits new applies
    rw [staged] at mem
    cases List.mem_singleton.mp mem
    exact ⟨after ▸ Transaction.enrollingStays enrolling ok (.inr there), id, rfl⟩

theorem stepEntered (p : MailDelivery) (event : SharedOutbox.Event) :
    p.mail.committed ++ (p.mail.step event).committed.drop p.mail.committed.length = (p.mail.step event).committed := by
  rcases SharedOutbox.stepCommits p.mail event with same | ⟨_, _, _, _, _, _, _, _, committed⟩
  · rw [same, List.drop_length, List.append_nil]
  · rw [committed, List.drop_left]

theorem soundAtMail (h : p.Sound) {event : SharedOutbox.Event} {applicants : Nat → Option NewUser}
    (enrols : (p.mail.step event).Enrols applicants) : (p.atMail event applicants).Sound := by
  have within := entriesLater p event applicants
  obtain ⟨readers, verdicts⟩ := soundLater h within fun _ => SharedOutbox.userStays h.enrols event
  refine ⟨SharedOutbox.soundMoves h.mail (SharedOutbox.stepMoves h.mail event), enrols, ?_, fun name e mem => ?_, ?_,
    readers, verdicts⟩
  · rw [atMail, List.map_append, h.entered, List.map_map]
    exact (congrArg _ (List.map_id _)).trans (stepEntered p event)
  · rcases List.mem_append.mp mem with mem | mem
    · obtain ⟨there, letter⟩ := h.registered name e mem
      exact ⟨SharedOutbox.userStays h.enrols event there, letter⟩
    · obtain ⟨x, fresh, same⟩ := List.mem_map.mp mem
      obtain ⟨author, rfl⟩ := Prod.mk.inj same
      exact freshRegistered h author fresh
  · exact SharedBroker.suppliedMono h.supplied (fun m covers => Provenance.coversMono covers within id)
      (List.Subset.refl _)

theorem soundAtQueues (h : p.Sound) {move : SharedBroker.Move}
    (fits : ∀ request ∈ (p.atQueues move).asked, request.NamesFit)
    (covers : ∀ who r, move = .begin who (.enqueue r) → p.provenance.Covers r.matter True) :
    (p.atQueues move).Sound where
  mail := h.mail
  enrols := h.enrols
  entered := h.entered
  registered := h.registered
  supplied := by
    have before : p.workers.Supplied (p.provenance.Covers · True) (p.atQueues move).asked p.past :=
      SharedBroker.suppliedMono h.supplied (fun _ => id) (List.subset_append_left _ _)
    refine SharedBroker.suppliedStep before fits ?_
    rintro who request rfl
    refine ⟨List.mem_append_right _ (List.mem_singleton_self _), fun r handed => ?_⟩
    cases request with
    | enqueue x => cases handed; exact covers who r rfl
    | _ => cases handed
  readers := h.readers
  verdicts := h.verdicts

theorem soundWithStrays (h : p.Sound) (ids : List Uuid) : (p.withStrays ids).Sound := by
  have within : p.provenance.Within (p.withStrays ids).provenance := ⟨List.Subset.refl _, List.subset_append_left _ _⟩
  obtain ⟨readers, verdicts⟩ := soundLater h within fun _ => id
  exact { h with
    supplied := SharedBroker.suppliedMono h.supplied (fun m covers => Provenance.coversMono covers within id)
      (List.Subset.refl _)
    readers, verdicts }

theorem soundWithAccounts (h : p.Sound) {db : Database} (used : p.mail.db.Used (fun _ => False) db) :
    (p.withAccounts db).Sound := by
  have same : db.state = p.mail.db.state := by
    rcases Database.usedCases used with same | ⟨_, own, -⟩
    · exact same
    · exact own.elim
  exact { h with
    mail := SharedOutbox.soundMoves h.mail (.aside same)
    enrols := ⟨Database.recoverableUsed h.enrols.recoverable used fun _ own => own.elim,
      by rw [withAccounts, same]; exact h.enrols.users, h.enrols.processes⟩
    registered := by rw [withAccounts, same]; exact h.registered
    readers := by rw [withAccounts, same]; exact h.readers }

theorem soundJudge (h : p.Sound) {task : LeasedTask} {ended : Except TaskError Unit}
    (covers : p.provenance.Covers task.record.matter (Unskipped ended)) : (p.judge task ended).Sound := by
  refine { h with verdicts := fun v mem => ?_ }
  rcases List.mem_append.mp mem with mem | mem
  · exact h.verdicts v mem
  · cases List.mem_singleton.mp mem
    exact covers

theorem addressed (h : p.Sound) {m : Task} {such : Prop} (covers : p.provenance.Covers m such) :
    p.provenance.Covers m (such ∧ ∃ name, Json.decode VerifyEmail.codec m.payload = .ok ⟨name⟩ ∧
      p.mail.db.state.value? (userRow name) ≠ none) := by
  rcases covers with ⟨⟨author, e⟩, mem, id, type, payload, own⟩ | stray
  · refine .inl ⟨(author, e), mem, id, type, payload, fun named => ⟨own named, ?_⟩⟩
    cases author with
    | none => exact absurd rfl named
    | some name =>
      obtain ⟨there, id, letter⟩ := h.registered name e mem
      refine ⟨name, ?_, there⟩
      rw [← payload]
      dsimp only
      rw [letter]
      exact VerifyEmail.decodePayload ⟨name⟩
  · exact .inr stray

theorem soundHandle (h : p.Sound) (who : Nat) {task : LeasedTask} (given : task ∈ p.given) (room : Bool) :
    (p.handle who task room).Sound := by
  have covers := addressed h (h.supplied.given task given)
  unfold handle
  split
  · rename_i e unread
    -- The letter of a registration can be read, so this one is not among them.
    refine soundJudge h (Provenance.coversMono covers .refl ?_)
    rintro ⟨-, name, read, -⟩
    cases unread.symm.trans read
  · rename_i mail read
    split
    · have began : (p.withAccounts p.mail.db.begin.2).Sound := soundWithAccounts h .begun
      refine { began with readers := setAtAll began.readers ?_ }
      rintro _ ⟨⟩
      refine ⟨p.mail.db.state.value? (userRow mail.username) ≠ none, .asks rfl, id, ?_⟩
      refine Provenance.coversMono covers .refl ?_
      rintro ⟨-, name, same, there⟩
      cases read.symm.trans same
      exact there
    · refine soundJudge h (Provenance.coversMono covers .refl fun _ => ?_)
      exact VerifyEmail.verdictUnskipped nofun

theorem pendingMatter {task : NewTask} {now : Moment} {r : TaskRecord} (fresh : TaskRecord.pending task now = .ok r) :
    task.id = r.matter.id ∧ task.type = r.matter.type ∧ task.payload = r.matter.payload := by
  obtain ⟨⟨id, type, payload⟩, -⟩ := TaskRecord.pendingMade fresh
  exact ⟨id.symm, type.symm, payload.symm⟩

theorem soundSend (h : p.Sound) {who worker : Nat} {now : Moment}
    (fits : ∀ request ∈ (p.act (.send who worker now)).asked, request.NamesFit) :
    (p.act (.send who worker now)).Sound := by
  revert fits
  simp only [act]
  split
  · rename_i e later process
    split
    · rename_i r fresh
      intro fits
      refine soundAtQueues h fits ?_
      rintro _ _ ⟨⟩
      have committed : e ∈ p.mail.committed := h.mail.processes who _ process List.mem_cons_self
      rw [← h.entered] at committed
      obtain ⟨x, mem, rfl⟩ := List.mem_map.mp committed
      obtain ⟨id, type, payload⟩ := pendingMatter fresh
      exact .inl ⟨x, mem, id, type, payload, fun _ => trivial⟩
    · exact fun _ => h
  · exact fun _ => h

theorem soundReading (h : p.Sound) {who : Nat} {change : Reader → Reader}
    (keeps : ∀ x there, x.search.Looks x.username there →
      (there → p.mail.db.state.value? (userRow x.username) ≠ none) → (change x).task = x.task ∧
        (change x).username = x.username ∧ (change x).search.Looks x.username there) :
    ({ p with readers := setAt p.readers who ((p.readers who).map change) } : MailDelivery).Sound := by
  refine { h with readers := setAtAll h.readers fun y changed => ?_ }
  obtain ⟨x, found, rfl⟩ := Option.map_eq_some_iff.mp changed
  obtain ⟨there, looks, row, covers⟩ := h.readers who x found
  obtain ⟨task, username, looks⟩ := keeps x there looks row
  exact ⟨there, username ▸ looks, username ▸ row, task ▸ covers⟩

theorem soundConclude (h : p.Sound) (who : Nat) : (p.act (.conclude who)).Sound := by
  simp only [act]
  split
  · rename_i x reader
    obtain ⟨there, looks, -, covers⟩ := h.readers who x reader
    obtain ⟨same, unskipped⟩ := Reader.concludeLooks looks p.mail.db
    split
    · rename_i found db ended
      rw [ended] at same unskipped
      obtain rfl : db = p.mail.db := same
      have judged : (p.judge x.task (VerifyEmail.verdict found)).Sound :=
        soundJudge h (Provenance.coversMono covers .refl fun is => unskipped found rfl is)
      exact { judged with readers := setAtNone judged.readers }
    · exact h
  · exact h

theorem soundOnAccounts (h : p.Sound) {found : Bool × Database} (recoverable : found.2.Recoverable)
    (rows : found.2.state.value? = p.mail.db.state.value?) : (p.onAccounts found).Sound where
  mail := SharedOutbox.soundReopened h.mail rows
  enrols := SharedOutbox.enrolsReopened h.enrols recoverable rows
  entered := h.entered
  registered name e mem := by
    obtain ⟨there, letter⟩ := h.registered name e mem
    exact ⟨fun gone => there (congrFun rows _ ▸ gone), letter⟩
  supplied := h.supplied
  readers _ _ found := by cases found
  verdicts := h.verdicts

theorem soundOnQueues (h : p.Sound) {found : Bool × Database} (recoverable : found.2.Recoverable)
    (rows : found.2.state.value? = p.workers.shared.db.state.value?)
    (dated : p.workers.shared.db.state.Dated → found.2.state.Dated) : (p.onQueues found).Sound :=
  { h with supplied := SharedBroker.suppliedReopened h.supplied recoverable rows dated }

theorem soundAct (h : p.Sound) (e : Event) (fits : ∀ request ∈ (p.act e).asked, request.NamesFit) :
    (p.act e).Sound := by
  cases e with
  | register who new now => exact soundAtMail h (SharedOutbox.enrolsRegister h.enrols who new now)
  | mail event => exact soundAtMail h (SharedOutbox.enrolsStep h.enrols event)
  | send who worker now => exact soundSend h fits
  | work move =>
    refine soundAtQueues (soundWithStrays h move.strays) fits ?_
    rintro who r rfl
    exact .inr (List.mem_append_right _ (List.mem_singleton_self _))
  | handle who task room =>
    simp only [act]
    split
    · rename_i given
      exact soundHandle h who given room
    · exact h
  | look who drawn =>
    refine soundReading h fun x there looks row => ⟨rfl, rfl, ?_⟩
    exact QueryUnderway.looksAct looks h.enrols.users row drawn
  | again who =>
    have began : (p.withAccounts p.mail.db.begin.2).Sound := soundWithAccounts h .begun
    exact soundReading began fun x there _ _ => ⟨rfl, rfl, .asks rfl⟩
  | conclude who => exact soundConclude h who
  | close side => cases side <;> exact { h with }
  | reopen side policy torn k =>
    cases side with
    | accounts =>
      obtain ⟨recoverable, rows, -⟩ := Database.reopenRecovers h.enrols.recoverable policy torn k
      exact soundOnAccounts h recoverable rows
    | queues =>
      obtain ⟨recoverable, rows, dated⟩ := Database.reopenRecovers h.supplied.recoverable policy torn k
      exact soundOnQueues h recoverable rows dated

theorem soundStep (h : p.Sound) (e : Event) (fits : ∀ request ∈ (p.step e).asked, request.NamesFit) :
    (p.step e).Sound := by
  revert fits
  unfold step
  split
  · exact soundAct h e
  · exact fun _ => h

theorem actAsked (p : MailDelivery) (e : Event) : p.asked ⊆ (p.act e).asked := by
  cases e with
  | send who worker now =>
    simp only [act]
    split
    · split
      · exact List.subset_append_left _ _
      · exact List.Subset.refl _
    · exact List.Subset.refl _
  | work move => exact List.subset_append_left _ _
  | handle who task room =>
    simp only [act, handle]
    split
    · split
      · exact List.Subset.refl _
      · split <;> exact List.Subset.refl _
    · exact List.Subset.refl _
  | conclude who =>
    simp only [act]
    split
    · split <;> exact List.Subset.refl _
    · exact List.Subset.refl _
  | close side => cases side <;> exact List.Subset.refl _
  | reopen side policy torn k => cases side <;> exact List.Subset.refl _
  | _ => exact List.Subset.refl _

theorem runAsked (p : MailDelivery) (events : List Event) : p.asked ⊆ (p.run events).asked := by
  induction events generalizing p with
  | nil => exact List.Subset.refl _
  | cons e events ih =>
    have stepped : p.asked ⊆ (p.step e).asked := by
      unfold step
      split
      · exact actAsked p e
      · exact List.Subset.refl _
    exact List.Subset.trans stepped (ih (p.step e))

theorem soundRun (h : p.Sound) {events : List Event} (fits : ∀ request ∈ (p.run events).asked, request.NamesFit) :
    (p.run events).Sound := by
  -- What is asked only grows, so that names which fit at the end have fitted at every step.
  induction events generalizing p with
  | nil => exact h
  | cons e events ih =>
    exact ih (soundStep h e fun request mem => fits request (runAsked (p.step e) events mem)) fits

/-- Whenever the letter of a registration is handed out, whatever went on in between, it is for the handler of
verification mails, tells it just the name of the user, and the user is there. However the handler goes about it, it
never gives the letter up. -/
theorem lettersFindUsers (limits : ArchiveLimits) {events : List Event}
    (fits : ∀ request ∈ ((start limits).run events).asked, request.NamesFit) :
    let p := (start limits).run events
    ∀ name e, (some name, e) ∈ p.provenance.entries → p.provenance.Sole (some name, e) →
      (∀ t ∈ p.given, t.record.id = e.task.id → t.record.type = VerifyEmail.taskType ∧
        Json.decode VerifyEmail.codec t.record.payload = .ok ⟨name⟩ ∧
        ∃ user : User, user.username = name ∧
          p.mail.db.state.value? (userRow name) = some (Json.encode User.codec user) ∧
          ∀ b : Bank, b.accounts.state.value? = p.mail.db.state.value? →
            Unskipped (Bank.verifyEmail t.record.toTask b).1 ∧
              (b.HasRoom → (Bank.verifyEmail t.record.toTask b).1 = .ok ())) ∧
      ∀ v ∈ p.verdicts, v.1.record.id = e.task.id → Unskipped v.2 := by
  intro p name e mem sole
  have sound : p.Sound := soundRun (soundStart limits) fits
  obtain ⟨there, id, letter⟩ := sound.registered name e mem
  refine ⟨fun t given same => ?_, fun v judged same => ?_⟩
  · obtain ⟨type, payload, -⟩ := Provenance.coversSole (sound.supplied.given t given) sole same nofun
    rw [letter] at type payload
    have written : VerifyEmail.payload ⟨name⟩ = t.record.payload := payload
    have read : Json.decode VerifyEmail.codec t.record.payload = .ok ⟨name⟩ :=
      written ▸ VerifyEmail.decodePayload ⟨name⟩
    obtain ⟨value, held⟩ := Option.ne_none_iff_exists'.mp there
    obtain ⟨user, row, rfl⟩ := sound.enrols.users _ value rfl held
    obtain rfl := Query.userRowInjective row
    refine ⟨type.symm, read, user, rfl, held, fun b rows => ?_⟩
    exact Bank.verifyEmailFinds (rows ▸ held) read
  · exact (Provenance.coversSole (sound.verdicts v judged) sole same nofun).2.2

def zoe : NewUser := ⟨"Zoë 🐢", .depositor, "", "", ""⟩

def zoesEntry : OutboxEntry := ⟨.versionFour 7, VerifyEmail.letter zoe.username (.versionFour 7), .epoch⟩

def delivered : LeasedTask :=
  let lease : Lease := ⟨zoesEntry.id, TaskOptions.critical, .versionFour 8, ⟨84000, by decide⟩⟩
  ⟨{ id := lease.taskId, type := zoesEntry.task.type, payload := zoesEntry.task.payload, queue := lease.queue
     maxRetry := VerifyEmail.maxRetry, notBefore := ⟨10000, by decide⟩, retried := 0
     state := .active lease.leaseId lease.expiresAt, lastError := none, enqueuedAt := .epoch }, lease⟩

def detour : List Event :=
  let asked (who : Nat) : Event := .mail (.act who zoesEntry.id)
  let worked (who : Nat) : Event := .work (.act who delivered.lease.leaseId)
  let torn : Journal.Record := ⟨9, [.put Query.users (Bytes.ofText zoe.username) .empty]⟩
  [.reopen .accounts .standard torn 0, .reopen .queues .standard torn 0,
    .register 0 zoe .epoch, asked 0, asked 0, asked 0, asked 0, .mail (.commit 0),
    .mail (.offer 0 { plan := {}, outage := [.enqueue] }), .mail (.relay 1 .epoch), asked 1, .mail (.commit 1),
    .send 1 0 .epoch, worked 0, worked 0, worked 0, .work (.commit 0),
    .work (.begin 1 (.lease TaskOptions.critical ⟨24000, by decide⟩ SharedBroker.minute)),
    worked 1, worked 1, worked 1, .work (.commit 1),
    .handle 2 delivered true, .look 2 zoesEntry.id, .conclude 2,
    .reopen .accounts .standard torn 9, .reopen .queues .standard torn 20]

theorem lettersFindUsersAfterDetour :
    let p := (start .standard).run detour
    (∀ request ∈ p.asked, request.NamesFit) ∧ p.provenance.entries = [(some zoe.username, zoesEntry)] ∧
      p.provenance.Sole (some zoe.username, zoesEntry) ∧ p.given = [delivered] ∧ p.verdicts = [(delivered, .ok ())] ∧
      Json.decode VerifyEmail.codec delivered.record.payload = .ok ⟨zoe.username⟩ ∧
      ∀ b : Bank, b.accounts.state.value? = p.mail.db.state.value? → b.HasRoom →
        (Bank.verifyEmail delivered.record.toTask b).1 = .ok () := by
  intro p
  obtain ⟨fits, entries, strays, given, verdicts⟩ : (∀ request ∈ p.asked, request.NamesFit) ∧
      p.provenance.entries = [(some zoe.username, zoesEntry)] ∧ p.provenance.strays = [] ∧ p.given = [delivered] ∧
      p.verdicts = [(delivered, .ok ())] := by decide +kernel
  have mem : (some zoe.username, zoesEntry) ∈ p.provenance.entries := by simp only [entries, List.mem_singleton]
  have sole : p.provenance.Sole (some zoe.username, zoesEntry) := by
    refine ⟨fun y there _ => ?_, by rw [strays]; exact List.not_mem_nil⟩
    rw [entries] at there
    exact List.mem_singleton.mp there
  obtain ⟨letters, -⟩ := lettersFindUsers .standard fits zoe.username zoesEntry mem sole
  have handed : delivered ∈ p.given := by simp only [given, List.mem_singleton]
  obtain ⟨-, read, user, -, -, handled⟩ := letters delivered handed rfl
  exact ⟨fits, entries, sole, given, verdicts, read, fun b rows => (handled b rows).2⟩

end MailDelivery
end Teller
