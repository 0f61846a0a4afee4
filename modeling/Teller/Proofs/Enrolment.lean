import Teller.Bank.Registration
import Teller.Proofs.Json.Faithful
import Teller.Proofs.Recoverable
import Teller.Proofs.Rounds

/-! What units of work do to the users. Each goes in under their own name; none is altered, and none goes out. A
unit that registers someone leaves the user and the letter to them, or nothing. -/
namespace Teller
open Transaction (Op Buffer)
open Query (users sessions outbox userRow)

theorem Query.userRowInjective {a b : String} (h : userRow a = userRow b) : a = b := by
  have keys := congrArg (fun r : RowId => Bytes.toText? r.key) h
  simpa only [userRow, Journal.Write.toTextOfText, Option.some.injEq] using keys

namespace VerifyEmail

def letter (username : String) (id : Uuid) : NewTask := ⟨id, taskType, payload ⟨username⟩, options⟩

theorem decodePayload (v : VerifyEmail) : Json.decode codec (payload v) = .ok v := by
  have lossless : Json.Lossless 1 codec :=
    Json.losslessFields ⟨Json.losslessString, by decide, trivial⟩ fun _ => rfl
  exact Json.decodeEncode lossless (by decide) v

end VerifyEmail

def State.Enrolled (s : State) : Prop := ∀ r v, r.table = users → s.value? r = some v →
  ∃ user : User, r = userRow user.username ∧ v = Json.encode User.codec user

namespace Transaction

def Enrols (enrolled : List String) : Op → List String → Prop
  | .get _, later | .scan _, later => later = enrolled
  | .put row value, later => (row.table = sessions ∨ row.table = outbox) ∧ later = enrolled ∨
      ∃ user : User, row = userRow user.username ∧ value = Json.encode User.codec user ∧
        later = enrolled ++ [user.username]
  | .delete row, later => row.table = outbox ∧ later = enrolled

structure Enrolling (enrolled : List String) (own : Buffer) : Prop where
  kept : ∀ name ∈ enrolled, ∃ v, own.get? (userRow name) = some (some v)
  put : ∀ r left, r.table = users → own.get? r = some left →
    ∃ user : User, r = userRow user.username ∧ left = some (Json.encode User.codec user)
  tables : ∀ r left, own.get? r = some left → r.table = users ∨ r.table = sessions ∨ r.table = outbox

variable {enrolled later : List String} {own : Buffer}

theorem enrollingBegin : Enrolling [] ∅ := ⟨nofun, nofun, nofun⟩

theorem enrollingElsewhere (h : Enrolling enrolled own) {row : RowId} (left : Option Bytes)
    (elsewhere : row.table = sessions ∨ row.table = outbox) : Enrolling enrolled (own.insert row left) := by
  have apart {r : RowId} (inside : r.table = users) : r ≠ row := by
    rintro rfl
    rw [inside] at elsewhere
    exact absurd elsewhere (by decide)
  refine ⟨fun name mem => ?_, fun r left inside there => ?_, fun r left there => ?_⟩
  · rw [SortedMap.getInsert, if_neg (apart rfl)]
    exact h.kept name mem
  · rw [SortedMap.getInsert, if_neg (apart inside)] at there
    exact h.put r left inside there
  · rw [SortedMap.getInsert] at there
    split at there
    · rename_i here
      exact here ▸ .inr elsewhere
    · exact h.tables r left there

theorem enrollingUser (h : Enrolling enrolled own) (user : User) :
    Enrolling (enrolled ++ [user.username])
      (own.insert (userRow user.username) (some (Json.encode User.codec user))) := by
  refine ⟨fun name mem => ?_, fun r left inside there => ?_, fun r left there => ?_⟩
  · rw [SortedMap.getInsert]
    split
    · exact ⟨_, rfl⟩
    · rename_i other
      rcases List.mem_append.mp mem with mem | mem
      · exact h.kept name mem
      · cases List.mem_singleton.mp mem
        exact absurd rfl other
  · rw [SortedMap.getInsert] at there
    split at there
    · cases there
      exact ⟨user, by assumption, rfl⟩
    · exact h.put r left inside there
  · rw [SortedMap.getInsert] at there
    split at there
    · rename_i here
      exact .inl (here ▸ rfl)
    · exact h.tables r left there

theorem enrollingBuffered (h : Enrolling enrolled own) {op : Op} (enrols : Enrols enrolled op later) :
    Enrolling later (buffered own op) := by
  cases op with
  | get row => cases enrols; exact h
  | scan table => cases enrols; exact h
  | put row value =>
    rcases enrols with ⟨elsewhere, rfl⟩ | ⟨user, rfl, rfl, rfl⟩
    · exact enrollingElsewhere h _ elsewhere
    · exact enrollingUser h user
  | delete row =>
    obtain ⟨inside, rfl⟩ := enrols
    exact enrollingElsewhere h _ (.inr inside)

theorem enrollingFits {t : Transaction} (h : Enrolling enrolled t.writes) : ∀ w ∈ t.toWrites, w.NameFits := by
  refine namesFitWrites fun r left there => ?_
  rcases h.tables r left there with table | table | table <;> rw [table] <;> decide

section
variable {db : Database} {t : Transaction}

theorem enrollingCommit (h : Enrolling enrolled t.writes) (before : db.state.Enrolled)
    (ok : (db.commit t).1 = .ok ()) : (db.commit t).2.state.Enrolled := by
  intro r v inside there
  rw [Database.valueAfterCommit ok] at there
  cases buffer : t.writes.get? r with
  | none =>
    rw [buffer] at there
    exact before r v inside there
  | some left =>
    rw [buffer] at there
    obtain ⟨user, same, rfl⟩ := h.put r left inside buffer
    cases there
    exact ⟨user, same, rfl⟩

theorem enrollingStays (h : Enrolling enrolled t.writes) (ok : (db.commit t).1 = .ok ()) {name : String}
    (there : db.state.value? (userRow name) ≠ none ∨ name ∈ enrolled) :
    (db.commit t).2.state.value? (userRow name) ≠ none := by
  rw [Database.valueAfterCommit ok]
  cases buffer : t.writes.get? (userRow name) with
  | none =>
    rcases there with there | mem
    · exact there
    · obtain ⟨v, put⟩ := h.kept name mem
      cases buffer.symm.trans put
  | some left =>
    obtain ⟨user, -, rfl⟩ := h.put _ left rfl buffer
    exact nofun

end

end Transaction

namespace Query
open Transaction (Enrols)

theorem enrols (q : Ask) (now : Moment) : (q.query now).Keeps Enrols fun _ _ => True := by
  have loading {α : Type} (codec : Json.Codec α) (row : RowId) :
      (load codec row : Query Empty Empty α).Keeps Enrols fun _ _ => True := keepsLoading codec fun _ => rfl
  intro g staged _
  cases q with
  | createUser new =>
    rw [Ask.query, createUserRun]
    refine ⟨g, rfl, fun held => ?_⟩
    cases held with
    | none => exact ⟨_, .inr ⟨User.create new now, rfl, rfl, rfl⟩, trivial⟩
    | some value => trivial
  | getUser username => exact loading _ _ g staged trivial
  | createSession new =>
    rw [Ask.query, createSessionRun]
    refine ⟨g, rfl, fun held => ?_⟩
    cases held with
    | none => exact ⟨g, .inl ⟨.inl rfl, rfl⟩, trivial⟩
    | some value => trivial
  | getSession id => exact loading _ _ g staged trivial
  | setBlocked id blocked =>
    rw [Ask.query, setBlockedRun]
    refine Work.keepsBind (Work.keepsMono (loading Session.codec _ g staged trivial) ?_)
    rintro later (e | found) -
    · trivial
    · exact ⟨later, .inl ⟨.inl rfl, rfl⟩, trivial⟩
  | insertOutbox task => exact ⟨g, .inl ⟨.inr rfl, rfl⟩, trivial⟩
  | listOutbox =>
    rw [Ask.query, listOutboxRun]
    refine ⟨g, rfl, fun rows => ?_⟩
    dsimp only
    cases entriesOf rows <;> trivial
  | deleteOutbox id => exact ⟨g, ⟨rfl, rfl⟩, trivial⟩

theorem stagingEnrols {α : Type} {query : Query Empty Empty α} (h : query.Staging) (g : List String)
    (staged : List OutboxEntry) : (query.run staged).Keeps Enrols (fun _ _ => True) g := by
  induction h generalizing g staged with
  | pure value => trivial
  | throw e => trivial
  | bind first rest ih later =>
    refine Work.keepsBind (Work.keepsMono (ih g staged) ?_)
    rintro g (e | ⟨value, left⟩) -
    · trivial
    · exact later value g left
  | newId => exact fun _ => trivial
  | query adds now => exact enrols _ now g staged trivial
  | observing adds now =>
    exact Work.keepsMono (keepsObserving (enrols _ now) trivial) fun _ _ _ => trivial
  | rethrow h as ih =>
    refine Work.keepsCatch (Work.keepsMono (ih g staged) ?_)
    rintro g (e | found) -
    · trivial
    · trivial

def register (now : Moment) (new : NewUser) : Query Empty Empty User := do
  return (← createUserWith now new VerifyEmail.task).1

theorem registerRun (now : Moment) (new : NewUser) :
    (register now new).run [] = .get (userRow new.username) fun held =>
      if held.isSome then
        .done (.error (.failed (.taken ("username '" ++ new.username ++ "' already exists"))))
      else .put (userRow new.username) (Json.encode User.codec (User.create new now)) <| .fresh fun id =>
        let entry : OutboxEntry := ⟨id, VerifyEmail.letter new.username id, now⟩
        .put (outboxRow id) entry.encoded (.done (.ok (User.create new now, [entry]))) := by
  show Work.get _ _ = _
  congr
  funext held
  cases held <;> rfl

end Query

def Admits (applicant : Option NewUser) {α : Type} (enrolled : List String) :
    Except (Stop StoreError) (α × List OutboxEntry) → Prop
  | .ok (_, staged) => ∀ new, applicant = some new → new.username ∈ enrolled ∧
      ∃ id now, staged = [⟨id, VerifyEmail.letter new.username id, now⟩]
  | .error _ => True

namespace QueryUnderway
variable {α : Type} {applicant : Option NewUser} {underway : QueryUnderway α}

def Enrols (applicant : Option NewUser) (underway : QueryUnderway α) : Prop :=
  ∃ enrolled, Transaction.Enrolling enrolled underway.txn.writes ∧
    underway.rest.Keeps Transaction.Enrols (Admits applicant) enrolled

theorem enrolsBegin {query : Query Empty Empty α} (h : query.Staging) (db : Database) :
    (begin query db).Enrols none := by
  refine ⟨[], Transaction.enrollingBegin, Work.keepsMono (Query.stagingEnrols h [] []) ?_⟩
  rintro g (e | found) -
  · trivial
  · nofun

theorem enrolsClearing (id : Uuid) (db : Database) : (begin (Query.deleteOutbox id) db).Enrols none :=
  ⟨[], Transaction.enrollingBegin, [], ⟨rfl, rfl⟩, nofun⟩

theorem enrolsRegister (now : Moment) (new : NewUser) (db : Database) :
    (begin (Query.register now new) db).Enrols (some new) := by
  refine ⟨[], Transaction.enrollingBegin, ?_⟩
  rw [begin, Query.registerRun]
  refine ⟨[], rfl, fun held => ?_⟩
  cases held with
  | some value => trivial
  | none =>
    refine ⟨_, .inr ⟨User.create new now, rfl, rfl, rfl⟩, fun id => ⟨_, .inl ⟨.inr rfl, rfl⟩, ?_⟩⟩
    rintro _ ⟨⟩
    exact ⟨List.mem_singleton_self _, id, now, rfl⟩

theorem enrolsAct (h : underway.Enrols applicant) (drawn : Uuid) (s : State) :
    (underway.act drawn s).Enrols applicant := by
  refine keepsAct (fun enrolled t => Transaction.Enrolling enrolled t.writes) h (fun enrolling allowed => ?_) drawn s
  rw [Transaction.performWrites]
  exact Transaction.enrollingBuffered enrolling allowed

theorem enrolsResult {value : α} {staged : List OutboxEntry} (h : underway.Enrols applicant)
    (ended : underway.rest.result? = some (value, staged)) :
    ∃ enrolled, Transaction.Enrolling enrolled underway.txn.writes ∧ ∀ new, applicant = some new →
      new.username ∈ enrolled ∧ ∃ id now, staged = [⟨id, VerifyEmail.letter new.username id, now⟩] :=
  keepsResult (fun enrolled t => Transaction.Enrolling enrolled t.writes) h ended

end QueryUnderway

namespace OutboxProcess
variable {applicant : Option NewUser} {c : OutboxProcess}

def registers? (applicant : Option NewUser) : OutboxProcess → Option NewUser
  | stages _ => applicant
  | _ => none

def Enrols (applicant : Option NewUser) : OutboxProcess → Prop
  | stages underway => underway.Enrols applicant
  | lists _ underway => underway.Enrols none
  | clears _ _ underway => underway.Enrols none
  | hands _ | taken _ _ => True

theorem enrolsAct (h : c.Enrols applicant) (drawn : Uuid) (s : State) : (c.act drawn s).Enrols applicant := by
  cases c with
  | stages underway => exact QueryUnderway.enrolsAct h drawn s
  | lists cutoff underway => exact QueryUnderway.enrolsAct h drawn s
  | hands entries => trivial
  | taken id later => trivial
  | clears id later underway => exact QueryUnderway.enrolsAct h drawn s

theorem enrolsLeave {rest : OutboxProcess} (left : c.leave = some rest) : rest.Enrols applicant := by
  cases c <;> cases left <;> trivial

theorem enrolsReady {r : Ready} (h : c.Enrols applicant) (ready : c.ready? = some r) :
    (∃ enrolled, Transaction.Enrolling enrolled r.txn.writes ∧ ∀ new, c.registers? applicant = some new →
      new.username ∈ enrolled ∧ ∃ id now, r.staged = [⟨id, VerifyEmail.letter new.username id, now⟩]) ∧
    r.onward.Enrols applicant ∧ ∀ c, r.refused = some c → c.Enrols applicant := by
  cases c with
  | stages underway =>
    obtain ⟨⟨_, staged⟩, ended, rfl⟩ := Option.map_eq_some_iff.mp ready
    exact ⟨QueryUnderway.enrolsResult h ended, trivial, fun _ refused => by cases refused⟩
  | lists cutoff underway =>
    obtain ⟨⟨_, staged⟩, ended, rfl⟩ := Option.map_eq_some_iff.mp ready
    exact ⟨QueryUnderway.enrolsResult h ended, trivial, fun _ refused => by cases refused⟩
  | hands entries => cases ready
  | taken id later => cases ready
  | clears id later underway =>
    obtain ⟨⟨_, staged⟩, ended, rfl⟩ := Option.map_eq_some_iff.mp ready
    refine ⟨QueryUnderway.enrolsResult h ended, trivial, ?_⟩
    rintro _ ⟨⟩
    trivial

end OutboxProcess

namespace SharedOutbox
variable {m : SharedOutbox} {applicants : Nat → Option NewUser}

def Event.nextApplicants (applicants : Nat → Option NewUser) : Event → Nat → Option NewUser
  | .unit who _ _ => setAt applicants who none
  | _ => applicants

structure Enrols (m : SharedOutbox) (applicants : Nat → Option NewUser) : Prop where
  recoverable : m.db.Recoverable
  users : m.db.state.Enrolled
  processes : ∀ who c, m.processes who = some c → c.Enrols (applicants who)

def Finishes (m : SharedOutbox) (t : Transaction) : Prop :=
  ∃ who c r, m.processes who = some c ∧ c.ready? = some r ∧ r.txn = t

theorem stepUsed (m : SharedOutbox) (event : Event) : m.db.Used m.Finishes (m.step event).db := by
  cases event with
  | unit who body staging => exact .begun
  | relay who cutoff => exact .begun
  | clear who =>
    simp only [step]
    split
    · exact .begun
    · exact .still
  | act who drawn => exact .still
  | commit who =>
    simp only [step]
    split
    · rename_i r ready
      obtain ⟨c, process, ready⟩ := Option.bind_eq_some_iff.mp ready
      have used : m.db.Used m.Finishes (m.db.commit r.txn).2 := Database.usedCommit ⟨who, c, r, process, ready, rfl⟩
      split
      · rename_i db ok
        rwa [ok] at used
      · rename_i cause db failed
        rwa [failed] at used
    · exact .still
  | offer who broker =>
    simp only [step]
    split
    · split <;> exact .still
    · exact .still
  | leave who => exact .still
  | checkpoint => exact .checkpointed
  | block on => exact .blocked on

theorem finishesEnrolling (h : m.Enrols applicants) {t : Transaction} (own : m.Finishes t) :
    ∃ enrolled, Transaction.Enrolling enrolled t.writes := by
  obtain ⟨who, c, r, process, ready, rfl⟩ := own
  obtain ⟨⟨enrolled, enrolling, -⟩, -⟩ := OutboxProcess.enrolsReady (h.processes who c process) ready
  exact ⟨enrolled, enrolling⟩

theorem userStays (h : m.Enrols applicants) (event : Event) {name : String}
    (there : m.db.state.value? (userRow name) ≠ none) : (m.step event).db.state.value? (userRow name) ≠ none := by
  rcases Database.usedCases (stepUsed m event) with same | ⟨t, own, ok, after⟩
  · exact same ▸ there
  · obtain ⟨enrolled, enrolling⟩ := finishesEnrolling h own
    exact after ▸ Transaction.enrollingStays enrolling ok (.inl there)

theorem processesStep (h : m.Enrols applicants) (event : Event) :
    ∀ who c, (m.step event).processes who = some c → c.Enrols (event.nextApplicants applicants who) := by
  have others {who : Nat} : ∀ other c, other ≠ who → m.processes other = some c → c.Enrols (applicants other) :=
    fun other c _ => h.processes other c
  cases event with
  | unit who body staging =>
    refine setAtEach (fun other c apart found => ?_) ?_
    · rw [Event.nextApplicants, setAtOther apart]
      exact h.processes other c found
    · rintro _ ⟨⟩
      rw [Event.nextApplicants, setAtSelf]
      exact QueryUnderway.enrolsBegin staging m.db
  | relay who cutoff =>
    refine setAtEach others ?_
    rintro _ ⟨⟩
    exact QueryUnderway.enrolsBegin (.query (q := .listOutbox) nofun .epoch) m.db
  | clear who =>
    simp only [step]
    split
    · refine setAtEach others ?_
      rintro _ ⟨⟩
      exact QueryUnderway.enrolsClearing _ m.db
    · exact h.processes
  | act who drawn =>
    refine setAtEach others fun c found => ?_
    obtain ⟨before, process, rfl⟩ := Option.map_eq_some_iff.mp found
    exact OutboxProcess.enrolsAct (h.processes who before process) drawn m.db.state
  | commit who =>
    simp only [step]
    split
    · rename_i r ready
      obtain ⟨c, process, ready⟩ := Option.bind_eq_some_iff.mp ready
      obtain ⟨-, onward, refused⟩ := OutboxProcess.enrolsReady (h.processes who c process) ready
      split
      · refine setAtEach others ?_
        rintro _ ⟨⟩
        exact onward
      · exact setAtEach others refused
    · exact h.processes
  | offer who broker =>
    simp only [step]
    split
    · split
      · refine setAtEach others ?_
        rintro _ ⟨⟩
        trivial
      · refine setAtEach others ?_
        rintro _ ⟨⟩
        trivial
    · exact h.processes
  | leave who =>
    refine setAtEach others fun c found => ?_
    obtain ⟨before, -, left⟩ := Option.bind_eq_some_iff.mp found
    exact OutboxProcess.enrolsLeave left
  | checkpoint => exact h.processes
  | block on => exact h.processes

theorem enrolsStep (h : m.Enrols applicants) (event : Event) :
    (m.step event).Enrols (event.nextApplicants applicants) := by
  refine ⟨?_, ?_, processesStep h event⟩
  · refine Database.recoverableUsed h.recoverable (stepUsed m event) fun t own ok => ?_
    obtain ⟨enrolled, enrolling⟩ := finishesEnrolling h own
    exact Transaction.enrollingFits enrolling
  · rcases Database.usedCases (stepUsed m event) with same | ⟨t, own, ok, after⟩
    · exact same ▸ h.users
    · obtain ⟨enrolled, enrolling⟩ := finishesEnrolling h own
      exact after ▸ Transaction.enrollingCommit enrolling h.users ok

def registering (who : Nat) (new : NewUser) (now : Moment) : Event :=
  .unit who (Query.register now new) (stagingRegister now new)

theorem enrolsRegister (h : m.Enrols applicants) (who : Nat) (new : NewUser) (now : Moment) :
    (m.step (registering who new now)).Enrols (setAt applicants who (some new)) := by
  obtain ⟨recoverable, users, -⟩ := enrolsStep h (registering who new now)
  refine ⟨recoverable, users, setAtEach (fun other c apart found => ?_) ?_⟩
  · rw [setAtOther apart]
    exact h.processes other c found
  · rintro _ ⟨⟩
    rw [setAtSelf]
    exact QueryUnderway.enrolsRegister now new m.db

theorem stepCommits (m : SharedOutbox) (event : Event) : (m.step event).committed = m.committed ∨
    ∃ who c r, event = .commit who ∧ m.processes who = some c ∧ c.ready? = some r ∧ (m.db.commit r.txn).1 = .ok () ∧
      (m.step event).db = (m.db.commit r.txn).2 ∧ (m.step event).committed = m.committed ++ r.staged := by
  cases event with
  | commit who =>
    simp only [step]
    split
    · rename_i r ready
      obtain ⟨c, process, ready⟩ := Option.bind_eq_some_iff.mp ready
      split
      · rename_i db ok
        exact .inr ⟨who, c, r, rfl, process, ready, congrArg Prod.fst ok, (congrArg Prod.snd ok).symm, rfl⟩
      · exact .inl rfl
    · exact .inl rfl
  | clear who =>
    simp only [step]
    split <;> exact .inl rfl
  | offer who broker =>
    simp only [step]
    split
    · split <;> exact .inl rfl
    · exact .inl rfl
  | _ => exact .inl rfl

def reopened (m : SharedOutbox) (db : Database) : SharedOutbox := { m with db, processes := fun _ => none }

theorem enrolsReopened (h : m.Enrols applicants) {db : Database} (recoverable : db.Recoverable)
    (rows : db.state.value? = m.db.state.value?) : (m.reopened db).Enrols applicants := by
  refine ⟨recoverable, fun r v inside there => ?_, fun _ _ found => by cases found⟩
  exact h.users r v inside (congrFun rows r ▸ there)

theorem soundReopened (h : m.Sound) {db : Database} (rows : db.state.value? = m.db.state.value?) :
    (m.reopened db).Sound where
  named := h.named
  rows r v inside there := h.rows r v inside (congrFun rows r ▸ there)
  kept e mem := (congrFun rows (Query.outboxRow e.id)).symm ▸ h.kept e mem
  traced := h.traced
  processes _ _ found := by cases found

end SharedOutbox
end Teller
