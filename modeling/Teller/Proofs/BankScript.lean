import Teller.Bank.Store
import Teller.Proofs.WorkSteps

/-! Bodies that reach the bank's tables by its queries alone. A script asks one query after the other and
goes by the answers, failures among them; what it was answered is kept beside its result. -/
namespace Teller
open Transaction (Op)

inductive Ask where
  | createUser (new : NewUser)
  | getUser (username : String)
  | createSession (new : NewSession)
  | getSession (id : Uuid)
  | setBlocked (id : Uuid) (blocked : Bool)
  | insertOutbox (task : NewTask)
  | listOutbox
  | deleteOutbox (id : Uuid)

namespace Ask

abbrev Result : Ask → Type
  | createUser _ | getUser _ => User
  | createSession _ | getSession _ | setBlocked _ _ => Session
  | insertOutbox _ => OutboxEntry
  | listOutbox => List OutboxEntry
  | deleteOutbox _ => Unit

def query (now : Moment) : (q : Ask) → Query Empty Empty q.Result
  | createUser new => Query.createUser now new
  | getUser username => Query.getUser username
  | createSession new => Query.createSession now new
  | getSession id => Query.getSession id
  | setBlocked id blocked => Query.setBlocked id blocked
  | insertOutbox task => Query.insertOutbox now task
  | listOutbox => Query.listOutbox
  | deleteOutbox id => Query.deleteOutbox id

end Ask

structure Answered where
  ask : Ask
  answer : Except (Stop StoreError) ask.Result

inductive Script (α : Type) where
  | finish (result : Except (Stop StoreError) α)
  | ask (q : Ask) (next : Except (Stop StoreError) q.Result → Script α)

namespace Script
variable {α : Type}

def body (now : Moment) : Script α → Query Empty Empty (α × List Answered)
  | finish (.ok value) => pure (value, [])
  | finish (.error e) => throw e
  | ask q next => do
      let answer ← observing (q.query now)
      let (value, later) ← (next answer).body now
      return (value, ⟨q, answer⟩ :: later)

def Asks (such : Ask → Prop) : Script α → Prop
  | finish _ => True
  | ask q next => such q ∧ ∀ answer, (next answer).Asks such

theorem asksAny (script : Script α) : script.Asks fun _ => True := by
  induction script with
  | finish result => trivial
  | ask q next ih => exact ⟨trivial, ih⟩

end Script

namespace Query
variable {Event Answer α : Type}

def decoded (codec : Json.Codec α) (value : Bytes) : Except (Stop StoreError) α :=
  (Json.decode codec value.data.toList).mapError fun e => .failed (.encoding e.message)

theorem decodeRun (codec : Json.Codec α) (value : Bytes) (staged : List OutboxEntry) :
    (decode codec value : Query Event Answer α).run staged = .done ((decoded codec value).map (·, staged)) := by
  unfold decode decoded
  cases Json.decode codec value.data.toList <;> rfl

theorem loadRun (codec : Json.Codec α) (row : RowId) (staged : List OutboxEntry) :
    (load codec row : Query Event Answer α).run staged = .get row fun held =>
      match held with
      | some value => (decode codec value).run staged
      | none => .done (.error (.failed .notFound)) := by
  show Work.get row _ = _
  congr
  funext held
  cases held <;> rfl

theorem createUserRun (now : Moment) (new : NewUser) (staged : List OutboxEntry) :
    (createUser now new : Query Event Answer User).run staged = .get (userRow new.username) fun held =>
      if held.isSome then
        .done (.error (.failed (.taken ("username '" ++ new.username ++ "' already exists"))))
      else .put (userRow new.username) (Json.encode User.codec (User.create new now))
        (.done (.ok (User.create new now, staged))) := by
  show Work.get _ _ = _
  congr
  funext held
  cases held <;> rfl

theorem createSessionRun (now : Moment) (new : NewSession) (staged : List OutboxEntry) :
    (createSession now new : Query Event Answer Session).run staged = .get (sessionRow new.id) fun held =>
      if held.isSome then
        .done (.error (.failed (.taken ("session '" ++ new.id.toText ++ "' already exists"))))
      else .put (sessionRow new.id) (Json.encode Session.codec (Session.create new now))
        (.done (.ok (Session.create new now, staged))) := by
  show Work.get _ _ = _
  congr
  funext held
  cases held <;> rfl

theorem setBlockedRun (id : Uuid) (blocked : Bool) (staged : List OutboxEntry) :
    (setBlocked id blocked : Query Event Answer Session).run staged =
      ((getSession id).run staged).bind fun (session, staged) =>
        .put (sessionRow id) (Json.encode Session.codec { session with isBlocked := blocked })
          (.done (.ok ({ session with isBlocked := blocked }, staged))) := rfl

theorem insertOutboxRun (now : Moment) (task : NewTask) (staged : List OutboxEntry) :
    (insertOutbox now task : Query Event Answer OutboxEntry).run staged =
      .put (outboxRow task.id) (Json.encode OutboxEntry.codec ⟨task.id, task, now⟩)
        (.done (.ok (⟨task.id, task, now⟩, staged ++ [⟨task.id, task, now⟩]))) := rfl

theorem deleteOutboxRun (id : Uuid) (staged : List OutboxEntry) :
    (deleteOutbox id : Query Event Answer Unit).run staged =
      .delete (outboxRow id) (.done (.ok ((), staged))) := rfl

def entriesOf (rows : List (Bytes × Bytes)) : Except (Stop StoreError) (List OutboxEntry) :=
  rows.mapM fun (_, value) => decoded OutboxEntry.codec value

theorem decodeRows (rows : List (Bytes × Bytes)) (staged : List OutboxEntry) :
    (rows.mapM fun (_, value) => decode OutboxEntry.codec value :
      Query Event Answer (List OutboxEntry)).run staged = .done ((entriesOf rows).map (·, staged)) := by
  induction rows with
  | nil => rfl
  | cons row rows ih =>
    obtain ⟨key, value⟩ := row
    unfold entriesOf at ih ⊢
    rw [List.mapM_cons, List.mapM_cons, StateT.run_bind, decodeRun]
    dsimp only
    cases decoded OutboxEntry.codec value with
    | error e => rfl
    | ok entry =>
      show Work.bind (StateT.run (rows.mapM _) staged) _ = _
      rw [ih]
      cases rows.mapM (m := Except _) _ <;> rfl

theorem listOutboxRun (staged : List OutboxEntry) :
    (listOutbox : Query Event Answer (List OutboxEntry)).run staged = .scan outbox fun rows =>
      .done ((entriesOf rows).map fun entries =>
        (entries.mergeSort fun a b => a.createdAt ≤ b.createdAt, staged)) := by
  show Work.scan outbox _ = _
  congr
  funext rows
  show Work.bind (StateT.run (rows.mapM _) staged) _ = _
  rw [decodeRows]
  cases entriesOf rows <;> rfl

def Keeps {γ : Type} (may : γ → Op → γ → Prop) (fits : γ → List OutboxEntry → Prop)
    (q : Query Event Answer α) : Prop :=
  ∀ g staged, fits g staged → (q.run staged).Keeps may (fun g r => fits g (match r with
    | .ok (_, later) => later
    | .error _ => staged)) g

theorem keepsLoad {γ : Type} {may : γ → Op → γ → Prop} {g : γ} {row : RowId} (codec : Json.Codec α)
    (reads : may g (.get row) g) (staged : List OutboxEntry) :
    ((load codec row : Query Event Answer α).run staged).Keeps may
      (fun later r => later = g ∧ ∀ value left, r = .ok (value, left) → left = staged) g := by
  rw [loadRun]
  refine ⟨g, reads, fun held => ?_⟩
  cases held with
  | none => exact ⟨rfl, nofun⟩
  | some value =>
    dsimp only
    rw [decodeRun]
    refine ⟨rfl, fun v left done => ?_⟩
    cases read : decoded codec value with
    | error e => rw [read] at done; cases done
    | ok w => rw [read] at done; cases done; rfl

theorem keepsLoading {γ : Type} {may : γ → Op → γ → Prop} {fits : γ → List OutboxEntry → Prop} {row : RowId}
    (codec : Json.Codec α) (reads : ∀ g, may g (.get row) g) :
    (load codec row : Query Event Answer α).Keeps may fits := by
  intro g staged fit
  refine Work.keepsMono (keepsLoad codec (reads g) staged) ?_
  rintro _ (e | ⟨value, left⟩) ⟨rfl, same⟩
  · exact fit
  · exact same value left rfl ▸ fit

theorem keepsObserving {γ : Type} {may : γ → Op → γ → Prop} {fits : γ → List OutboxEntry → Prop}
    {q : Query Event Answer α} (h : q.Keeps may fits) {g : γ} {staged : List OutboxEntry}
    (fit : fits g staged) :
    ((observing q).run staged).Keeps may (fun g r => ∃ answer later, r = .ok (answer, later) ∧ fits g later) g := by
  refine Work.keepsCatch (Work.keepsBind (Work.keepsMono (h g staged fit) ?_))
  intro g r fit
  rcases r with e | ⟨value, later⟩
  · exact ⟨_, _, rfl, fit⟩
  · exact ⟨_, _, rfl, fit⟩

end Query

namespace Script

theorem keepsBody {α γ : Type} {may : γ → Op → γ → Prop} {fits : γ → List OutboxEntry → Prop} {such : Ask → Prop}
    {now : Moment} (each : ∀ q, such q → (q.query now).Keeps may fits) {script : Script α} (h : script.Asks such)
    {g : γ} {staged : List OutboxEntry} (fit : fits g staged) :
    ((script.body now).run staged).Keeps may (fun g r => ∀ value later, r = .ok (value, later) → fits g later)
      g := by
  induction script generalizing g staged with
  | finish result =>
    cases result with
    | error e =>
      intro value later same
      cases same
    | ok value =>
      intro value later same
      cases same
      exact fit
  | ask q next ih =>
    refine Work.keepsBind (Work.keepsMono (Query.keepsObserving (each q h.1) fit) ?_)
    rintro g _ ⟨answer, later, rfl, fit⟩
    refine Work.keepsBind (Work.keepsMono (ih answer (h.2 answer) fit) ?_)
    intro g r fit
    rcases r with e | ⟨value, staged⟩
    · intro value later same
      cases same
    · intro _ _ same
      cases same
      exact fit value _ rfl

end Script
end Teller
