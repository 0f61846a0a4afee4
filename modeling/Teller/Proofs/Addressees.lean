import Teller.Bank.Worker
import Teller.Proofs.Enrolment
import Teller.Proofs.UnitsAlone

/-! The handler of verification mails and its search for the user. It gives a task up only if its payload cannot be
read or if there is no such user. -/
namespace Teller
open Query (userRow)

def Unskipped (ended : Except TaskError Unit) : Prop := ∀ reason, ended ≠ .error (.skip reason)

namespace VerifyEmail

def unreadable (e : Json.Error) : Except TaskError Unit :=
  .error (.skip ("failed to unmarshal payload: " ++ e.message))

def verdict : Except (Stop StoreError) User → Except TaskError Unit
  | .ok _ => .ok ()
  | .error (.failed .notFound) => .error (.skip "user not found")
  | .error (.failed e) => .error (.retry ("failed to get user: " ++ e.message))
  | .error (.overflow _) => .error (.retry "handler panicked")

theorem verdictUnskipped {found : Except (Stop StoreError) User} (there : found ≠ .error (.failed .notFound)) :
    Unskipped (verdict found) := by
  rintro reason skips
  rcases found with (e | cause) | user
  · cases e with
    | notFound => exact there rfl
    | _ => cases skips
  · cases skips
  · cases skips

end VerifyEmail

namespace Bank
variable {b : Bank}

theorem verifyEmailRun (task : Task) (b : Bank) :
    verifyEmail task b = match Json.decode VerifyEmail.codec task.payload with
      | .error e => (VerifyEmail.unreadable e, b)
      | .ok mail => (VerifyEmail.verdict (getUser mail.username b).1, (getUser mail.username b).2) := by
  unfold verifyEmail
  cases Json.decode VerifyEmail.codec task.payload with
  | error e => rfl
  | ok mail =>
    dsimp only
    rcases getUser mail.username b with ⟨(e | cause) | user, c⟩
    · cases e <;> rfl
    · rfl
    · rfl

theorem runAloneCrowded {α : Type} (full : ¬ b.HasRoom) (body : Query Empty Empty α) :
    runAlone body b = (.error (.failed .crowded), b) := by
  have crowded : ¬ b.running < b.plan.store.room := full
  unfold runAlone run runStaged
  rw [if_neg crowded]

theorem verifyEmailFinds {user : User} {task : Task}
    (held : b.accounts.state.value? (userRow user.username) = some (Json.encode User.codec user))
    (read : Json.decode VerifyEmail.codec task.payload = .ok ⟨user.username⟩) :
    Unskipped (verifyEmail task b).1 ∧ (b.HasRoom → (verifyEmail task b).1 = .ok ()) := by
  rw [verifyEmailRun, read]
  by_cases room : b.HasRoom
  · have found : (getUser user.username b).1 = .ok user := by
      obtain ⟨found, -⟩ : (getUser user.username b).1 =
          Query.rowAt User.codec b.accounts.state (userRow user.username) ∧ _ := loadAlone room rfl
      unfold Query.rowAt at found
      rw [held] at found
      simp only [Query.decoded, User.decodeEncode] at found
      exact found
    dsimp only
    rw [found]
    exact ⟨VerifyEmail.verdictUnskipped (fun same => by cases same), fun _ => rfl⟩
  · have crowded : (getUser user.username b).1 = .error (.failed .crowded) := by rw [getUser, runAloneCrowded room]
    dsimp only
    rw [crowded]
    exact ⟨VerifyEmail.verdictUnskipped (fun same => by cases same), fun free => absurd free room⟩

end Bank

inductive QueryUnderway.Looks (name : String) (there : Prop) : QueryUnderway User → Prop where
  | asks {t} (unwritten : t.writes = ∅) : Looks name there ⟨(Query.getUser name).run [], t⟩
  | found {t user} (unwritten : t.writes = ∅) : Looks name there ⟨.done (.ok (user, [])), t⟩
  | missing {t} (unwritten : t.writes = ∅) (absent : ¬ there) :
      Looks name there ⟨.done (.error (.failed .notFound)), t⟩

theorem QueryUnderway.actGet {α : Type} (drawn : Uuid) (s : State) (row : RowId)
    (next : Option Bytes → Work Empty Empty (Stop StoreError) (α × List OutboxEntry)) (t : Transaction) :
    (⟨.get row next, t⟩ : QueryUnderway α).act drawn s = ⟨next (t.get s row).1, (t.get s row).2⟩ := rfl

theorem QueryUnderway.looksAct {name : String} {there : Prop} {underway : QueryUnderway User} {s : State}
    (h : underway.Looks name there) (enrolled : s.Enrolled) (row : there → s.value? (userRow name) ≠ none)
    (drawn : Uuid) : (underway.act drawn s).Looks name there := by
  cases h with
  | @asks t unwritten =>
    have told : (t.get s (userRow name)).1 = s.value? (userRow name) := by simp [Transaction.get, unwritten]
    have left : (t.get s (userRow name)).2.writes = ∅ := by simp [Transaction.get, unwritten]
    rw [Query.getUser, Query.loadRun, actGet, told]
    cases held : s.value? (userRow name) with
    | none => exact .missing left fun is => row is held
    | some value =>
      obtain ⟨user, -, rfl⟩ := enrolled _ value rfl held
      dsimp only
      rw [Query.decodeRun, Query.decoded, User.decodeEncode]
      exact .found left
  | found unwritten => exact .found unwritten
  | missing unwritten absent => exact .missing unwritten absent

theorem Database.commitUnwritten {db : Database} {t : Transaction} (unwritten : t.writes = ∅) : (db.commit t).2 = db := by
  have only : t.isReadOnly = true := SortedMap.isEmptyIff.mpr unwritten
  rcases commitCases db t with ⟨-, h⟩ | ⟨-, -, h⟩ | ⟨-, full, -⟩ | ⟨-, full, -⟩
  · rw [h]
  · rw [h]
  · cases full.symm.trans only
  · cases full.symm.trans only

structure Reader where
  task : LeasedTask
  username : String
  search : QueryUnderway User

namespace Reader

def conclude (x : Reader) (db : Database) : Option (Except (Stop StoreError) User) × Database :=
  match x.search.rest with
  | .done (.ok (user, _)) => match db.commit x.search.txn with
    | (.ok (), db) => (some (.ok user), db)
    | (.error cause, db) => (some (.error (.failed (.ofCommit cause))), db)
  | .done (.error e) => (some (.error e), db)
  | _ => (none, db)

theorem concludeLooks {x : Reader} {name : String} {there : Prop} (h : x.search.Looks name there) (db : Database) :
    (x.conclude db).2 = db ∧
      ∀ found, (x.conclude db).1 = some found → there → Unskipped (VerifyEmail.verdict found) := by
  obtain ⟨task, username, search⟩ := x
  cases h with
  | asks unwritten => exact ⟨rfl, fun _ ended => by cases ended⟩
  | @found t user unwritten =>
    -- Nothing was written, so the commit does not touch the users, whatever was committed since the search began.
    have kept : (db.commit t).2 = db := Database.commitUnwritten unwritten
    simp only [conclude]
    rcases commit : db.commit t with ⟨cause | ⟨⟩, left⟩
    · rw [commit] at kept
      refine ⟨kept, ?_⟩
      rintro _ ⟨⟩ -
      exact VerifyEmail.verdictUnskipped (by cases cause <;> nofun)
    · rw [commit] at kept
      refine ⟨kept, ?_⟩
      rintro _ ⟨⟩ -
      exact VerifyEmail.verdictUnskipped nofun
  | missing unwritten absent =>
    refine ⟨rfl, ?_⟩
    rintro _ ⟨⟩ is
    exact absurd is absent

end Reader
end Teller
