import Teller.Proofs.Journal.Ledger
import Teller.Proofs.Unseen

/-! A transaction that comes to nothing, because its commit fails or because it is rolled back or dropped, changes
nothing. The others are told what they would be told if it had never begun, but for the identifiers they are given. -/
namespace Teller
open Journal (Record)
open Transaction (Underway)

namespace SharedDatabase

def Event.who? : Event → Option Nat
  | .begin who | .act who _ | .commit who | .leave who => some who
  | .checkpoint | .block _ => none

def Fruitless (who : Nat) (d : SharedDatabase) (e : Event) : Prop :=
  e.who? = some who → d.answer? e ≠ some (.ended (.ok ()))

instance (who : Nat) (d : SharedDatabase) (e : Event) : Decidable (d.Fruitless who e) :=
  inferInstanceAs (Decidable (_ → _))

def AllFruitless (who : Nat) : SharedDatabase → List Event → Prop
  | _, [] => True
  | d, e :: events => d.Fruitless who e ∧ AllFruitless who (d.step e) events

instance decideAllFruitless (who : Nat) : (d : SharedDatabase) → (events : List Event) →
    Decidable (d.AllFruitless who events)
  | _, [] => isTrue trivial
  | d, e :: events =>
      have := decideAllFruitless who (d.step e) events
      inferInstanceAs (Decidable (_ ∧ _))

def told? (d : SharedDatabase) : Event → Option Answer
  | .begin _ => none
  | e => d.answer? e

def toldOthers (who : Nat) : SharedDatabase → List Event → List (Option Answer)
  | _, [] => []
  | d, e :: events =>
      let later := toldOthers who (d.step e) events
      if e.who? = some who then later else d.told? e :: later

end SharedDatabase

def Transaction.Underway.anonymous (v : Underway) : Underway := { v with txn := { v.txn with id := 0 } }

namespace Database
variable {db db' : Database} {t t' : Transaction}

@[simp] theorem checkpointDurable (db : Database) : db.checkpoint.2.log.isSome = db.log.isSome := by
  unfold checkpoint
  split
  · rfl
  · rename_i log held
    split <;> simp [held]

@[simp] theorem blockDurable (db : Database) (on : Bool) : (db.block on).log.isSome = db.log.isSome := by
  unfold block
  split
  · exact Option.isSome_map
  · rfl

theorem commitFails (db : Database) (t : Transaction) (cause : CommitError) :
    (db.commit t).1 = .error cause ↔
      t.isStale db.state = true ∧ cause = .conflict ∨
      t.isStale db.state = false ∧ db.log.isSome ∧ ¬ Record.Fits ⟨t.id, t.toWrites⟩ ∧
        cause = .journal (.tooLarge (Record.size ⟨t.id, t.toWrites⟩)) := by
  have ends := congrArg Prod.fst (commitEnds db t)
  dsimp only at ends
  rw [ends]
  split
  · rename_i stale
    simp [stale, @eq_comm _ cause]
  · rename_i fresh
    split
    · rename_i tooLarge
      simp [fresh, tooLarge, @eq_comm _ cause]
    · rename_i taken
      simp only [fresh, reduceCtorEq, false_and, false_or, false_iff, not_and]
      exact fun _ durable large => absurd ⟨durable, large⟩ taken

theorem commitAnonymous {v v' : Underway} (state : db'.state = db.state) (durable : db'.log.isSome = db.log.isSome)
    (same : v'.anonymous = v.anonymous) :
    (db'.commit v'.txn).1 = (db.commit v.txn).1 ∧ (db'.commit v'.txn).2.state = (db.commit v.txn).2.state := by
  have stale : v'.txn.isStale db.state = v.txn.isStale db.state := congrArg (·.txn.isStale db.state) same
  have only : v'.txn.isReadOnly = v.txn.isReadOnly := congrArg (·.txn.isReadOnly) same
  have writes : v'.txn.toWrites = v.txn.toWrites := congrArg (·.txn.toWrites) same
  have ends := commitEnds db' v'.txn
  simp only [Record.Fits, state, durable, stale, only, writes] at ends
  -- The identifiers stay apart in the two records, but not in their sizes.
  exact Prod.mk.inj (ends.trans (commitEnds db v.txn).symm)

end Database

namespace Transaction.Underway

theorem anonymousAct (v : Underway) (s : State) (op : Op) :
    (v.act s op).anonymous = (v.anonymous.act s op).anonymous := by
  cases op with
  | get row =>
    simp only [anonymous, act, perform, Transaction.get]
    split <;> rfl
  | scan _ | put _ _ | delete _ => rfl

theorem sameAct {v v' : Underway} (same : v'.anonymous = v.anonymous) (s : State) (op : Op) :
    (v'.act s op).anonymous = (v.act s op).anonymous ∧ (v'.txn.perform s op).1 = (v.txn.perform s op).1 := by
  have writes : v'.txn.writes = v.txn.writes := congrArg (·.txn.writes) same
  rw [anonymousAct, same, ← anonymousAct, performReply, performReply, writes]
  exact ⟨rfl, rfl⟩

end Transaction.Underway

namespace SharedDatabase
variable {d d' : SharedDatabase} {who : Nat} {e : Event}

structure Beside (who : Nat) (d d' : SharedDatabase) : Prop where
  state : d'.db.state = d.db.state
  durable : d'.db.log.isSome = d.db.log.isSome
  others : ∀ other, other ≠ who → (d'.underway other).map Underway.anonymous = (d.underway other).map Underway.anonymous

theorem besideSame (who : Nat) (d : SharedDatabase) : d.Beside who d := ⟨rfl, rfl, fun _ _ => rfl⟩

theorem besideUnderway (h : d.Beside who d') {other : Nat} (apart : other ≠ who) :
    (d.underway other = none ∧ d'.underway other = none) ∨
      ∃ v v', d.underway other = some v ∧ d'.underway other = some v' ∧ v'.anonymous = v.anonymous := by
  have same := h.others other apart
  cases here : d.underway other with
  | none =>
    rw [here, Option.map_none, Option.map_eq_none_iff] at same
    exact .inl ⟨rfl, same⟩
  | some v =>
    rw [here, Option.map_some, Option.map_eq_some_iff] at same
    obtain ⟨v', there, same⟩ := same
    exact .inr ⟨v, v', rfl, there, same⟩

theorem besideSetAt (h : d.Beside who d') {party party' : Option Underway}
    (same : party'.map Underway.anonymous = party.map Underway.anonymous) (guest : Nat) :
    ∀ other, other ≠ who → (setAt d'.underway guest party' other).map Underway.anonymous =
      (setAt d.underway guest party other).map Underway.anonymous := by
  intro other apart
  by_cases here : other = guest
  · subst here
    rw [setAtSelf, setAtSelf, same]
  · rw [setAtOther here, setAtOther here, h.others other apart]

theorem besideOwn (h : d.Beside who d') (own : e.who? = some who) (fruitless : d.Fruitless who e) :
    (d.step e).Beside who d' := by
  have othersStay (party : Option Underway) : ∀ other, other ≠ who →
      (d'.underway other).map Underway.anonymous = (setAt d.underway who party other).map Underway.anonymous :=
    fun other apart => by rw [setAtOther apart, h.others other apart]
  cases e with
  | begin _ => cases own; exact ⟨h.state, h.durable, othersStay _⟩
  | act _ op =>
    cases own
    simp only [step]
    split
    · exact ⟨h.state, h.durable, othersStay _⟩
    · exact h
  | commit _ =>
    cases own
    simp only [step]
    split
    · rename_i v here
      have failed := fruitless rfl
      simp only [answer?, here] at failed
      cases ended : (d.db.commit v.txn).1 with
      | error cause =>
        have kept := Database.commitRefused ended
        exact ⟨by rw [kept, h.state], by rw [kept, h.durable], othersStay none⟩
      | ok _ => simp [ended] at failed
    · exact h
  | leave _ => cases own; exact ⟨h.state, h.durable, othersStay none⟩
  | checkpoint | block _ => cases own

theorem besideOther (h : d.Beside who d') (other : e.who? ≠ some who) :
    (d.step e).Beside who (d'.step e) ∧ d'.told? e = d.told? e := by
  have state := h.state
  have durable := h.durable
  cases e with
  | begin guest =>
    have new : (some (⟨d'.db.begin.1, []⟩ : Underway)).map Underway.anonymous =
        (some (⟨d.db.begin.1, []⟩ : Underway)).map Underway.anonymous := rfl
    exact ⟨⟨state, durable, besideSetAt h new guest⟩, rfl⟩
  | act guest op =>
    have apart : guest ≠ who := fun same => other (congrArg some same)
    rcases besideUnderway h apart with ⟨here, there⟩ | ⟨v, v', here, there, same⟩
    · simp only [step, told?, answer?, here, there]
      exact ⟨h, rfl⟩
    · obtain ⟨ongoing, reply⟩ := Underway.sameAct same d.db.state op
      simp only [step, told?, answer?, here, there, state, reply, Option.map_some]
      exact ⟨⟨state, durable, besideSetAt h (by rw [Option.map_some, ongoing, Option.map_some]) guest⟩, trivial⟩
  | commit guest =>
    have apart : guest ≠ who := fun same => other (congrArg some same)
    rcases besideUnderway h apart with ⟨here, there⟩ | ⟨v, v', here, there, same⟩
    · simp only [step, told?, answer?, here, there]
      exact ⟨h, rfl⟩
    · obtain ⟨ended, rows⟩ := Database.commitAnonymous state durable same
      simp only [step, told?, answer?, here, there, ended, Option.map_some]
      refine ⟨⟨rows, ?_, besideSetAt h rfl guest⟩, trivial⟩
      rw [Database.commitDurable, Database.commitDurable, durable]
  | leave guest => exact ⟨⟨state, durable, besideSetAt h rfl guest⟩, rfl⟩
  | checkpoint => exact ⟨⟨by simpa [step] using state, by simpa [step] using durable, h.others⟩, rfl⟩
  | block on => exact ⟨⟨by simpa [step] using state, by simpa [step] using durable, h.others⟩, rfl⟩

theorem besideRun {events : List Event} (h : d.Beside who d') (fruitless : d.AllFruitless who events) :
    let without := events.filter fun e => e.who? ≠ some who
    d.toldOthers who events = d'.toldOthers who without ∧ (d.run events).Beside who (d'.run without) := by
  induction events generalizing d d' with
  | nil => exact ⟨rfl, h⟩
  | cons e events ih =>
    by_cases own : e.who? = some who
    · obtain ⟨told, beside⟩ := ih (besideOwn h own fruitless.1) fruitless.2
      rw [List.filter_cons_of_neg (by simp [own]), toldOthers, if_pos own]
      exact ⟨told, beside⟩
    · obtain ⟨after, same⟩ := besideOther h own
      obtain ⟨told, beside⟩ := ih after fruitless.2
      rw [List.filter_cons_of_pos (by simp [own])]
      simp only [toldOthers, if_neg own, same, told, true_and]
      exact beside

/-- At any time, with whatever transactions open and with a journal or without: who leaves changes nothing, and a
commit that fails changes nothing. It fails for what is stale or for a record that the journal does not take. What
becomes of the others is the same without the transactions of one who never commits with success. -/
theorem abandonedUnseen (d : SharedDatabase) (who : Nat) :
    (d.step (.leave who)).db = d.db ∧
      (∀ v cause, d.underway who = some v →
        ((d.db.commit v.txn).1 = .error cause ↔
          v.txn.isStale d.db.state = true ∧ cause = .conflict ∨
          v.txn.isStale d.db.state = false ∧ d.db.log.isSome ∧ ¬ Record.Fits ⟨v.txn.id, v.txn.toWrites⟩ ∧
            cause = .journal (.tooLarge (Record.size ⟨v.txn.id, v.txn.toWrites⟩))) ∧
        ((d.db.commit v.txn).1 = .error cause → (d.step (.commit who)).db = d.db)) ∧
      ∀ events, d.AllFruitless who events →
        let without := events.filter fun e => e.who? ≠ some who
        d.toldOthers who events = d.toldOthers who without ∧ (d.run events).db.state = (d.run without).db.state := by
  refine ⟨rfl, fun v cause active => ⟨Database.commitFails d.db v.txn cause, fun failed => ?_⟩, ?_⟩
  · simp only [step, active]
    exact Database.commitRefused failed
  · intro events fruitless without
    obtain ⟨told, beside⟩ := besideRun (besideSame who d) fruitless
    exact ⟨told, beside.state.symm⟩

def overtaken : List Event :=
  [.begin 0, .begin 1, .act 0 (.get k), .act 0 (.put k (Bytes.ofText "u")), .act 1 (.put k (Bytes.ofText "v")),
    .commit 1, .begin 2, .act 0 (.scan "t")]

def givenUp : List Event :=
  overtaken ++ [.commit 0, .act 2 (.get k), .begin 0, .act 0 (.delete k), .act 2 (.put k (Bytes.ofText "w")), .leave 0,
    .commit 2]

def oversized (value : Bytes) : List Event := [.begin 0, .act 0 (.put k value)]

theorem oversizedRefused (log : Log) : ∃ value v size,
    let d := (start { log := some log }).run (oversized value)
    d.underway 0 = some v ∧ (d.db.commit v.txn).1 = .error (.journal (.tooLarge size)) := by
  obtain ⟨value, size⟩ := Journal.valueOfSize Journal.maxRecordSize
  have large : ¬ Record.Fits ⟨1, [.put "t" (Bytes.ofText "k") value]⟩ := by
    simp only [Record.Fits, Record.size, Record.writesSize, Journal.Write.sizeEncoded, Journal.Write.encodedSize, size]
    omega
  exact ⟨value, _, _, rfl, (Database.commitFails _ _ _).mpr (.inr ⟨rfl, rfl, large, rfl⟩)⟩

theorem abandonedUnseenOnFailures :
    (let d := (start .inMemory).run overtaken
      ∃ v, d.underway 0 = some v ∧ (d.db.commit v.txn).1 = .error .conflict ∧ (d.step (.commit 0)).db = d.db) ∧
    (∃ db value, (Database.openAt {} .standard).1 = .ok db ∧
      let d := (start db).run (oversized value)
      ∃ v size, d.underway 0 = some v ∧ (d.db.commit v.txn).1 = .error (.journal (.tooLarge size)) ∧
        (d.step (.commit 0)).db = d.db) ∧
    (start .inMemory).AllFruitless 0 givenUp ∧
    let without := givenUp.filter fun e => e.who? ≠ some 0
    (start .inMemory).toldOthers 0 without =
        [none, some (.replied .done), some (.ended (.ok ())), none,
          some (.replied (.value (some (Bytes.ofText "v")))), some (.replied .done), some (.ended (.ok ()))] ∧
      (start .inMemory).toldOthers 0 givenUp = (start .inMemory).toldOthers 0 without := by
  refine ⟨?_, ?_, ?_⟩
  · intro d
    obtain ⟨v, active, conflict⟩ : ∃ v, d.underway 0 = some v ∧ (d.db.commit v.txn).1 = .error .conflict :=
      ⟨_, rfl, by decide +kernel⟩
    exact ⟨v, active, conflict, ((abandonedUnseen d 0).2.1 v .conflict active).2 conflict⟩
  · obtain ⟨log, opened⟩ := @Database.openedEmpty {} rfl .standard
    obtain ⟨value, v, size, active, tooLarge⟩ := oversizedRefused log
    exact ⟨_, value, opened, v, size, active, tooLarge, ((abandonedUnseen _ 0).2.1 v _ active).2 tooLarge⟩
  · have fruitless : (start .inMemory).AllFruitless 0 givenUp := by decide +kernel
    exact ⟨fruitless, by decide +kernel, ((abandonedUnseen (start .inMemory) 0).2.2 givenUp fruitless).1⟩

end SharedDatabase
end Teller
