import Teller.Proofs.Registry

/-! Calls that return. What others do leaves a call where it is; each operation of its own takes it further, and
each conflict takes one of the runs that it has left. So it comes to an end, in whatever way the others go on. -/
namespace Teller
open Transaction (Op Underway)

namespace Work
variable {Event Answer ε α β : Type}

def Drawless : Work Event Answer ε α → Prop
  | done _ => True
  | get _ next => ∀ held, (next held).Drawless
  | scan _ next => ∀ found, (next found).Drawless
  | put _ _ next => next.Drawless
  | delete _ next => next.Drawless
  | fresh _ => False
  | outside _ next => ∀ answer, (next answer).Drawless

theorem drawlessBind {w : Work Event Answer ε α} {f : α → Work Event Answer ε β} (h : w.Drawless)
    (later : ∀ a, (f a).Drawless) : (w.bind f).Drawless := by
  induction w with
  | done result =>
    cases result with
    | ok a => exact later a
    | error e => trivial
  | get row next ih => exact fun held => ih held (h held)
  | scan table next ih => exact fun found => ih found (h found)
  | put row value next ih => exact ih h
  | delete row next ih => exact ih h
  | fresh next => exact h
  | outside event next ih => exact fun answer => ih answer (h answer)

theorem drawlessCatch {w : Work Event Answer ε α} {handle : ε → Work Event Answer ε α} (h : w.Drawless)
    (later : ∀ e, (handle e).Drawless) : (tryCatch w handle).Drawless := by
  induction w with
  | done result =>
    cases result with
    | ok a => trivial
    | error e => exact later e
  | get row next ih => exact fun held => ih held (h held)
  | scan table next ih => exact fun found => ih found (h found)
  | put row value next ih => exact ih h
  | delete row next ih => exact ih h
  | fresh next => exact h
  | outside event next ih => exact fun answer => ih answer (h answer)

theorem drawlessTold {w : Work Event Answer ε α} (h : w.Drawless) (reply : Transaction.Reply) :
    (w.told reply).Drawless := by
  unfold told
  split
  · exact h _
  · exact h _
  · exact h
  · exact h
  · exact h

theorem drawlessLed {w rest : Work Event Answer ε α} {acts : List Transaction.Act} (h : w.Drawless)
    (led : w.Leads acts rest) : rest.Drawless := by
  induction led with
  | nil => exact h
  | snoc _ _ ih => exact drawlessTold ih _

theorem drawlessInduction {motive : Work Empty Empty ε α → Prop} (ends : ∀ result, motive (done result))
    (asks : ∀ w op, w.ask = some op → (∀ t s, motive (w.told (Transaction.perform t s op).1)) → motive w)
    {w : Work Empty Empty ε α} (h : w.Drawless) : motive w := by
  induction w with
  | done result => exact ends result
  | get row next ih => exact asks _ _ rfl fun _ _ => ih _ (h _)
  | scan table next ih => exact asks _ _ rfl fun _ _ => ih _ (h _)
  | put row value next ih => exact asks _ _ rfl fun _ _ => ih h
  | delete row next ih => exact asks _ _ rfl fun _ _ => ih h
  | fresh next => exact h.elim
  | outside event next => exact nomatch event

end Work

theorem Query.drawless (now : Moment) (q : Ask) (staged : List OutboxEntry) :
    ((q.query now).run staged).Drawless := by
  have loading {α : Type} (codec : Json.Codec α) (row : RowId) (staged : List OutboxEntry) :
      ((load codec row : Query Empty Empty α).run staged).Drawless := by
    rw [loadRun]
    intro held
    cases held with
    | none => trivial
    | some value =>
      dsimp only
      rw [decodeRun]
      trivial
  cases q with
  | createUser new =>
    rw [Ask.query, createUserRun]
    intro held
    cases held <;> trivial
  | getUser name => exact loading _ _ staged
  | createSession new =>
    rw [Ask.query, createSessionRun]
    intro held
    cases held <;> trivial
  | getSession id => exact loading _ _ staged
  | setBlocked id on =>
    rw [Ask.query, setBlockedRun]
    exact Work.drawlessBind (loading _ _ staged) fun _ => trivial
  | insertOutbox task => trivial
  | listOutbox =>
    rw [Ask.query, listOutboxRun]
    exact fun _ => trivial
  | deleteOutbox id => trivial

theorem Script.drawless {α : Type} (script : Script α) (now : Moment) (staged : List OutboxEntry) :
    ((script.body now).run staged).Drawless := by
  induction script generalizing staged with
  | finish result => cases result <;> trivial
  | ask q next ih =>
    refine Work.drawlessBind (Work.drawlessCatch ?_ fun _ => trivial) fun _ => ?_
    · exact Work.drawlessBind (Query.drawless now q staged) fun _ => trivial
    · exact Work.drawlessBind (ih _ _) fun _ => trivial

namespace SharedStore

def Move.actor? : Move → Option Nat
  | .begin who .. | .act who | .commit who | .leave who => some who
  | .checkpoint | .block _ => none

variable {who : Nat}

theorem stepOther (c : SharedStore) {move : Move} (apart : move.actor? ≠ some who) :
    (c.step move).attempts who = c.attempts who ∧ (c.step move).shared.underway who = c.shared.underway who := by
  have other {actor : Nat} (same : move.actor? = some actor) : who ≠ actor := by
    rintro rfl
    exact apart same
  cases move with
  | begin actor script now => exact ⟨setAtOther (other rfl) _ _, setAtOther (other rfl) _ _⟩
  | act actor =>
    simp only [step]
    split
    · split
      · simp only [SharedDatabase.step]
        split
        · exact ⟨setAtOther (other rfl) _ _, setAtOther (other rfl) _ _⟩
        · exact ⟨setAtOther (other rfl) _ _, rfl⟩
      · exact ⟨rfl, rfl⟩
    · exact ⟨rfl, rfl⟩
  | commit actor =>
    simp only [step]
    split
    · simp only [SharedDatabase.step]
      split
      · exact ⟨setAtOther (other rfl) _ _, setAtOther (other rfl) _ _⟩
      · exact ⟨setAtOther (other rfl) _ _, rfl⟩
    · exact ⟨rfl, rfl⟩
  | leave actor => exact ⟨setAtOther (other rfl) _ _, setAtOther (other rfl) _ _⟩
  | checkpoint => exact ⟨rfl, rfl⟩
  | block on => exact ⟨rfl, rfl⟩

end SharedStore

namespace Registry
variable {r : Registry} {who : Nat} {c : Course} {a : Attempt}

def Event.actor? : Event → Option Nat
  | .act who | .conclude who _ | .leave who => some who
  | _ => none

def Event.reopens : Event → Bool
  | .reopen .. => true
  | _ => false

structure Alike (who : Nat) (r r' : Registry) : Prop where
  courses : r'.courses who = r.courses who
  attempts : r'.store.attempts who = r.store.attempts who
  underway : r'.store.shared.underway who = r.store.shared.underway who
  isOpen : r'.isOpen = r.isOpen

theorem alikeMoved {move : SharedStore.Move} {courses : Nat → Option Course} (apart : move.actor? ≠ some who)
    (same : courses who = r.courses who) : r.Alike who { r with store := r.store.step move, courses } := by
  obtain ⟨attempts, underway⟩ := SharedStore.stepOther r.store apart
  exact ⟨same, attempts, underway, rfl⟩

theorem alikeConclude {other : Nat} (apart : who ≠ other) (now : Moment) (t : Transaction) :
    r.Alike who (r.conclude other now c a t) := by
  have aside : some other ≠ some who := fun same => apart (Option.some.inj same).symm
  unfold conclude
  split
  · exact alikeMoved aside (setAtOther apart _ _)
  · split
    · obtain ⟨attempts, underway⟩ := @SharedStore.stepOther who r.store (.commit other) aside
      exact ⟨setAtOther apart _ _, attempts, underway, rfl⟩
    · exact alikeMoved aside (setAtOther apart _ _)
    · exact alikeMoved aside (setAtOther apart _ _)
  · exact ⟨rfl, rfl, rfl, rfl⟩

theorem alikeAct {e : Event} (course : r.courses who = some c) (apart : e.actor? ≠ some who)
    (stays : e.reopens = false) : r.Alike who (r.act e) := by
  have same : r.Alike who r := ⟨rfl, rfl, rfl, rfl⟩
  have busy {other : Nat} (free : r.courses other = none) : who ≠ other := by
    rintro rfl
    cases course.symm.trans free
  cases e with
  | call other call retries now =>
    simp only [act]
    split
    · rename_i free
      exact alikeMoved (fun own => busy free (Option.some.inj own).symm) (setAtOther (busy free) _ _)
    · exact same
  | crowd other call =>
    simp only [act]
    split
    · rename_i free
      exact ⟨setAtOther (busy free) _ _, rfl, rfl, rfl⟩
    · exact same
  | act other => exact alikeMoved apart rfl
  | conclude other now =>
    simp only [act]
    split
    · exact alikeConclude (fun own => apart (congrArg some own.symm)) now _
    · exact same
  | leave other => exact alikeMoved apart rfl
  | offer entry broker =>
    simp only [act]
    split
    · split
      · exact ⟨rfl, rfl, rfl, rfl⟩
      · exact same
    · exact same
  | checkpoint => exact alikeMoved (Option.some_ne_none who).symm rfl
  | block on => exact alikeMoved (Option.some_ne_none who).symm rfl
  | reopen policy torn k => cases stays

structure Busy (r : Registry) (who : Nat) (c : Course) (a : Attempt) : Prop where
  sound : r.Sound
  isOpen : r.isOpen = true
  course : r.courses who = some c
  attempt : r.store.attempts who = some a

def Returned (r : Registry) (who : Nat) : Prop := ∃ c outcome, r.courses who = some c ∧ c.outcome = some outcome

theorem busyStep (h : r.Busy who c a) (e : Event) : r.step e = r.act e := by
  have served : r.serves e = true := by
    unfold serves
    split
    · rfl
    · exact h.isOpen
  rw [step, if_pos served]

theorem busyDrawless (h : r.Busy who c a) : a.rest.Drawless := by
  obtain ⟨_, _, works⟩ := h.sound.steadfast.works h.attempt
  exact Work.drawlessLed (a.script.drawless a.now []) works.led

theorem busyStill (h : r.Busy who c a) {e : Event} (stays : e ≠ .leave who) (lasts : e.reopens = false)
    (acts : e = .act who → a.rest.ask = none) (concludes : ∀ now, e = .conclude who now → ∀ result, a.rest ≠ .done result) :
    (r.step e).Busy who c a := by
  have sound := (soundStep h.sound e).1
  rw [busyStep h] at sound ⊢
  by_cases apart : e.actor? = some who
  · have same (idle : r.act e = r) : (r.act e).Busy who c a := by
      rw [idle]
      exact h
    obtain ⟨v, ongoing, -⟩ := h.sound.steadfast.works h.attempt
    cases e with
    | act other =>
      cases apart
      refine same ?_
      simp only [act, SharedStore.step, h.attempt, ongoing, acts rfl]
    | conclude other now =>
      cases apart
      refine same ?_
      simp only [act, h.course, h.attempt, ongoing]
      unfold conclude
      have running := concludes now rfl
      split
      · rename_i ended
        exact absurd ended (running _)
      · rename_i ended
        exact absurd ended (running _)
      · rfl
    | leave other =>
      cases apart
      exact absurd rfl stays
    | _ => cases apart
  · have alike := alikeAct h.course apart lasts
    exact ⟨sound, alike.isOpen.trans h.isOpen, alike.courses.trans h.course, alike.attempts.trans h.attempt⟩

theorem busyAct (h : r.Busy who c a) {op : Op} (asked : a.rest.ask = some op) :
    ∃ t s, (r.step (.act who)).Busy who c { a with rest := a.rest.told (Transaction.perform t s op).1 } := by
  obtain ⟨v, ongoing, -⟩ := h.sound.steadfast.works h.attempt
  refine ⟨v.txn, r.db.state, (soundStep h.sound _).1, ?_, ?_, ?_⟩ <;> rw [busyStep h]
  · exact h.isOpen
  · exact h.course
  · simp only [act, SharedStore.step, h.attempt, ongoing, asked]
    exact setAtSelf _ _ _

theorem busyConclude (h : r.Busy who c a) {result} (ended : a.rest = .done result) (now : Moment) :
    (r.step (.conclude who now)).Returned who ∨
      ∃ d b, c.retries = d.retries + 1 ∧ (r.step (.conclude who now)).Busy who d b := by
  obtain ⟨v, ongoing, -⟩ := h.sound.steadfast.works h.attempt
  have sound := (soundStep h.sound (.conclude who now)).1
  have concluded : r.step (.conclude who now) = r.conclude who now c a v.txn := by
    rw [busyStep h]
    simp only [act, h.course, h.attempt, ongoing]
  rw [concluded] at sound ⊢
  unfold conclude at sound ⊢
  rw [ended] at sound ⊢
  cases result with
  | error e => exact .inl ⟨_, _, setAtSelf _ _ _, rfl⟩
  | ok value =>
    dsimp only at sound ⊢
    split at sound
    · exact .inl ⟨_, _, setAtSelf _ _ _, rfl⟩
    · rename_i retries conflict left
      exact .inr ⟨_, _, left, sound, h.isOpen, setAtSelf _ _ _, setAtSelf _ _ _⟩
    · exact .inl ⟨_, _, setAtSelf _ _ _, rfl⟩

def during (r : Registry) (schedule : Nat → Event) : Nat → Registry
  | 0 => r
  | n + 1 => (r.during schedule n).step (schedule n)

/-- The call is let get on again and again and does not leave, and the accounts stay open. -/
structure Fair (who : Nat) (schedule : Nat → Event) : Prop where
  acts : ∀ n, ∃ k, schedule (n + k) = .act who
  concludes : ∀ n, ∃ k now, schedule (n + k) = .conclude who now
  stays : ∀ n, schedule n ≠ .leave who
  lasts : ∀ n, (schedule n).reopens = false

variable {schedule : Nat → Event} {n : Nat}

def alone (who : Nat) (now : Moment) (n : Nat) : Event := if n % 2 = 0 then .act who else .conclude who now

theorem fairAlone (who : Nat) (now : Moment) : Fair who (alone who now) where
  acts n := ⟨n % 2, if_pos (by omega)⟩
  concludes n := ⟨(n + 1) % 2, now, if_neg (by omega)⟩
  stays n := by
    unfold alone
    split <;> exact fun same => by cases same
  lasts n := by
    unfold alone
    split <;> rfl

theorem busyUntil (due : Event → Prop) (h : (r.during schedule n).Busy who c a)
    (still : ∀ m, (r.during schedule m).Busy who c a → ¬ due (schedule m) →
      (r.during schedule (m + 1)).Busy who c a) {k : Nat} (comes : due (schedule (n + k))) :
    ∃ m, (r.during schedule m).Busy who c a ∧ due (schedule m) := by
  induction k generalizing n with
  | zero => exact ⟨n, h, comes⟩
  | succ k ih =>
    by_cases here : due (schedule n)
    · exact ⟨n, h, here⟩
    · exact ih (still n h here) (by rwa [Nat.add_right_comm])

theorem busyUntilAct (h : (r.during schedule n).Busy who c a) (fair : Fair who schedule) {op : Op}
    (asked : a.rest.ask = some op) :
    ∃ m t s, (r.during schedule m).Busy who c { a with rest := a.rest.told (Transaction.perform t s op).1 } := by
  obtain ⟨k, comes⟩ := fair.acts n
  have running (result) : a.rest ≠ .done result := by
    intro ended
    rw [ended] at asked
    cases asked
  obtain ⟨m, busy, due⟩ := busyUntil (· = .act who) h (fun m busy early =>
    busyStill busy (fair.stays m) (fair.lasts m) (fun same => absurd same early) fun _ _ => running) comes
  obtain ⟨t, s, later⟩ := busyAct busy asked
  exact ⟨m + 1, t, s, by rwa [during, due]⟩

theorem busyUntilConclude (h : (r.during schedule n).Busy who c a) (fair : Fair who schedule) {result}
    (ended : a.rest = .done result) :
    ∃ m, (r.during schedule m).Returned who ∨
      ∃ d b, c.retries = d.retries + 1 ∧ (r.during schedule m).Busy who d b := by
  obtain ⟨k, comes⟩ := fair.concludes n
  have asksNothing : a.rest.ask = none := by
    rw [ended]
    rfl
  obtain ⟨m, busy, now, due⟩ := busyUntil (∃ now, · = .conclude who now) h (fun m busy early =>
    busyStill busy (fair.stays m) (fair.lasts m) (fun _ => asksNothing) fun now same => absurd ⟨now, same⟩ early) comes
  exact ⟨m + 1, by rw [during, due]; exact busyConclude busy ended now⟩

theorem returnsWithin (fair : Fair who schedule) {retries : Nat} (left : c.retries = retries)
    (h : (r.during schedule n).Busy who c a) : ∃ m, (r.during schedule m).Returned who := by
  induction retries using Nat.strongRecOn generalizing n c a with
  | ind retries again =>
    have drawless := busyDrawless h
    obtain ⟨script, now, rest⟩ := a
    -- Within a run by induction on what is left of the body, over the runs on the retries.
    refine Work.drawlessInduction (motive := fun rest => ∀ n, (r.during schedule n).Busy who c ⟨script, now, rest⟩ →
      ∃ m, (r.during schedule m).Returned who) (fun result n h => ?_) (fun w op asked later n h => ?_) drawless n h
    · obtain ⟨m, returned | ⟨d, b, fewer, busy⟩⟩ := busyUntilConclude h fair rfl
      · exact ⟨m, returned⟩
      · exact again d.retries (by omega) rfl busy
    · obtain ⟨m, t, s, busy⟩ := busyUntilAct h fair asked
      exact later t s m busy

theorem returnsAlone (h : r.Busy who c a) (now : Moment) : ∃ n, (r.during (alone who now) n).Returned who :=
  returnsWithin (n := 0) (fairAlone who now) rfl h

end Registry
end Teller
