import Teller.Proofs.Returns

/-! Users and sessions keep their identity. What makes one of them finds none there before, and so it was found by
whoever commits; nothing removes them, and no more of a session is changed than whether it is blocked. -/
namespace Teller

namespace Registry
open Query (users sessions outbox userRow sessionRow outboxRow)
open Transaction (Op Underway)
variable {r : Registry}

theorem lookTold (name : String) (now : Moment) (user : User) :
    (((Script.ask (.getUser name) .finish).body now).run []).told (.value (some (Json.encode User.codec user))) =
      .done (.ok ((user, [⟨.getUser name, .ok user⟩]), [])) := by
  show Work.bind (tryCatch (Work.bind ((Query.decode User.codec _).run []) _) _) _ = _
  rw [Query.decodeRun, Query.decoded, User.decodeEncode]
  rfl

/-- The attempt has yet to look, or has found the user and nothing it has read has changed. -/
structure Looks (user : User) (s : State) (a : Attempt) (v : Underway) : Prop where
  body : ∃ now rest, a = ⟨.ask (.getUser user.username) .finish, now, rest⟩ ∧
    (rest = ((Script.ask (.getUser user.username) .finish).body now).run [] ∨
      rest = .done (.ok ((user, [⟨.getUser user.username, .ok user⟩]), [])))
  unwritten : v.txn.writes = ∅
  unscanned : v.txn.scans = ∅
  reads : ∀ row seen, v.txn.reads.get? row = some seen → row = userRow user.username ∧ s.rowVersion row = seen

variable {user : User} {s s' : State} {a : Attempt} {v : Underway}

theorem looksLater (h : Looks user s a v) (same : s'.rowVersion (userRow user.username) = s.rowVersion (userRow user.username)) :
    Looks user s' a v := by
  refine ⟨h.body, h.unwritten, h.unscanned, fun row seen noted => ?_⟩
  obtain ⟨rfl, version⟩ := h.reads row seen noted
  exact ⟨rfl, same.trans version⟩

theorem looksBegin (user : User) (s : State) (now : Moment) (id : UInt64) :
    Looks user s (.begin (.ask (.getUser user.username) .finish) now) ⟨⟨id, ∅, ∅, ∅⟩, []⟩ :=
  ⟨⟨now, _, rfl, .inl rfl⟩, rfl, rfl, fun _ _ noted => by cases noted⟩

theorem looksAct (h : Looks user s a v) (there : s.value? (userRow user.username) = some (Json.encode User.codec user))
    {op : Op} (asked : a.rest.ask = some op) :
    Looks user s { a with rest := a.rest.told (v.txn.perform s op).1 } (v.act s op) := by
  obtain ⟨⟨now, rest, rfl, rfl | rfl⟩, unwritten, unscanned, reads⟩ := h
  · obtain rfl : Op.get (userRow user.username) = op := Option.some.inj asked
    refine ⟨⟨now, _, rfl, .inr ?_⟩, ?_, ?_, fun row seen noted => ?_⟩
    · have told : (v.txn.perform s (.get (userRow user.username))).1 = .value (some (Json.encode User.codec user)) := by
        rw [Transaction.performReply, unwritten, Transaction.reply, ← there]
        rfl
      dsimp only
      rw [told, lookTold]
    · exact (Transaction.performWrites v.txn s (.get _)).trans unwritten
    · show (v.txn.get s (userRow user.username)).2.scans = ∅
      rw [Transaction.get, unwritten]
      exact unscanned
    · have noted : (v.txn.perform s (.get (userRow user.username))).2.reads.get? row = some seen := noted
      rw [Transaction.performReads] at noted
      split at noted
      · rename_i same
        obtain rfl := Op.get.inj same.1
        cases old : v.txn.reads.get? (userRow user.username) with
        | none =>
          rw [old] at noted
          exact ⟨rfl, Option.some.inj noted⟩
        | some first =>
          rw [old] at noted
          exact reads _ seen (old.trans noted)
      · exact reads row seen noted
  · cases asked

theorem looksCommit {db : Database} (h : Looks user db.state a v) : db.commit v.txn = (.ok (), db) := by
  have fresh : v.txn.isStale db.state = false := by
    refine Transaction.freshIff.mpr ⟨fun row seen noted => (h.reads row seen noted).2, fun table seen noted => ?_⟩
    rw [h.unscanned] at noted
    cases noted
  have empty : v.txn.isReadOnly = true := SortedMap.isEmptyIff.mpr h.unwritten
  rw [Database.commit, if_neg (by simp [fresh]), if_pos empty]

structure Looking (r : Registry) (who : Nat) (user : User) : Prop where
  course : ∃ c, r.courses who = some c ∧ (c.outcome = none ∨ c.outcome = some (.ok ()) ∧
    ⟨who, [⟨.getUser user.username, .ok user⟩], []⟩ ∈ r.history)
  attempt : ∀ a, r.store.attempts who = some a → ∃ v, r.store.shared.underway who = some v ∧ Looks user r.db.state a v

variable {who other : Nat}

theorem lookingElsewhere (h : r.Looking who user) {r' : Registry} (alike : r.Alike who r')
    (history : r.history <+: r'.history)
    (version : r'.db.state.rowVersion (userRow user.username) = r.db.state.rowVersion (userRow user.username)) :
    r'.Looking who user := by
  obtain ⟨⟨c, course, outcome⟩, attempt⟩ := h
  refine ⟨⟨c, alike.courses.trans course, outcome.imp_right fun ok => ⟨ok.1, history.subset ok.2⟩⟩, fun a found => ?_⟩
  obtain ⟨v, ongoing, looks⟩ := attempt a (alike.attempts.symm.trans found)
  exact ⟨v, alike.underway.trans ongoing, looksLater looks version⟩

theorem stateAside (c : SharedStore) {move : SharedStore.Move} (aside : move.commits = false) :
    (c.step move).shared.db.state = c.shared.db.state := by
  rcases Database.usedCases (usedAside c aside) with same | ⟨_, own, -⟩
  · exact same
  · exact own.elim

theorem versionAfterCommit {db : Database} {t : Transaction} {row : RowId} (unwritten : t.writes.get? row = none) :
    (db.commit t).2.state.rowVersion row = db.state.rowVersion row := by
  rcases Database.commitState db t with same | applied
  · rw [same]
  · rw [applied]
    rcases State.rowAfter db.state t.toWrites row with ⟨-, same⟩ | ⟨w, mem, here, -⟩
    · rw [State.rowVersion, same, State.rowVersion]
    · obtain ⟨wrote, left, written, rfl⟩ := Transaction.memToWrites.mp mem
      obtain rfl : wrote = row := (Transaction.asWriteRow _).symm.trans here
      cases unwritten.symm.trans written

theorem userUnwritten (h : r.Sound) (attempt : r.store.attempts other = some a)
    (ongoing : r.store.shared.underway other = some v)
    {value : a.α} {answers : List Answered} {staged : List OutboxEntry}
    (ended : a.rest = .done (.ok ((value, answers), staged))) (ok : (r.db.commit v.txn).1 = .ok ())
    (there : r.db.state.value? (userRow user.username) ≠ none) :
    v.txn.writes.get? (userRow user.username) = none := by
  obtain ⟨-, recounted, -, writes⟩ := SharedStore.recountedCommit h.steadfast attempt ongoing ended ok
  refine Option.eq_none_iff_forall_ne_some.mpr fun left written => ?_
  obtain ⟨x, mem, written⟩ := writes _ left written
  rcases Answered.writtenCases written with ⟨made, -⟩ | ⟨_, _, _, -, row, -⟩ | inside
  · exact (recounted.neverMade (Answered.madeApart made) there).2 x mem made
  · exact absurd (show users = sessions from congrArg RowId.table row) (by decide)
  · exact absurd (show users = outbox from inside) (by decide)

theorem versionAct (h : r.Sound) (there : r.db.state.value? (userRow user.username) ≠ none) {e : Event}
    (lasts : e.reopens = false) :
    (r.act e).db.state.rowVersion (userRow user.username) = r.db.state.rowVersion (userRow user.username) := by
  have aside (move : SharedStore.Move) (aside : move.commits = false) :
      (r.store.step move).shared.db.state.rowVersion (userRow user.username) =
        r.db.state.rowVersion (userRow user.username) :=
    congrArg (State.rowVersion · _) (stateAside r.store aside)
  cases e with
  | call who call retries now =>
    simp only [act]
    split
    · exact aside (.begin who (call.runs 0) now) rfl
    · rfl
  | crowd who call =>
    simp only [act]
    split <;> rfl
  | act who => exact aside (.act who) rfl
  | conclude who now =>
    simp only [act]
    split
    · rename_i c a v course attempt ongoing
      unfold conclude
      split
      · exact aside (.leave who) rfl
      · rename_i value answers staged ended
        split
        · rename_i ok
          show (r.store.step (.commit who)).shared.db.state.rowVersion _ = _
          rw [stepCommitted attempt ongoing ended]
          exact versionAfterCommit (userUnwritten h attempt ongoing ended ok there)
        · exact aside (.begin who (c.call.runs (c.run + 1)) now) rfl
        · exact aside (.leave who) rfl
      · rfl
    · rfl
  | leave who => exact aside (.leave who) rfl
  | offer entry broker =>
    simp only [act]
    split
    · split <;> rfl
    · rfl
  | checkpoint => exact aside .checkpoint rfl
  | block on => exact aside (.block on) rfl
  | reopen policy torn k => cases lasts

theorem lookingLooks (looking : r.Looking who user)
    (there : r.db.state.value? (userRow user.username) = some (Json.encode User.codec user)) :
    { r with store := r.store.step (.act who) }.Looking who user := by
  have idle (same : r.store.step (.act who) = r.store) :
      { r with store := r.store.step (.act who) }.Looking who user := by
    rw [same]
    exact looking
  cases attempt : r.store.attempts who with
  | none => exact idle (by simp only [SharedStore.step, attempt])
  | some a =>
    obtain ⟨v, ongoing, looks⟩ := looking.attempt a attempt
    cases asked : a.rest.ask with
    | none => exact idle (by simp only [SharedStore.step, attempt, ongoing, asked])
    | some op =>
      simp only [SharedStore.step, attempt, ongoing, asked, SharedDatabase.step]
      refine ⟨looking.course, fun b found => ?_⟩
      cases (setAtSelf _ _ _).symm.trans found
      exact ⟨_, setAtSelf _ _ _, looksAct looks there asked⟩

theorem lookingEnds (looking : r.Looking who user) (now : Moment) {c : Course}
    (attempt : r.store.attempts who = some a) (ongoing : r.store.shared.underway who = some v) :
    (r.conclude who now c a v.txn).Looking who user := by
  obtain ⟨_, ongoing', looks⟩ := looking.attempt a attempt
  cases ongoing.symm.trans ongoing'
  have commit := looksCommit looks
  obtain ⟨⟨now, rest, rfl, rfl | rfl⟩, -⟩ := looks
  · exact looking
  · simp only [conclude, commit]
    refine ⟨⟨_, setAtSelf _ _ _, .inr ⟨rfl, List.mem_append_right _ (List.mem_singleton_self _)⟩⟩, fun b found => ?_⟩
    have gone : (r.store.step (.commit who)).attempts who = some b := found
    rw [stepCommitted attempt ongoing rfl] at gone
    cases (setAtSelf _ _ _).symm.trans gone

theorem lookingAct (h : r.Sound) (looking : r.Looking who user)
    (there : r.db.state.value? (userRow user.username) = some (Json.encode User.codec user)) (e : Event) :
    (r.act e).Looking who user := by
  cases lasts : e.reopens with
  | true =>
    cases e with
    | reopen policy torn k =>
      simp only [act]
      split
      · exact ⟨looking.course, fun b found => by cases found⟩
      · exact looking
    | _ => cases lasts
  | false =>
    by_cases apart : e.actor? = some who
    · cases e with
      | act other => cases apart; exact lookingLooks looking there
      | conclude other now =>
        cases apart
        simp only [act]
        split
        · rename_i c a v course attempt ongoing
          exact lookingEnds looking now attempt ongoing
        · exact looking
      | leave other =>
        cases apart
        refine ⟨looking.course, fun b found => ?_⟩
        cases (setAtSelf _ _ _).symm.trans found
      | _ => cases apart
    · obtain ⟨c, course, -⟩ := looking.course
      have known : r.db.state.value? (userRow user.username) ≠ none := Option.ne_none_iff_exists'.mpr ⟨_, there⟩
      exact lookingElsewhere looking (alikeAct course apart lasts) (historyAct r e) (versionAct h known lasts)

theorem userAt (h : r.Sound) {before after : List Answered} {new : NewUser}
    (split : r.log = before ++ ⟨.createUser new, .ok user⟩ :: after) : user.username = new.username ∧
      r.db.state.value? (userRow user.username) = some (Json.encode User.codec user) ∧
      ∀ answer, ⟨.getUser user.username, answer⟩ ∈ after → answer = .ok user := by
  obtain ⟨mid, -, rest⟩ := (split ▸ h.recounted).split
  cases rest with
  | cons truthful rest =>
    obtain ⟨-, now, rfl⟩ := truthful
    exact ⟨rfl, rest.userKept (User.create new now) (Answered.afterWritten mid rfl)⟩

theorem lookingRun (h : r.Sound) {before after : List Answered} {new : NewUser}
    (split : r.log = before ++ ⟨.createUser new, .ok user⟩ :: after) (looking : r.Looking who user)
    (events : List Event) : (r.run events).Looking who user := by
  induction events generalizing r after with
  | nil => exact looking
  | cons e events ih =>
    obtain ⟨sound, grown⟩ := soundStep h e
    obtain ⟨more, -, longer⟩ := logGrows grown
    obtain ⟨-, there, -⟩ := userAt h split
    refine ih sound (longer _ _ _ split) ?_
    unfold step
    split
    · exact lookingAct h looking there e
    · exact looking

theorem lookingCall (h : r.Sound) {before after : List Answered} {new : NewUser}
    (split : r.log = before ++ ⟨.createUser new, .ok user⟩ :: after) (free : r.courses who = none) (isOpen : r.isOpen)
    (retries : Nat) (now : Moment) (events : List Event) :
    ((r.step (.call who (.look user.username) retries now)).run events).Looking who user := by
  obtain ⟨sound, grown⟩ := soundStep h (.call who (.look user.username) retries now)
  obtain ⟨more, -, longer⟩ := logGrows grown
  refine lookingRun sound (longer _ _ _ split) ?_ events
  have began : r.step (.call who (.look user.username) retries now) =
      r.begin who { call := .look user.username, retries } now := by
    simp only [step, serves, isOpen, act, free, if_true]
  rw [began]
  refine ⟨⟨_, setAtSelf _ _ _, .inl rfl⟩, fun a found => ?_⟩
  cases (setAtSelf _ _ _).symm.trans found
  exact ⟨_, setAtSelf _ _ _, looksBegin user _ now _⟩

structure KeepsUser (r : Registry) (before after : List Answered) (name : String) (user : User) : Prop where
  only : ∀ x ∈ before ++ after, x.made? ≠ some (userRow name)
  row : r.db.state.value? (userRow name) = some (Json.encode User.codec user)
  told : ∀ answer, ⟨.getUser name, answer⟩ ∈ after → answer = .ok user
  found : ∀ who retries now later c outcome, r.isOpen → r.courses who = none →
    ((r.step (.call who (.look name) retries now)).run later).courses who = some c → c.outcome = some outcome →
    outcome = .ok () ∧ ⟨who, [⟨.getUser name, .ok user⟩], []⟩ ∈
      ((r.step (.call who (.look name) retries now)).run later).history
  alone : ∀ b : Bank, b.accounts = r.db → b.HasRoom → (Bank.getUser name b).1 = .ok user

structure KeepsSession (r : Registry) (before after : List Answered) (id : Uuid) (session : Session) : Prop where
  only : ∀ x ∈ before ++ after, x.made? ≠ some (sessionRow id)
  row : ∃ on, r.db.state.value? (sessionRow id) = some (Json.encode Session.codec { session with isBlocked := on })
  told : ∀ answer, ⟨.getSession id, answer⟩ ∈ after → ∃ on, answer = .ok { session with isBlocked := on }

theorem keepsUser (h : r.Sound) {before after : List Answered} {new : NewUser}
    (split : r.log = before ++ ⟨.createUser new, .ok user⟩ :: after) :
    r.KeepsUser before after new.username user := by
  obtain ⟨named, there, told⟩ := userAt h split
  rw [← named]
  refine ⟨(split ▸ h.recounted).madeOnce (congrArg (some <| userRow ·) named.symm), there, told,
    fun who retries now later c outcome isOpen free course ended => ?_, fun b here room => ?_⟩
  · obtain ⟨d, found, way⟩ := (lookingCall h split free isOpen retries now later).course
    cases course.symm.trans found
    rcases way with going | ⟨ok, known⟩
    · cases going.symm.trans ended
    · cases ok.symm.trans ended
      exact ⟨rfl, known⟩
  · obtain ⟨found, -⟩ := Bank.loadAlone room (c := (Bank.getUser user.username b).2) rfl
    refine found.trans ?_
    have same : b.accounts.state.value? (userRow user.username) = some (Json.encode User.codec user) := here ▸ there
    rw [Query.rowAt, same]
    exact Query.foundUser user

theorem keepsSession (h : r.Sound) {before after : List Answered} {new : NewSession} {session : Session}
    (split : r.log = before ++ ⟨.createSession new, .ok session⟩ :: after) :
    r.KeepsSession before after new.id session := by
  have recounted := split ▸ h.recounted
  obtain ⟨mid, -, rest⟩ := recounted.split
  cases rest with
  | cons truthful rest =>
    obtain ⟨-, now, rfl⟩ := truthful
    obtain ⟨row, told⟩ := rest.sessionKept (Session.create new now) ⟨_, Answered.afterWritten mid rfl⟩
    exact ⟨recounted.madeOnce rfl, row, told⟩

structure Faithful (r : Registry) : Prop where
  user : ∀ before new user after, r.log = before ++ ⟨.createUser new, .ok user⟩ :: after → ∀ later, ∃ more,
    (r.run later).log = r.log ++ more ∧ (r.run later).KeepsUser before (after ++ more) new.username user
  session : ∀ before new session after, r.log = before ++ ⟨.createSession new, .ok session⟩ :: after → ∀ later, ∃ more,
    (r.run later).log = r.log ++ more ∧ (r.run later).KeepsSession before (after ++ more) new.id session
  first : ∀ who other c d new new' follow follow', r.courses who = some c → r.courses other = some d →
    c.call = .register new follow → d.call = .register new' follow' → new.username = new'.username →
    c.outcome = some (.ok ()) → d.outcome = some (.ok ()) → who = other
  failed : ∀ who c e, r.courses who = some c → c.outcome = some (.error e) → ∀ u ∈ r.history, u.who ≠ who
  created : ∀ row value, row.table = users → r.db.state.value? row = some value → ∃ u ∈ r.history, ∃ new user,
    ⟨.createUser new, .ok user⟩ ∈ u.answers ∧ row = userRow new.username ∧ value = Json.encode User.codec user
  staged : ∀ row value, row.table = outbox → r.db.state.value? row = some value → ∃ u ∈ r.history, ∃ e ∈ u.staged,
    row = outboxRow e.id ∧ value = e.encoded
  wanted : ∀ t ∈ r.accepted, ∃ u ∈ r.history, ∃ e ∈ u.staged, e.task = t
  returns : ∀ who a schedule, r.isOpen → r.store.attempts who = some a → Fair who schedule →
    ∃ n, (r.during schedule n).Returned who

theorem madeByOne (h : r.Sound) {u u' : Committed} {x y : Answered} {row : RowId} (mem : u ∈ r.history)
    (mem' : u' ∈ r.history) (own : x ∈ u.answers) (own' : y ∈ u'.answers) (made : x.made? = some row)
    (again : y.made? = some row) : u.who = u'.who := by
  refine Decidable.byContradiction fun apart => ?_
  obtain ⟨earlier, later, split⟩ := List.append_of_mem mem
  obtain ⟨before, after, asked⟩ := List.append_of_mem own
  have whole : r.log = (earlier.flatMap (·.answers) ++ before) ++ x :: (after ++ later.flatMap (·.answers)) := by
    rw [log, split, List.flatMap_append, List.flatMap_cons, asked]
    simp only [List.append_assoc, List.cons_append]
  have elsewhere : u' ∈ earlier ∨ u' ∈ later := by
    rw [split] at mem'
    rcases List.mem_append.mp mem' with mem' | mem'
    · exact .inl mem'
    · rcases List.mem_cons.mp mem' with rfl | mem'
      · exact absurd rfl apart
      · exact .inr mem'
  refine (whole ▸ h.recounted).madeOnce made y ?_ again
  rcases elsewhere with mem' | mem'
  · exact List.mem_append_left _ (List.mem_append_left _ (List.mem_flatMap.mpr ⟨u', mem', own'⟩))
  · exact List.mem_append_right _ (List.mem_append_right _ (List.mem_flatMap.mpr ⟨u', mem', own'⟩))

theorem registered (h : r.Sound) {who : Nat} {c : Course} {new : NewUser}
    {follow : Nat → User → Except (Stop StoreError) (List NewTask)} (course : r.courses who = some c)
    (call : c.call = .register new follow) (ok : c.outcome = some (.ok ())) :
    ∃ u ∈ r.history, u.who = who ∧ ∃ user, ⟨.createUser new, .ok user⟩ ∈ u.answers := by
  obtain ⟨u, mem, rfl⟩ := h.counted who c course ok
  obtain ⟨d, same, -, n, value, ran⟩ := h.concluded u mem
  cases course.symm.trans same
  obtain ⟨call, retries, run, outcome⟩ := c
  cases call
  exact ⟨u, mem, rfl, Script.registrationRan ran⟩

theorem oneRegisters (h : r.Sound) {who other : Nat} {c d : Course} {new new' : NewUser}
    {follow follow' : Nat → User → Except (Stop StoreError) (List NewTask)} (course : r.courses who = some c)
    (course' : r.courses other = some d) (call : c.call = .register new follow) (call' : d.call = .register new' follow')
    (named : new.username = new'.username) (ok : c.outcome = some (.ok ())) (ok' : d.outcome = some (.ok ())) :
    who = other := by
  obtain ⟨u, mem, rfl, user, created⟩ := registered h course call ok
  obtain ⟨u', mem', rfl, user', created'⟩ := registered h course' call' ok'
  refine madeByOne h mem mem' created created' rfl ?_
  rw [named]
  rfl

theorem identityKept (durable : Bool) (events : List Event) : ((start durable).run events).Faithful := by
  obtain ⟨sound, -⟩ := soundRun (soundStart durable) events
  generalize (start durable).run events = r at sound ⊢
  have written {row : RowId} {value : Bytes} (there : r.db.state.value? row = some value) :
      ∃ u ∈ r.history, ∃ x ∈ u.answers, x.written = some (row, some value) := by
    rcases sound.recounted.traced there with nothing | ⟨x, mem, written⟩
    · cases nothing
    · obtain ⟨u, known, mem⟩ := List.mem_flatMap.mp mem
      exact ⟨u, known, x, mem, written⟩
  refine ⟨fun before new user after split later => ?_, fun before new session after split later => ?_,
    fun who other c d new new' follow follow' => oneRegisters sound, fun who c e course failed u mem same => ?_,
    fun row value inside there => ?_, fun row value inside there => ?_, sound.wanted,
    fun who a schedule isOpen attempt fair => ?_⟩
  · obtain ⟨still, grown⟩ := soundRun sound later
    obtain ⟨more, same, longer⟩ := logGrows grown
    exact ⟨more, same, keepsUser still (longer _ _ _ split)⟩
  · obtain ⟨still, grown⟩ := soundRun sound later
    obtain ⟨more, same, longer⟩ := logGrows grown
    exact ⟨more, same, keepsSession still (longer _ _ _ split)⟩
  · obtain ⟨d, found, ok, -⟩ := sound.concluded u mem
    rw [same] at found
    cases course.symm.trans found
    cases failed.symm.trans ok
  · obtain ⟨u, known, x, mem, written⟩ := written there
    obtain ⟨new, user, rfl, named, same⟩ := Answered.userWritten written inside
    exact ⟨u, known, new, user, mem, named, same⟩
  · obtain ⟨u, known, x, mem, written⟩ := written there
    obtain ⟨e, staged, named, same⟩ := Answered.entryWritten written inside
    exact ⟨u, known, e, sound.staged u known ▸ List.mem_filterMap.mpr ⟨x, mem, staged⟩, named, same⟩
  · obtain ⟨c, course, -⟩ := sound.underWay who a attempt
    have busy : r.Busy who c a := ⟨sound, isOpen, course, attempt⟩
    exact returnsWithin (n := 0) fair rfl busy

-- The second looks before the first has committed, and is run once more.
example :
    let call := Call.register ⟨"ada", .depositor, "", "Ada", "ada@example.org"⟩ fun _ _ => .ok []
    let r := (start false).run [.call 0 call 3 .epoch, .call 1 call 3 .epoch, .act 0, .act 1, .act 0, .act 1,
      .conclude 0 .epoch, .conclude 1 .epoch, .act 1, .conclude 1 .epoch]
    [0, 1].map (fun who => (r.courses who).bind (·.outcome)) =
      [some (.ok ()), some (.error (.failed (.taken "username 'ada' already exists")))] := by decide +kernel

end Registry
end Teller
