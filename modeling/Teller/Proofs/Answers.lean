import Teller.Proofs.Json.Faithful
import Teller.Proofs.Outbox
import Teller.Proofs.StoreSerializability
import Teller.Proofs.TableViews
import Teller.Proofs.UnitsAlone

/-! Answered queries, one after the other. What a query leaves in the rows is told by its answer, and its answer
is told by the rows before it. A user or a session is made once, and stays. -/
namespace Teller
open Transaction (Buffer Underway)
open Query (users sessions outbox userRow sessionRow outboxRow decoded)

namespace Query

theorem foundUser (user : User) : found User.codec (some (Json.encode User.codec user)) = .ok user := by
  rw [found, decoded, User.decodeEncode]
  rfl

theorem foundSession (session : Session) :
    found Session.codec (some (Json.encode Session.codec session)) = .ok session := by
  rw [found, decoded, Session.decodeEncode]
  rfl

end Query

open Query (found)

namespace Answered

def written : Answered → Option (RowId × Option Bytes)
  | ⟨.createUser new, .ok user⟩ => some (userRow new.username, some (Json.encode User.codec user))
  | ⟨.createSession new, .ok session⟩ => some (sessionRow new.id, some (Json.encode Session.codec session))
  | ⟨.setBlocked id _, .ok session⟩ => some (sessionRow id, some (Json.encode Session.codec session))
  | ⟨.insertOutbox _, .ok entry⟩ => some (outboxRow entry.id, some entry.encoded)
  | ⟨.deleteOutbox id, .ok ()⟩ => some (outboxRow id, none)
  | _ => none

def buffered (own : Buffer) (x : Answered) : Buffer :=
  match x.written with
  | some (row, left) => own.insert row left
  | none => own

def after (rows : Rows) (x : Answered) : Rows :=
  match x.written with
  | some (row, left) => rows.set row left
  | none => rows

def staged? : Answered → Option OutboxEntry
  | ⟨.insertOutbox _, .ok entry⟩ => some entry
  | _ => none

def listed : Answered → List OutboxEntry
  | ⟨.listOutbox, .ok entries⟩ => entries
  | _ => []

def made? : Answered → Option RowId
  | ⟨.createUser new, .ok _⟩ => some (userRow new.username)
  | ⟨.createSession new, .ok _⟩ => some (sessionRow new.id)
  | _ => none

def Truthful (rows : Rows) : Answered → Prop
  | ⟨.createUser new, .ok user⟩ => rows (userRow new.username) = none ∧ ∃ now, user = .create new now
  | ⟨.getUser name, answer⟩ => answer = found User.codec (rows (userRow name))
  | ⟨.createSession new, .ok session⟩ => rows (sessionRow new.id) = none ∧ ∃ now, session = .create new now
  | ⟨.getSession id, answer⟩ => answer = found Session.codec (rows (sessionRow id))
  | ⟨.setBlocked id on, .ok session⟩ => ∃ before, found Session.codec (rows (sessionRow id)) = .ok before ∧
      session = { before with isBlocked := on }
  | ⟨.insertOutbox task, .ok entry⟩ => entry.id = task.id ∧ entry.task = task
  | ⟨.listOutbox, .ok entries⟩ => ∀ e ∈ entries, ∃ key value, rows ⟨outbox, key⟩ = some value ∧
      decoded OutboxEntry.codec value = .ok e
  | _ => True

theorem amendedBuffered (s : State) (own : Buffer) (x : Answered) :
    s.amended (x.buffered own) = x.after (s.amended own) := by
  unfold buffered after
  cases x.written with
  | none => rfl
  | some write => exact State.amendedInsert s own write.1 write.2

theorem bufferedFrom {answers : List Answered} {own : Buffer} {r : RowId} {left : Option Bytes}
    (h : (answers.foldl buffered own).get? r = some left) :
    own.get? r = some left ∨ ∃ x ∈ answers, x.written = some (r, left) := by
  induction answers generalizing own with
  | nil => exact .inl h
  | cons x later ih =>
    rcases ih h with before | ⟨y, mem, written⟩
    · unfold buffered at before
      cases written : x.written with
      | none =>
        rw [written] at before
        exact .inl before
      | some write =>
        rw [written] at before
        dsimp only at before
        rw [SortedMap.getInsert] at before
        split at before
        · rename_i here
          cases before
          exact .inr ⟨x, List.mem_cons_self, by rw [written, here]⟩
        · exact .inl before
    · exact .inr ⟨y, List.mem_cons_of_mem _ mem, written⟩

theorem stagesNone {x : Answered} (nothing : x.staged? = none) (staged : List OutboxEntry) :
    staged ++ x.staged?.toList = staged := by
  rw [nothing]
  exact List.append_nil staged

theorem tableWritten {x : Answered} {row : RowId} {left : Option Bytes} (h : x.written = some (row, left)) :
    row.table = users ∨ row.table = sessions ∨ row.table = outbox := by
  unfold written at h
  split at h
  · cases h; exact .inl rfl
  · cases h; exact .inr (.inl rfl)
  · cases h; exact .inr (.inl rfl)
  · cases h; exact .inr (.inr rfl)
  · cases h; exact .inr (.inr rfl)
  · cases h

end Answered

namespace Query
variable {α : Type} {s : State} {own own' : Buffer} {staged : List OutboxEntry}

theorem concludes (now : Moment) (q : Ask) {result}
    (h : Work.Ends s own ((q.query now).run staged) own' result) : ∃ answer,
      result = answer.map (·, staged ++ (Answered.mk q answer).staged?.toList) ∧
      (Answered.mk q answer).Truthful (s.amended own) ∧ own' = (Answered.mk q answer).buffered own := by
  cases q with
  | createUser new =>
    rw [Ask.query, createUserRun] at h
    rcases makeLeaves h with ⟨free, rfl, rfl⟩ | ⟨_, rfl, rfl⟩
    · exact ⟨.ok _, by rw [Answered.stagesNone rfl]; rfl, ⟨free, now, rfl⟩, rfl⟩
    · exact ⟨.error _, rfl, trivial, rfl⟩
  | getUser name =>
    obtain ⟨rfl, rfl⟩ := loadLeaves h
    exact ⟨_, by rw [Answered.stagesNone rfl], rfl, rfl⟩
  | createSession new =>
    rw [Ask.query, createSessionRun] at h
    rcases makeLeaves h with ⟨free, rfl, rfl⟩ | ⟨_, rfl, rfl⟩
    · exact ⟨.ok _, by rw [Answered.stagesNone rfl]; rfl, ⟨free, now, rfl⟩, rfl⟩
    · exact ⟨.error _, rfl, trivial, rfl⟩
  | getSession id =>
    obtain ⟨rfl, rfl⟩ := loadLeaves h
    exact ⟨_, by rw [Answered.stagesNone rfl], rfl, rfl⟩
  | setBlocked id on =>
    rw [Ask.query, setBlockedRun] at h
    rcases Work.endsBind h with ⟨mid, ⟨session, left⟩, first, later⟩ | ⟨e, rfl, first⟩
    · obtain ⟨rfl, answer⟩ := loadLeaves first
      obtain ⟨rfl, rfl⟩ := Work.endsDone (Work.endsPut later)
      cases read : found Session.codec (s.amended mid (sessionRow id)) with
      | error e => rw [read] at answer; cases answer
      | ok before =>
        rw [read] at answer
        obtain ⟨same, rfl⟩ := Prod.mk.inj (Except.ok.inj answer)
        exact ⟨.ok _, by rw [Answered.stagesNone rfl]; rfl, ⟨before, read, same ▸ rfl⟩, rfl⟩
    · obtain ⟨rfl, -⟩ := loadLeaves first
      exact ⟨.error e, rfl, trivial, rfl⟩
  | insertOutbox task =>
    rw [Ask.query, insertOutboxRun] at h
    obtain ⟨rfl, rfl⟩ := Work.endsDone (Work.endsPut h)
    exact ⟨.ok _, rfl, ⟨rfl, rfl⟩, rfl⟩
  | listOutbox =>
    rw [Ask.query, listOutboxRun] at h
    obtain ⟨rfl, rfl⟩ := Work.endsDone (Work.endsScan h)
    cases read : entriesOf (own'.entries.foldl (Transaction.overlay outbox) (s.table outbox)).entries with
    | error e => exact ⟨.error e, rfl, trivial, rfl⟩
    | ok entries =>
      refine ⟨.ok _, by rw [Answered.stagesNone rfl]; rfl, fun e mem => ?_, rfl⟩
      obtain ⟨⟨key, value⟩, there, decodes⟩ := memMapM read e (List.mem_mergeSort.mp mem)
      exact ⟨key, value, (s.memScan own' outbox key value).mp there, decodes⟩
  | deleteOutbox id =>
    rw [Ask.query, deleteOutboxRun] at h
    obtain ⟨rfl, rfl⟩ := Work.endsDone (Work.endsDelete h)
    exact ⟨.ok (), by rw [Answered.stagesNone rfl]; rfl, trivial, rfl⟩

theorem observed (now : Moment) (q : Ask) {answer : Except (Stop StoreError) q.Result} {left : List OutboxEntry}
    (h : Work.Ends s own ((observing (q.query now)).run staged) own' (.ok (answer, left))) :
    (Answered.mk q answer).Truthful (s.amended own) ∧ own' = (Answered.mk q answer).buffered own ∧
      left = staged ++ (Answered.mk q answer).staged?.toList := by
  rcases Work.endsCatch h with ⟨_, same, tried⟩ | ⟨mid, e, tried, later⟩
  · cases same
    rcases Work.endsBind tried with ⟨mid, ⟨value, after⟩, first, later⟩ | ⟨_, failed, _⟩
    · obtain ⟨rfl, same⟩ := Work.endsDone later
      cases same
      obtain ⟨answer, same, truthful, buffered⟩ := concludes now q first
      cases answer with
      | error e => cases same
      | ok value => cases same; exact ⟨truthful, buffered, rfl⟩
    · cases failed
  · obtain ⟨rfl, same⟩ := Work.endsDone later
    cases same
    rcases Work.endsBind tried with ⟨mid, ⟨value, after⟩, first, later⟩ | ⟨_, failed, first⟩
    · obtain ⟨rfl, same⟩ := Work.endsDone later
      cases same
    · cases failed
      obtain ⟨answer, same, truthful, buffered⟩ := concludes now q first
      cases answer with
      | error e =>
        cases same
        refine ⟨truthful, buffered, ?_⟩
        rw [Answered.stagesNone (by cases q <;> rfl)]
      | ok value => cases same

end Query

inductive Recounted : Rows → List Answered → Rows → Prop where
  | nil {rows} : Recounted rows [] rows
  | cons {rows x later rows'} (truthful : x.Truthful rows) (rest : Recounted (x.after rows) later rows') :
      Recounted rows (x :: later) rows'

inductive Script.Ran {α : Type} : Script α → List Answered → α → Prop where
  | finish {value} : Ran (.finish (.ok value)) [] value
  | ask {q next answer later value} (rest : Ran (next answer) later value) :
      Ran (.ask q next) (⟨q, answer⟩ :: later) value

theorem Script.recounted {α : Type} {s : State} {own own' : Buffer} {staged left : List OutboxEntry} {now : Moment}
    {script : Script α} {value : α} {answers : List Answered}
    (h : Work.Ends s own ((script.body now).run staged) own' (.ok ((value, answers), left))) :
    script.Ran answers value ∧ Recounted (s.amended own) answers (s.amended own') ∧
      own' = answers.foldl Answered.buffered own ∧ left = staged ++ answers.filterMap Answered.staged? := by
  induction script generalizing own staged answers with
  | finish result =>
    cases result with
    | error e =>
      obtain ⟨-, same⟩ := Work.endsDone h
      cases same
    | ok value =>
      obtain ⟨rfl, same⟩ := Work.endsDone h
      cases same
      exact ⟨.finish, .nil, rfl, (List.append_nil _).symm⟩
  | ask q next ih =>
    rcases Work.endsBind h with ⟨mid, ⟨answer, staged'⟩, asked, rest⟩ | ⟨_, failed, _⟩
    · rcases Work.endsBind rest with ⟨mid', ⟨⟨value', later⟩, left'⟩, rest, done⟩ | ⟨_, failed, _⟩
      · obtain ⟨rfl, same⟩ := Work.endsDone done
        cases same
        obtain ⟨truthful, rfl, rfl⟩ := Query.observed now q asked
        obtain ⟨ran, recounted, rfl, rfl⟩ := ih _ rest
        rw [Answered.amendedBuffered] at recounted
        refine ⟨.ask ran, .cons truthful recounted, rfl, ?_⟩
        rw [List.append_assoc, List.filterMap_cons]
        cases Answered.staged? ⟨q, answer⟩ <;> rfl
      · cases failed
    · cases failed

namespace Answered
variable {rows : Rows} {x : Answered} {r : RowId}

theorem writtenCases {left : Option Bytes} (h : x.written = some (r, left)) :
    x.made? = some r ∧ left ≠ none ∨
      (∃ id on session, x = ⟨.setBlocked id on, .ok session⟩ ∧ r = sessionRow id ∧
        left = some (Json.encode Session.codec session)) ∨ r.table = outbox := by
  unfold written at h
  split at h
  · cases h; exact .inl ⟨rfl, nofun⟩
  · cases h; exact .inl ⟨rfl, nofun⟩
  · cases h; exact .inr (.inl ⟨_, _, _, rfl, rfl, rfl⟩)
  · cases h; exact .inr (.inr rfl)
  · cases h; exact .inr (.inr rfl)
  · cases h

theorem entryWritten {value : Bytes} (h : x.written = some (r, some value)) (inside : r.table = outbox) :
    ∃ e, x.staged? = some e ∧ r = outboxRow e.id ∧ value = e.encoded := by
  unfold written at h
  split at h
  · cases h; exact absurd (show users = outbox from inside) (by decide)
  · cases h; exact absurd (show sessions = outbox from inside) (by decide)
  · cases h; exact absurd (show sessions = outbox from inside) (by decide)
  · cases h; exact ⟨_, rfl, rfl, rfl⟩
  · cases h
  · cases h

theorem userWritten {value : Bytes} (h : x.written = some (r, some value)) (inside : r.table = users) :
    ∃ new user, x = ⟨.createUser new, .ok user⟩ ∧ r = userRow new.username ∧ value = Json.encode User.codec user := by
  unfold written at h
  split at h
  · cases h; exact ⟨_, _, rfl, rfl, rfl⟩
  · cases h; exact absurd (show sessions = users from inside) (by decide)
  · cases h; exact absurd (show sessions = users from inside) (by decide)
  · cases h; exact absurd (show outbox = users from inside) (by decide)
  · cases h
  · cases h

theorem madeApart (made : x.made? = some r) : r.table ≠ outbox := by
  unfold made? at made
  split at made
  · cases made; exact show users ≠ outbox by decide
  · cases made; exact show sessions ≠ outbox by decide
  · cases made

theorem listedThere {e : OutboxEntry} (truthful : x.Truthful rows) (listed : e ∈ x.listed) :
    ∃ key value, rows ⟨outbox, key⟩ = some value ∧ decoded OutboxEntry.codec value = .ok e := by
  unfold Answered.listed at listed
  split at listed
  · exact truthful e listed
  · cases listed

theorem madeNew (truthful : x.Truthful rows) (made : x.made? = some r) : rows r = none := by
  unfold made? at made
  split at made
  · cases made; exact truthful.1
  · cases made; exact truthful.1
  · cases made

theorem madeThere (rows : Rows) (made : x.made? = some r) : x.after rows r ≠ none := by
  unfold made? at made
  split at made
  · cases made; simp [after, written]
  · cases made; simp [after, written]
  · cases made

theorem afterOther (rows : Rows) (apart : ∀ left, x.written ≠ some (r, left)) : x.after rows r = rows r := by
  unfold after
  cases written : x.written with
  | none => rfl
  | some write => exact Rows.setOther rows write.2 fun same => apart write.2 (same ▸ written)

theorem afterWritten (rows : Rows) {left : Option Bytes} (h : x.written = some (r, left)) : x.after rows r = left := by
  rw [after, h]
  exact Rows.setSelf rows r left

theorem staysMade (truthful : x.Truthful rows) (apart : r.table ≠ outbox) (there : rows r ≠ none) :
    x.after rows r ≠ none ∧ x.made? ≠ some r := by
  refine ⟨?_, fun made => there (madeNew truthful made)⟩
  by_cases own : ∃ left, x.written = some (r, left)
  · obtain ⟨left, written⟩ := own
    rw [afterWritten rows written]
    rcases writtenCases written with ⟨-, there⟩ | ⟨_, _, _, -, -, rfl⟩ | inside
    · exact there
    · exact nofun
    · exact absurd inside apart
  · rwa [afterOther rows fun left written => own ⟨left, written⟩]

theorem userSame {name : String} {value : Bytes} (truthful : x.Truthful rows)
    (there : rows (userRow name) = some value) : x.after rows (userRow name) = some value := by
  rw [afterOther rows fun left written => ?_, there]
  rcases writtenCases written with ⟨made, -⟩ | ⟨id, _, _, -, row, -⟩ | inside
  · cases there.symm.trans (madeNew truthful made)
  · exact absurd (show users = sessions from congrArg RowId.table row) (by decide)
  · exact absurd (show users = outbox from inside) (by decide)

def SessionAt (rows : Rows) (session : Session) : Prop :=
  ∃ on, rows (sessionRow session.id) = some (Json.encode Session.codec { session with isBlocked := on })

theorem sessionSame {session : Session} (truthful : x.Truthful rows) (there : SessionAt rows session) :
    SessionAt (x.after rows) session := by
  obtain ⟨on, there⟩ := there
  by_cases own : ∃ left, x.written = some (sessionRow session.id, left)
  · obtain ⟨left, written⟩ := own
    rcases writtenCases written with ⟨made, -⟩ | ⟨id, turned, changed, rfl, row, rfl⟩ | inside
    · cases there.symm.trans (madeNew truthful made)
    · obtain ⟨before, read, rfl⟩ := truthful
      rw [← row, there, Query.foundSession] at read
      cases read
      exact ⟨turned, afterWritten rows written⟩
    · exact absurd (show sessions = outbox from inside) (by decide)
  · exact ⟨on, (afterOther rows fun left written => own ⟨left, written⟩).trans there⟩

end Answered

namespace Recounted
variable {rows mid rows' : Rows} {log later : List Answered} {r : RowId}

theorem append (h : Recounted rows log mid) (rest : Recounted mid later rows') : Recounted rows (log ++ later) rows' := by
  induction h with
  | nil => exact rest
  | cons truthful _ ih => exact .cons truthful (ih rest)

theorem split (h : Recounted rows (log ++ later) rows') : ∃ mid, Recounted rows log mid ∧ Recounted mid later rows' := by
  induction log generalizing rows with
  | nil => exact ⟨rows, .nil, h⟩
  | cons x log ih =>
    cases h with
    | cons truthful rest =>
      obtain ⟨mid, first, second⟩ := ih rest
      exact ⟨mid, .cons truthful first, second⟩

theorem neverMade (h : Recounted rows log rows') (apart : r.table ≠ outbox) (there : rows r ≠ none) :
    rows' r ≠ none ∧ ∀ x ∈ log, x.made? ≠ some r := by
  induction h with
  | nil => exact ⟨there, List.forall_mem_nil _⟩
  | cons truthful _ ih =>
    obtain ⟨stays, other⟩ := Answered.staysMade truthful apart there
    obtain ⟨still, others⟩ := ih stays
    exact ⟨still, List.forall_mem_cons.mpr ⟨other, others⟩⟩

theorem madeStays (h : Recounted rows log rows') {x : Answered} (mem : x ∈ log) (made : x.made? = some r) :
    rows' r ≠ none := by
  obtain ⟨before, after, rfl⟩ := List.append_of_mem mem
  obtain ⟨mid, -, rest⟩ := h.split
  cases rest with
  | cons truthful rest => exact (rest.neverMade (Answered.madeApart made) (Answered.madeThere mid made)).1

theorem madeOnce {x : Answered} (h : Recounted rows (log ++ x :: later) rows') (made : x.made? = some r) :
    ∀ y ∈ log ++ later, y.made? ≠ some r := by
  obtain ⟨mid, first, rest⟩ := h.split
  cases rest with
  | cons truthful rest =>
    intro y mem again
    rcases List.mem_append.mp mem with mem | mem
    · exact first.madeStays mem again (Answered.madeNew truthful made)
    · exact (rest.neverMade (Answered.madeApart made) (Answered.madeThere mid made)).2 y mem again

theorem userKept (h : Recounted rows log rows') (user : User)
    (there : rows (userRow user.username) = some (Json.encode User.codec user)) :
    rows' (userRow user.username) = some (Json.encode User.codec user) ∧
      ∀ answer, ⟨.getUser user.username, answer⟩ ∈ log → answer = .ok user := by
  induction h with
  | nil => exact ⟨there, fun _ mem => by cases mem⟩
  | @cons rows x later rows' truthful _ ih =>
    obtain ⟨still, others⟩ := ih (Answered.userSame truthful there)
    refine ⟨still, fun answer mem => ?_⟩
    rcases List.mem_cons.mp mem with rfl | mem
    · have told : answer = found User.codec (rows (userRow user.username)) := truthful
      rw [told, there, Query.foundUser]
    · exact others answer mem

theorem sessionKept (h : Recounted rows log rows') (session : Session) (there : Answered.SessionAt rows session) :
    Answered.SessionAt rows' session ∧
      ∀ answer, ⟨.getSession session.id, answer⟩ ∈ log → ∃ on, answer = .ok { session with isBlocked := on } := by
  induction h with
  | nil => exact ⟨there, fun _ mem => by cases mem⟩
  | @cons rows x later rows' truthful _ ih =>
    obtain ⟨still, others⟩ := ih (Answered.sessionSame truthful there)
    refine ⟨still, fun answer mem => ?_⟩
    rcases List.mem_cons.mp mem with rfl | mem
    · have told : answer = found Session.codec (rows (sessionRow session.id)) := truthful
      obtain ⟨on, there⟩ := there
      exact ⟨on, by rw [told, there, Query.foundSession]⟩
    · exact others answer mem

theorem traced (h : Recounted rows log rows') {value : Bytes} (there : rows' r = some value) :
    rows r = some value ∨ ∃ x ∈ log, x.written = some (r, some value) := by
  induction h with
  | nil => exact .inl there
  | @cons rows x later rows' _ _ ih =>
    rcases ih there with before | ⟨y, mem, written⟩
    · by_cases own : ∃ left, x.written = some (r, left)
      · obtain ⟨left, written⟩ := own
        obtain rfl := (Answered.afterWritten rows written).symm.trans before
        exact .inr ⟨x, List.mem_cons_self, written⟩
      · rw [Answered.afterOther rows fun left written => own ⟨left, written⟩] at before
        exact .inl before
    · exact .inr ⟨y, List.mem_cons_of_mem _ mem, written⟩

theorem listedStaged (h : Recounted (fun _ => none) log rows') :
    log.flatMap Answered.listed ⊆ log.filterMap Answered.staged? := by
  intro e mem
  obtain ⟨x, mem, listed⟩ := List.mem_flatMap.mp mem
  obtain ⟨before, after, rfl⟩ := List.append_of_mem mem
  obtain ⟨mid, first, rest⟩ := h.split
  cases rest with
  | cons truthful rest =>
    obtain ⟨key, value, there, read⟩ := Answered.listedThere truthful listed
    rcases first.traced there with nothing | ⟨x, known, written⟩
    · cases nothing
    · obtain ⟨entry, staged, -, rfl⟩ := Answered.entryWritten written rfl
      cases entry.decodedOwn.symm.trans read
      exact List.mem_filterMap.mpr ⟨x, List.mem_append_left _ known, staged⟩

end Recounted

namespace SharedStore
variable {c : SharedStore} {who : Nat} {a : Attempt} {v : Underway}

theorem recountedCommit (h : c.Steadfast) (attempt : c.attempts who = some a) (ongoing : c.shared.underway who = some v)
    {value : a.α} {answers : List Answered} {staged : List OutboxEntry}
    (ended : a.rest = .done (.ok ((value, answers), staged))) (ok : (c.shared.db.commit v.txn).1 = .ok ()) :
    a.script.Ran answers value ∧
      Recounted c.shared.db.state.value? answers (c.shared.db.commit v.txn).2.state.value? ∧
      staged = answers.filterMap Answered.staged? ∧
      ∀ r left, v.txn.writes.get? r = some left → ∃ x ∈ answers, x.written = some (r, left) := by
  obtain ⟨_, ongoing', works⟩ := h.works attempt
  cases ongoing.symm.trans ongoing'
  have steady := Transaction.steadyOfLasting h.kept.dated (h.kept.told ongoing) (Database.commitChecked ok)
    fun x mem r finds => (works.lasting x mem r finds).2
  have ends := Work.endsSteady h.kept ongoing (ended ▸ Work.followsLed works.led) steady ok
  obtain ⟨ran, recounted, writes, rfl⟩ := Script.recounted ends
  have after : c.shared.db.state.amended v.txn.writes = (c.shared.db.commit v.txn).2.state.value? :=
    funext fun r => (Database.valueAfterCommit ok r).symm
  rw [after] at recounted
  refine ⟨ran, recounted, rfl, fun r left there => ?_⟩
  rw [writes] at there
  exact (Answered.bufferedFrom there).resolve_left nofun

end SharedStore

end Teller
