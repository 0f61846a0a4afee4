import Teller.Proofs.BankScript
import Teller.Proofs.Json.Rows

/-! What queries do to the outbox. Entries go in by the transaction that stages them, each under the id of
its task; what is read there was put there. -/
namespace Teller
open Transaction (Op)
open Query (outbox outboxRow)

def OutboxEntry.encoded (e : OutboxEntry) : Bytes := Json.encode codec e

theorem OutboxEntry.decodedOwn (e : OutboxEntry) : Query.decoded codec e.encoded = .ok e := by
  rw [Query.decoded, encoded, decodeEncode]
  rfl

theorem Query.outboxRowInjective {a b : Uuid} (h : outboxRow a = outboxRow b) : a = b :=
  Uuid.keyInjective (RowId.mk.inj h).2

namespace Transaction

def Files (free : Uuid → Prop) (staged : List OutboxEntry) : Op → List OutboxEntry → Prop
  | .get _, later | .scan _, later => later = staged
  | .put row value, later => row.table ≠ outbox ∧ later = staged ∨
      ∃ e : OutboxEntry, e.task.id = e.id ∧ row = outboxRow e.id ∧ value = e.encoded ∧ later = staged ++ [e]
  | .delete row, later => later = staged ∧
      (row.table = outbox → staged = [] ∧ ∃ id, free id ∧ row = outboxRow id)

structure Filing (free : Uuid → Prop) (staged : List OutboxEntry) (t : Transaction) : Prop where
  named : ∀ e ∈ staged, e.task.id = e.id
  kept : ∀ e ∈ staged, ∃ v, t.writes.get? (outboxRow e.id) = some (some v)
  put : ∀ r v, r.table = outbox → t.writes.get? r = some (some v) →
    ∃ e ∈ staged, r = outboxRow e.id ∧ v = e.encoded
  gone : ∀ r, r.table = outbox → t.writes.get? r = some none → ∃ id, free id ∧ r = outboxRow id

theorem filingBegin (free : Uuid → Prop) (id : UInt64) : Filing free [] ⟨id, ∅, ∅, ∅⟩ where
  named _ mem := by cases mem
  kept _ mem := by cases mem
  put _ _ _ h := by simp at h
  gone _ _ h := by simp at h

theorem filingElsewhere {free : Uuid → Prop} {staged : List OutboxEntry} {t t' : Transaction}
    (h : Filing free staged t) (same : ∀ r, r.table = outbox → t'.writes.get? r = t.writes.get? r) :
    Filing free staged t' where
  named := h.named
  kept e mem := by
    obtain ⟨v, there⟩ := h.kept e mem
    exact ⟨v, (same _ rfl).trans there⟩
  put r v inside there := h.put r v inside ((same r inside).symm.trans there)
  gone r inside there := h.gone r inside ((same r inside).symm.trans there)

theorem filingPut {free : Uuid → Prop} {staged : List OutboxEntry} {t : Transaction} (h : Filing free staged t)
    {e : OutboxEntry} (name : e.task.id = e.id) :
    Filing free (staged ++ [e]) (t.put (outboxRow e.id) e.encoded) := by
  have writes (r : RowId) : (t.put (outboxRow e.id) e.encoded).writes.get? r =
      if r = outboxRow e.id then some (some e.encoded) else t.writes.get? r := by
    rw [Transaction.put, SortedMap.getInsert]
  refine ⟨fun x mem => ?_, fun x mem => ?_, fun r v inside there => ?_, fun r inside there => ?_⟩
  · rcases List.mem_append.mp mem with mem | mem
    · exact h.named x mem
    · cases List.mem_singleton.mp mem; exact name
  · rw [writes]
    split
    · exact ⟨_, rfl⟩
    · rename_i other
      rcases List.mem_append.mp mem with mem | mem
      · exact h.kept x mem
      · cases List.mem_singleton.mp mem; exact absurd rfl other
  · rw [writes] at there
    split at there
    · rename_i here
      cases there
      exact ⟨e, List.mem_append_right _ (List.mem_singleton_self e), here, rfl⟩
    · obtain ⟨x, mem, found⟩ := h.put r v inside there
      exact ⟨x, List.mem_append_left _ mem, found⟩
  · rw [writes] at there
    split at there
    · cases there
    · exact h.gone r inside there

theorem filingDelete {free : Uuid → Prop} {t : Transaction} (h : Filing free [] t) {id : Uuid} (may : free id) :
    Filing free [] (t.delete (outboxRow id)) := by
  have writes (r : RowId) : (t.delete (outboxRow id)).writes.get? r =
      if r = outboxRow id then some none else t.writes.get? r := by
    rw [Transaction.delete, SortedMap.getInsert]
  refine ⟨h.named, fun x mem => ?_, fun r v inside there => ?_, fun r inside there => ?_⟩
  · cases mem
  · rw [writes] at there
    split at there
    · cases there
    · exact h.put r v inside there
  · rw [writes] at there
    split at there
    · rename_i here; exact ⟨id, may, here⟩
    · exact h.gone r inside there

theorem filingPerform {free : Uuid → Prop} {staged later : List OutboxEntry} {t : Transaction}
    (h : Filing free staged t) {op : Op} (files : Files free staged op later) (s : State) :
    Filing free later (t.perform s op).2 := by
  have quiet (same : buffered t.writes op = t.writes) : Filing free staged (t.perform s op).2 :=
    filingElsewhere h fun r _ => by rw [performWrites, same]
  cases op with
  | get row => cases files; exact quiet rfl
  | scan table => cases files; exact quiet rfl
  | put row value =>
    rcases files with ⟨elsewhere, rfl⟩ | ⟨e, name, rfl, rfl, rfl⟩
    · refine filingElsewhere h fun r inside => ?_
      have apart : r ≠ row := fun same => elsewhere (same ▸ inside)
      rw [performWrites, buffered, SortedMap.getInsert, if_neg apart]
    · exact filingPut h name
  | delete row =>
    obtain ⟨rfl, may⟩ := files
    by_cases inside : row.table = outbox
    -- Nothing is staged, so that no staged entry can go.
    · obtain ⟨rfl, id, goes, rfl⟩ := may inside
      exact filingDelete h goes
    · refine filingElsewhere h fun r there => ?_
      have apart : r ≠ row := fun same => inside (same ▸ there)
      rw [performWrites, buffered, SortedMap.getInsert, if_neg apart]

end Transaction

open Transaction (Files Filing)

theorem Query.files {q : Ask} (adds : ∀ id, q ≠ .deleteOutbox id) (now : Moment) (free : Uuid → Prop) :
    (q.query now).Keeps (Files free) fun g staged => staged = g := by
  have loading {α : Type} (codec : Json.Codec α) (row : RowId) :
      (load codec row : Query Empty Empty α).Keeps (Files free) fun g staged => staged = g :=
    keepsLoading codec fun _ => rfl
  rintro _ g rfl
  have user : users ≠ outbox := by decide
  have session : sessions ≠ outbox := by decide
  cases q with
  | createUser new =>
    rw [Ask.query, createUserRun]
    refine ⟨g, rfl, fun held => ?_⟩
    cases held with
    | none => exact ⟨g, .inl ⟨user, rfl⟩, rfl⟩
    | some value => rfl
  | getUser username => exact loading _ _ g g rfl
  | createSession new =>
    rw [Ask.query, createSessionRun]
    refine ⟨g, rfl, fun held => ?_⟩
    cases held with
    | none => exact ⟨g, .inl ⟨session, rfl⟩, rfl⟩
    | some value => rfl
  | getSession id => exact loading _ _ g g rfl
  | setBlocked id blocked =>
    rw [Ask.query, setBlockedRun]
    refine Work.keepsBind (Work.keepsMono (keepsLoad Session.codec rfl g) ?_)
    rintro later (e | ⟨value, staged⟩) ⟨rfl, same⟩
    · rfl
    · obtain rfl := same value staged rfl
      exact ⟨staged, .inl ⟨session, rfl⟩, rfl⟩
  | insertOutbox task =>
    rw [Ask.query, insertOutboxRun]
    exact ⟨_, .inr ⟨⟨task.id, task, now⟩, rfl, rfl, rfl, rfl⟩, rfl⟩
  | listOutbox =>
    rw [Ask.query, listOutboxRun]
    refine ⟨g, rfl, fun rows => ?_⟩
    dsimp only
    cases entriesOf rows <;> rfl
  | deleteOutbox id => exact absurd rfl (adds id)

namespace Query

inductive Staging : {α : Type} → Query Empty Empty α → Prop where
  | pure {α : Type} (value : α) : Staging (pure value)
  | throw {α : Type} (e : Stop StoreError) : Staging (throw e : Query Empty Empty α)
  | bind {α β : Type} {query : Query Empty Empty α} {next : α → Query Empty Empty β} (first : Staging query)
      (rest : ∀ value, Staging (next value)) : Staging (query >>= next)
  | newId : Staging (StateT.lift Work.newId)
  | query {q : Ask} (adds : ∀ id, q ≠ .deleteOutbox id) (now : Moment) : Staging (q.query now)
  | observing {q : Ask} (adds : ∀ id, q ≠ .deleteOutbox id) (now : Moment) : Staging (observing (q.query now))
  | rethrow {α : Type} {query : Query Empty Empty α} (h : Staging query) (as : Stop StoreError → Stop StoreError) :
      Staging (tryCatch query fun e => throw (as e))

theorem stagingFiles {α : Type} {query : Query Empty Empty α} (h : query.Staging) (free : Uuid → Prop)
    (staged : List OutboxEntry) : (query.run staged).Keeps (Files free)
      (fun later r => ∀ value left, r = .ok (value, left) → left = later) staged := by
  induction h generalizing staged with
  | pure value =>
    intro _ _ same
    cases same
    rfl
  | throw e =>
    intro _ _ same
    cases same
  | bind first rest ih later =>
    refine Work.keepsBind (Work.keepsMono (ih staged) ?_)
    intro g r same
    rcases r with e | ⟨value, left⟩
    · intro _ _ same
      cases same
    · exact same value left rfl ▸ later value left
  | newId =>
    intro id _ _ same
    cases same
    rfl
  | query adds now =>
    refine Work.keepsMono (files adds now free staged staged rfl) ?_
    intro g r same
    rcases r with e | ⟨value, left⟩
    · intro _ _ same
      cases same
    · intro _ _ same
      cases same
      exact same
  | observing adds now =>
    refine Work.keepsMono (keepsObserving (files adds now free) rfl) ?_
    rintro g _ ⟨answer, left, rfl, same⟩ _ _ ⟨⟩
    exact same
  | rethrow h as ih =>
    refine Work.keepsCatch (Work.keepsMono (ih staged) ?_)
    intro g r same
    rcases r with e | ⟨value, left⟩
    · intro _ _ same
      cases same
    · exact same

theorem stagingScript {α : Type} {script : Script α} (adds : script.Asks fun q => ∀ id, q ≠ .deleteOutbox id)
    (now : Moment) : (script.body now).Staging := by
  induction script with
  | finish result =>
    cases result with
    | error e => exact .throw e
    | ok value => exact .pure (value, [])
  | ask q next ih =>
    refine .bind (.observing adds.1 now) fun answer => .bind (ih answer (adds.2 answer)) fun (value, later) => ?_
    exact .pure (value, ⟨q, answer⟩ :: later)

theorem stagingInserts (now : Moment) (tasks : List NewTask) :
    (tasks.mapM (insertOutbox now) : Query Empty Empty (List OutboxEntry)).Staging := by
  induction tasks with
  | nil => exact .pure []
  | cons task tasks ih =>
    rw [List.mapM_cons]
    exact .bind (.query (q := .insertOutbox task) nofun now) fun e => .bind ih fun later => .pure (e :: later)

theorem stagingCreateUserWith (now : Moment) (new : NewUser) {follow : User → Query Empty Empty (List NewTask)}
    (h : ∀ user, (follow user).Staging) : (createUserWith now new follow).Staging :=
  .bind (.query (q := .createUser new) nofun now) fun user =>
    .bind (.rethrow (h user) afterFailure) fun tasks =>
      .bind (stagingInserts now tasks) fun entries => .pure (user, entries)

end Query

structure QueryUnderway (α : Type) where
  rest : Work Empty Empty (Stop StoreError) (α × List OutboxEntry)
  txn : Transaction

namespace QueryUnderway
variable {α : Type}

def begin (query : Query Empty Empty α) (db : Database) : QueryUnderway α := ⟨query.run [], db.begin.1⟩

def act (drawn : Uuid) (s : State) (underway : QueryUnderway α) : QueryUnderway α :=
  match underway.rest with
  | .fresh next => { underway with rest := next drawn }
  | rest => match rest.ask with
    | some op => ⟨rest.told (underway.txn.perform s op).1, (underway.txn.perform s op).2⟩
    | none => underway

section
variable {γ : Type} (own : γ → Transaction → Prop) {may : γ → Op → γ → Prop}
  {ends : γ → Except (Stop StoreError) (α × List OutboxEntry) → Prop} {underway : QueryUnderway α}

theorem keepsAct (h : ∃ g, own g underway.txn ∧ underway.rest.Keeps may ends g)
    (perform : ∀ {g later op t s}, own g t → may g op later → own later (Transaction.perform t s op).2)
    (drawn : Uuid) (s : State) :
    ∃ g, own g (underway.act drawn s).txn ∧ (underway.act drawn s).rest.Keeps may ends g := by
  obtain ⟨g, before, keeps⟩ := h
  obtain ⟨rest, txn⟩ := underway
  unfold act
  dsimp only at before keeps ⊢
  split
  · exact ⟨g, before, keeps drawn⟩
  · split
    · rename_i op asked
      obtain ⟨later, allowed, keeps⟩ := Work.keepsTold keeps asked
      exact ⟨later, perform before allowed, keeps _ _⟩
    · exact ⟨g, before, keeps⟩

theorem keepsResult {result : α × List OutboxEntry} (h : ∃ g, own g underway.txn ∧ underway.rest.Keeps may ends g)
    (ended : underway.rest.result? = some result) : ∃ g, own g underway.txn ∧ ends g (.ok result) := by
  obtain ⟨g, before, keeps⟩ := h
  rw [Work.resultIff.mp ended] at keeps
  exact ⟨g, before, keeps⟩

end

def Files (free : Uuid → Prop) (underway : QueryUnderway α) : Prop :=
  ∃ staged, Filing free staged underway.txn ∧ underway.rest.Keeps (Transaction.Files free)
    (fun later r => ∀ value left, r = .ok (value, left) → left = later) staged

theorem filesBegin {query : Query Empty Empty α} (h : query.Staging) (free : Uuid → Prop) (db : Database) :
    (begin query db).Files free := ⟨[], Transaction.filingBegin .., Query.stagingFiles h free []⟩

theorem filesClearing (id : Uuid) (db : Database) : (begin (Query.deleteOutbox id) db).Files (· = id) :=
  ⟨[], Transaction.filingBegin .., [], ⟨rfl, fun _ => ⟨rfl, id, rfl, rfl⟩⟩, by rintro _ _ ⟨⟩; rfl⟩

theorem filesAct {free : Uuid → Prop} {underway : QueryUnderway α} (h : underway.Files free) (drawn : Uuid)
    (s : State) :
    (underway.act drawn s).Files free :=
  keepsAct (Filing free) h (fun filing allowed => Transaction.filingPerform filing allowed _) drawn s

theorem filesResult {free : Uuid → Prop} {underway : QueryUnderway α} {value : α} {staged : List OutboxEntry}
    (h : underway.Files free) (ended : underway.rest.result? = some (value, staged)) :
    Filing free staged underway.txn := by
  obtain ⟨noted, filing, same⟩ := keepsResult (Filing free) h ended
  exact same value staged rfl ▸ filing

end QueryUnderway

def State.Holds (entries : List OutboxEntry) (s : State) : Prop :=
  ∀ r v, r.table = outbox → s.value? r = some v → ∃ e ∈ entries, r = outboxRow e.id ∧ v = e.encoded

theorem Query.entriesFrom {rows : List (Bytes × Bytes)} {found : List OutboxEntry}
    (ok : entriesOf rows = .ok found) : ∀ e ∈ found, ∃ row ∈ rows, decoded OutboxEntry.codec row.2 = .ok e :=
  memMapM ok

theorem State.entriesHeld {s : State} {entries found : List OutboxEntry} (h : s.Holds entries)
    (ok : Query.entriesOf (s.table outbox).entries = .ok found) : ∀ e ∈ found, e ∈ entries := by
  intro e mem
  obtain ⟨⟨key, value⟩, there, read⟩ := Query.entriesFrom ok e mem
  have value : s.value? ⟨outbox, key⟩ = some value := by
    rw [← State.getTable]
    exact SortedMap.memEntries.mp there
  obtain ⟨x, mem, _, rfl⟩ := h _ _ rfl value
  cases x.decodedOwn.symm.trans read
  exact mem

inductive QueryUnderway.Lists (committed : List OutboxEntry) : QueryUnderway (List OutboxEntry) → Prop where
  | asks {t} (unwritten : t.writes = ∅) : Lists committed ⟨Query.listOutbox.run [], t⟩
  | told {t entries} (held : ∀ e ∈ entries, e ∈ committed) : Lists committed ⟨.done (.ok (entries, [])), t⟩
  | failed {t e} : Lists committed ⟨.done (.error e), t⟩

theorem QueryUnderway.listsAct {drawn : Uuid} {s : State} {committed : List OutboxEntry}
    {underway : QueryUnderway (List OutboxEntry)} (h : underway.Lists committed) (held : s.Holds committed) :
    (underway.act drawn s).Lists committed := by
  cases h with
  | @asks t unwritten =>
    rw [Query.listOutboxRun]
    have told : (t.scan s outbox).1 = (s.table outbox).entries := by
      rw [Transaction.scan, unwritten]
      rfl
    show QueryUnderway.Lists committed ⟨.done ((Query.entriesOf (t.scan s outbox).1).map _), _⟩
    rw [told]
    cases read : Query.entriesOf (s.table outbox).entries with
    | error e => exact .failed
    | ok found => exact .told fun e mem => State.entriesHeld held read e (List.mem_mergeSort.mp mem)
  | told held => exact .told held
  | failed => exact .failed

theorem QueryUnderway.listsMono {committed later : List OutboxEntry} {underway : QueryUnderway (List OutboxEntry)}
    (h : underway.Lists committed) (more : committed ⊆ later) : underway.Lists later := by
  cases h with
  | asks unwritten => exact .asks unwritten
  | told held => exact .told fun e mem => more (held e mem)
  | failed => exact .failed

namespace Transaction
variable {db : Database} {t : Transaction} {free : Uuid → Prop} {staged : List OutboxEntry}

theorem filingAdds (h : Filing free staged t) (ok : (db.commit t).1 = .ok ()) {e : OutboxEntry}
    (mem : e ∈ staged) : (db.commit t).2.state.value? (outboxRow e.id) ≠ none := by
  obtain ⟨v, written⟩ := h.kept e mem
  rw [Database.valueAfterCommit ok, written]
  simp

theorem filingStays (h : Filing free staged t) (ok : (db.commit t).1 = .ok ()) {r : RowId}
    (inside : r.table = outbox) (there : db.state.value? r ≠ none) :
    (db.commit t).2.state.value? r ≠ none ∨ ∃ id, free id ∧ r = outboxRow id := by
  rw [Database.valueAfterCommit ok]
  cases buffer : t.writes.get? r with
  | none => exact .inl there
  | some left =>
    cases left with
    | none => exact .inr (h.gone r inside buffer)
    | some value => exact .inl (by simp)

theorem filingHolds (h : Filing free staged t) (ok : (db.commit t).1 = .ok ()) {committed : List OutboxEntry}
    (held : db.state.Holds committed) : (db.commit t).2.state.Holds (committed ++ staged) := by
  intro r v inside there
  rw [Database.valueAfterCommit ok] at there
  cases buffer : t.writes.get? r with
  | none =>
    rw [buffer] at there
    obtain ⟨e, mem, found⟩ := held r v inside there
    exact ⟨e, List.mem_append_left _ mem, found⟩
  | some left =>
    rw [buffer] at there
    obtain rfl : left = some v := there
    obtain ⟨e, mem, found⟩ := h.put r v inside buffer
    exact ⟨e, List.mem_append_right _ mem, found⟩

end Transaction
end Teller
