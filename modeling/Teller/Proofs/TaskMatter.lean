import Teller.Proofs.Recoverable
import Teller.Proofs.CallsInTurn
import Teller.Proofs.Workers

/-! What a task is about stays the same for as long as the broker has it, so that whatever a worker is given was
handed in. A call writes in the tables of the queue that it names and in no others. -/
namespace Teller
open Broker
open Transaction (Buffer)

def TaskRecord.matter (r : TaskRecord) : Task := { r.toTask with retried := 0 }

def State.Stocks (such : Task → Prop) (s : State) : Prop :=
  ∀ queue id r, s.queued queue id = some r → such r.matter

namespace Broker

def Request.queue : Request → String
  | enqueue r => r.queue
  | lease queue _ _ => queue
  | extend l _ | acknowledge l | retry l _ _ | archive l _ _ => l.queue

/-- The tables of the queue and of its archive have names that a journal takes: of a longer one it keeps a length cut to
sixteen bits and reads back whatever rows come of that. -/
def Request.NamesFit (request : Request) : Prop := (archiveTable request.queue).utf8ByteSize ≤ 65535

theorem queueShorter (queue : String) : (queueTable queue).utf8ByteSize ≤ (archiveTable queue).utf8ByteSize := by
  simp only [queueTable, archiveTable, String.utf8ByteSize_append]
  exact Nat.add_le_add_right (by decide) _

instance (request : Request) : Decidable request.NamesFit := inferInstanceAs (Decidable (_ ≤ _))

variable {call : Call} {queue : String} {id : Uuid} {held left : Option TaskRecord} {r : TaskRecord} {s s' : State}
  {such : Task → Prop}

theorem reclaimedMatter (r : TaskRecord) : (reclaimed r).matter = r.matter := by
  unfold reclaimed
  split <;> rfl

theorem turnMatter (turn : Turn call queue id held left) (stored : left = some r) :
    call.request.handed? = some r ∨ ∃ x, held = some x ∧ r.matter = x.matter := by
  cases turn with
  | kept other => exact .inr ⟨r, stored, rfl⟩
  | enqueued => cases stored; exact .inl rfl
  | @granted _ _ _ x _ _ own ready due grants =>
    cases stored
    obtain ⟨leaseId, expiresAt, -, rfl⟩ := grants
    exact .inr ⟨x, rfl, reclaimedMatter x⟩
  | lost other active expired => cases stored
  | extended active => cases stored; exact .inr ⟨_, rfl, rfl⟩
  | acknowledged active => cases stored
  | retried active => cases stored; exact .inr ⟨_, rfl, rfl⟩
  | archived active => cases stored

theorem stocksTurn (h : s.Stocks such)
    (turns : ∀ queue id, Turn call queue id (s.queued queue id) (s'.queued queue id))
    (handed : ∀ r, call.request.handed? = some r → such r.matter) : s'.Stocks such := by
  intro queue id r stored
  rcases turnMatter (turns queue id) stored with asked | ⟨x, before, same⟩
  · exact handed r asked
  · exact same ▸ h queue id x before

theorem stocksGranted {e : Entry} {t : LeasedTask} (h : e.rows.Stocks such)
    (turns : ∀ queue id, Turn e.call queue id (s.queued queue id) (e.rows.queued queue id))
    (given : e.call.granted? = some t) : such t.record.matter := by
  obtain ⟨queue, now, duration, called⟩ := grantedCall given
  have turn := turns queue t.record.id
  rw [called] at turn
  exact h queue t.record.id t.record (grantedTurn turn).2.1

section
variable {limits : ArchiveLimits} {now : Moment} {row : RowId} (outside : row.table ≠ queueTable queue)
  (beyond : row.table ≠ archiveTable queue)
include outside beyond

theorem sparesPutAway (own : r.queue = queue) (error : String) :
    (putAway limits r now error : Body Empty Empty Unit).Keeps (fun (_ : Unit) op _ => Work.Spares row op)
      (fun _ _ => True) () := by
  subst own
  rw [putAwayRun]
  refine ⟨(), fun same => outside (same ▸ rfl), (), fun same => beyond (same ▸ rfl), ?_⟩
  exact Work.keepsMono (keepsPrune trivial fun _ same => beyond (same ▸ rfl)) fun _ _ _ => trivial

theorem sparesLeaseFirst {duration : Span} {ready : List TaskRecord} (own : ∀ r ∈ ready, r.queue = queue) :
    (leaseFirst limits now duration ready : Body Empty Empty (Option LeasedTask)).Keeps
      (fun (_ : Unit) op _ => Work.Spares row op) (fun _ _ => True) () := by
  induction ready with
  | nil => trivial
  | cons r rest ih =>
    have here := own r List.mem_cons_self
    rw [leaseFirstRun]
    split
    · refine Work.keepsBind (Work.keepsMono (sparesPutAway outside beyond here leaseExpired) ?_)
      rintro _ (e | _) -
      · trivial
      · exact ih fun x mem => own x (List.mem_cons_of_mem r mem)
    · rw [grantRun]
      intro leaseId
      cases now.add? duration with
      | none => trivial
      | some expiresAt =>
        refine ⟨(), fun same => outside ?_, trivial⟩
        rw [same, queueRow, (reclaimedRow r).2, here]

end

theorem callSpares {limits : ArchiveLimits} {request : Request} {reply : Reply} {own : Buffer} {row : RowId}
    (filed : s.Filed) (h : Work.Ends s ∅ (request.body limits : Body Empty Empty Reply) own (.ok reply))
    (outside : row.table ≠ queueTable request.queue) (beyond : row.table ≠ archiveTable request.queue) :
    own.get? row = none := by
  have inserted {spot : RowId} (left : Option Bytes) (place : spot.table = queueTable request.queue) :
      (SortedMap.insert ∅ spot left : Buffer).get? row = none := by
    have apart : row ≠ spot := fun same => outside (same ▸ place)
    rw [SortedMap.getInsert, if_neg apart, SortedMap.getEmpty]
  cases request with
  | enqueue r =>
    rw [enqueueRun] at h
    have h := Work.endsGet (Work.endsGet h)
    split at h
    · obtain ⟨rfl, -⟩ := Work.endsDone (Work.endsPut h)
      exact inserted _ rfl
    · obtain ⟨rfl, -⟩ := Work.endsDone h
      exact SortedMap.getEmpty row
  | lease queue now duration =>
    rw [leaseRun] at h
    have h := Work.endsScan h
    split at h
    · rename_i records read
      have due := memDue now filed read
      refine (Work.endsSpares h (Work.keepsBind (Work.keepsMono (sparesLeaseFirst outside beyond fun r mem => ?_) ?_))).trans
        (SortedMap.getEmpty row)
      · exact (due r mem).2.1
      · rintro _ (e | t) - <;> trivial
    · cases (Work.endsDone h).2
  | extend l deadline =>
    rw [extendRun] at h
    obtain ⟨r, expiry, -, place, -, h⟩ := endsLeased filed h
    obtain ⟨rfl, -⟩ := Work.endsDone (Work.endsPut h)
    exact inserted _ (congrArg RowId.table place)
  | acknowledge l =>
    rw [acknowledgeRun] at h
    obtain ⟨r, expiry, -, place, -, h⟩ := endsLeased filed h
    obtain ⟨rfl, -⟩ := Work.endsDone (Work.endsDelete h)
    exact inserted _ rfl
  | retry l runAt error =>
    rw [retryRun] at h
    obtain ⟨r, expiry, -, place, -, h⟩ := endsLeased filed h
    split at h
    · cases (Work.endsDone h).2
    · obtain ⟨rfl, -⟩ := Work.endsDone (Work.endsPut h)
      exact inserted _ (congrArg RowId.table place)
  | archive l now error =>
    rw [archiveRun] at h
    obtain ⟨r, expiry, -, place, -, h⟩ := endsLeased filed h
    have own : r.queue = l.queue := (queueRowIff.mp place).1
    refine (Work.endsSpares h (Work.keepsBind (Work.keepsMono (sparesPutAway outside beyond own error) ?_))).trans
      (SortedMap.getEmpty row)
    rintro _ (e | _) - <;> trivial

end Broker

namespace SharedBroker
variable {first : State} {c : SharedBroker} {such : Task → Prop}

def Finishes (c : SharedBroker) (t : Transaction) : Prop := ∃ who request rest reply v,
  c.pendingCalls who = some ⟨request, rest⟩ ∧ c.shared.underway who = some v ∧ rest.result? = some reply ∧ v.txn = t

theorem stepUsed (c : SharedBroker) (m : Move) : c.shared.db.Used c.Finishes (c.step m).shared.db := by
  cases m with
  | begin who request => exact .begun
  | act who drawn =>
    simp only [step]
    split
    · exact .still
    · rename_i ongoing
      split
      · simp only [SharedDatabase.step, ongoing]
        exact .still
      · exact .still
    · exact .still
  | commit who =>
    simp only [step]
    split
    · rename_i request rest v working ongoing
      split
      · rename_i reply ended
        simp only [SharedDatabase.step, ongoing]
        exact Database.usedCommit ⟨who, request, rest, reply, v, working, ongoing, ended, rfl⟩
      · exact .still
    · exact .still
  | leave who => exact .still
  | checkpoint => exact .checkpointed
  | block on => exact .blocked on

theorem finishesFits (h : c.Sound first) (fits : ∀ who x, c.pendingCalls who = some x → x.request.NamesFit)
    {t : Transaction} (own : c.Finishes t) (ok : (c.shared.db.commit t).1 = .ok ()) : ∀ w ∈ t.toWrites, w.NameFits := by
  obtain ⟨who, request, rest, reply, v, working, ongoing, ended, rfl⟩ := own
  have names := fits who _ working
  obtain ⟨v', ongoing', progress⟩ := h.works who _ working
  obtain rfl : v = v' := Option.some.inj (ongoing.symm.trans ongoing')
  obtain rfl := Work.resultIff.mp ended
  -- As it commits, the call has done what it would have done alone, whence the tables in which it wrote.
  have ends := Work.endsCommitted h.kept ongoing progress ok
  refine Transaction.namesFitWrites fun row left written => ?_
  by_cases inside : row.table = archiveTable request.queue
  · rw [inside]
    exact names
  by_cases queued : row.table = queueTable request.queue
  · rw [queued]
    exact Nat.le_trans (queueShorter request.queue) names
  · cases written.symm.trans (callSpares h.filed ends queued inside)

theorem stocksStep (h : c.Sound first) (stocks : c.shared.db.state.Stocks such)
    (begun : ∀ who x, c.pendingCalls who = some x → ∀ r, x.request.handed? = some r → such r.matter) (m : Move) :
    (c.step m).shared.db.state.Stocks such ∧
      ∀ t ∈ grantedIn (c.step m).log, t ∈ grantedIn c.log ∨ such t.record.matter := by
  have rows := (soundStep h m).rows
  rcases stepLog c m with same | ⟨who, request, rest, reply, v, working, ongoing, ended, ok, log⟩
  · rw [same] at rows ⊢
    rw [← rows, h.rows]
    exact ⟨stocks, fun t mem => .inl mem⟩
  · obtain ⟨-, turns⟩ := commitTurn h working ongoing ended ok
    have after : (c.step m).shared.db.state = (c.shared.db.commit v.txn).2.state := by
      rw [← rows, log, rowsAfter, List.foldl_append]
      rfl
    have stocks := stocksTurn stocks turns (begun who _ working)
    rw [after, log]
    refine ⟨stocks, fun t mem => ?_⟩
    rw [grantedAppend] at mem
    rcases List.mem_append.mp mem with mem | mem
    · exact .inl mem
    · obtain ⟨e, last, given⟩ := List.mem_filterMap.mp mem
      cases List.mem_singleton.mp last
      exact .inr (stocksGranted stocks turns given)

structure Supplied (such : Task → Prop) (asked : List Request) (past : List Entry) (c : SharedBroker) : Prop where
  sound : ∃ first, c.Sound first
  recoverable : c.shared.db.Recoverable
  handed : ∀ who x, c.pendingCalls who = some x → x.request ∈ asked ∧ ∀ r, x.request.handed? = some r → such r.matter
  stocked : c.shared.db.state.Stocks such
  given : ∀ t ∈ grantedIn (past ++ c.log), such t.record.matter

variable {more : Task → Prop} {asked later : List Request} {past : List Entry}

theorem suppliedMono (h : c.Supplied such asked past) (also : ∀ m, such m → more m) (longer : asked ⊆ later) :
    c.Supplied more later past where
  sound := h.sound
  recoverable := h.recoverable
  handed who x working := by
    obtain ⟨mem, handed⟩ := h.handed who x working
    exact ⟨longer mem, fun r same => also _ (handed r same)⟩
  stocked queue id r stored := also _ (h.stocked queue id r stored)
  given t mem := also _ (h.given t mem)

theorem suppliedStep (h : c.Supplied such asked past) (fits : ∀ request ∈ asked, request.NamesFit) {m : Move}
    (asks : ∀ who request, m = .begin who request → request ∈ asked ∧ ∀ r, request.handed? = some r → such r.matter) :
    (c.step m).Supplied such asked past := by
  obtain ⟨first, sound⟩ := h.sound
  obtain ⟨stocked, given⟩ := stocksStep sound h.stocked (fun who x working => (h.handed who x working).2) m
  refine ⟨⟨first, soundStep sound m⟩, ?_, fun who x found => ?_, stocked, fun t mem => ?_⟩
  · refine Database.recoverableUsed h.recoverable (stepUsed c m) fun t own ok => ?_
    exact finishesFits sound (fun who x working => fits _ (h.handed who x working).1) own ok
  · rcases stepPendingCall c m found with begins | ⟨y, working, same⟩
    · exact asks who x.request begins
    · exact same ▸ h.handed who y working
  · rw [grantedAppend] at mem
    rcases List.mem_append.mp mem with before | mem
    · exact h.given t (grantedAppend ▸ List.mem_append_left _ before)
    · rcases given t mem with before | fresh
      · exact h.given t (grantedAppend ▸ List.mem_append_right _ before)
      · exact fresh

theorem soundReopened (h : c.Sound first) {db : Database} (rows : db.state.value? = c.shared.db.state.value?)
    (dated : db.state.Dated) : (start c.limits db).Sound db.state where
  kept := ⟨dated, fun found => by cases found⟩
  works _ _ found := by cases found
  filed queue key value held := h.filed queue key value (congrFun rows _ ▸ held)
  rows := rfl
  traced := trivial

theorem suppliedReopened (h : c.Supplied such asked past) {db : Database} (recoverable : db.Recoverable)
    (rows : db.state.value? = c.shared.db.state.value?) (dated : c.shared.db.state.Dated → db.state.Dated) :
    (start c.limits db).Supplied such asked (past ++ c.log) where
  sound := by
    obtain ⟨first, sound⟩ := h.sound
    exact ⟨db.state, soundReopened sound rows (dated sound.kept.dated)⟩
  recoverable := recoverable
  handed _ _ found := by cases found
  stocked queue id r stored := by
    have same : db.state.queued queue id = c.shared.db.state.queued queue id := by rw [State.queued, State.queued, rows]
    exact h.stocked queue id r (same ▸ stored)
  given t mem := h.given t (by simpa [start] using mem)

end SharedBroker
end Teller
