import Teller.Proofs.Journal.Canonical
import Teller.Proofs.Journal.Salvage
import Teller.Proofs.Numbering

/-! What an open database counts towards its next checkpoint. It counts the records that stand behind the last
snapshot which it has put in place of the journal, or all there were if it has put none there, and their bytes. When
a commit brings the count to a threshold, the journal is replaced; where that fails, the commit stands, the count
stays, and so every later commit tries again until a checkpoint succeeds, whoever asked for it. -/
namespace Teller
open Journal (Record Reads)

namespace Journal.Record
variable {r : Record} {rs : List Record} {b bytes : Bytes} {pos stop : Nat}

def texts : List Record → Bytes
  | [] => .empty
  | r :: rs => r.text ++ texts rs

theorem textsSnoc (rs : List Record) (r : Record) : texts (rs ++ [r]) = texts rs ++ r.text := by
  induction rs with
  | nil => simp only [List.nil_append, texts, ByteArray.append_empty, ByteArray.empty_append]
  | cons x rs ih => rw [List.cons_append, texts, ih, texts, ByteArray.append_assoc]

theorem encodedText (ok : r.encode = .ok bytes) : bytes = r.text :=
  Except.ok.inj (ok.symm.trans (encodeText (fitsOfEncoded ok)))

theorem encodedTexts (ok : encodeAll rs = .ok bytes) : bytes = texts rs := by
  induction rs generalizing bytes with
  | nil => exact (Except.ok.inj ok).symm
  | cons r rs ih =>
    obtain ⟨first, later, head, tail, rfl⟩ := encodeAllCons ok
    rw [encodedText head, ih tail, texts]

theorem readTexts (inside : pos ≤ b.size) (reads : Reads b pos rs stop) : b.Spans pos stop (texts rs) := by
  induction reads with
  | ended _ | broken _ _ => exact Bytes.spansNone inside
  | read before first later ih =>
    rw [← decodeRest] at first
    have here := decodedSpans first
    exact Bytes.spansJoin here (ih (Bytes.spansInside here))

end Journal.Record

theorem Journal.openTexts (d : Disk) :
    (openAt d).1.disk.content = Record.texts (openAt d).2.records ∧
      (openAt d).1.size = (openAt d).1.disk.content.size := by
  have reads := openReads d
  have part := Bytes.spansExtract (Record.readTexts (Nat.zero_le _) reads)
  have opened := openedByReading reads
  have content : (openAt d).1.disk.content = d.content.extract 0 (openAt d).1.size := by
    rw [opened]
    rfl
  refine ⟨content.trans part, ?_⟩
  rw [content, ByteArray.size_extract, Nat.min_eq_left reads.within, Nat.sub_zero]

namespace Backlog
variable {b more : Backlog} {policy : CheckpointPolicy}

def Reaches (b : Backlog) (policy : CheckpointPolicy) : Prop :=
  0 < policy.txns ∧ policy.txns ≤ b.txns ∨ 0 < policy.bytes ∧ policy.bytes ≤ b.bytes

def Below (b : Backlog) (policy : CheckpointPolicy) : Prop :=
  (0 < policy.txns → b.txns < policy.txns) ∧ (0 < policy.bytes → b.bytes < policy.bytes)

theorem dueIff : b.isDue policy = true ↔ b.Reaches policy := by
  simp only [isDue, Reaches, Bool.or_eq_true, Bool.and_eq_true, decide_eq_true_eq, gt_iff_lt, ge_iff_le]

theorem notDueIff : b.isDue policy = false ↔ b.Below policy := by
  rw [← Bool.not_eq_true, dueIff, Reaches, Below]
  omega

theorem emptyBelow (policy : CheckpointPolicy) : empty.Below policy := ⟨id, id⟩

theorem reachesMore (h : b.Reaches policy) (bytes : Nat) : (b.record bytes).Reaches policy := by
  simp only [Reaches, record] at h ⊢
  omega

end Backlog

theorem Log.checkpointCounted {log fresh : Log} {s : State} {id : UInt64} (done : log.checkpoint s id = .ok fresh) :
    fresh.policy = log.policy ∧ fresh.backlog = .empty ∧ fresh.journal.size = fresh.journal.disk.content.size ∧
      fresh.journal.disk.content = Record.texts (Snapshot.records s id) := by
  obtain ⟨journal, replaced, ok⟩ := boundOk done
  cases ok
  obtain ⟨coded, whole, _⟩ := Journal.replaced replaced
  exact ⟨rfl, rfl, whole, Record.encodedTexts coded⟩

namespace Database
variable {db : Database} {t : Transaction} {log : Log}

def attemptsOn (db : Database) (t : Transaction) : Bool :=
  db.writes t && match logCommit db.log ⟨t.id, t.toWrites⟩ with
    | .ok (some log) => log.backlog.isDue log.policy
    | _ => false

theorem commitCounted (here : db.log = some log) (size : log.journal.size = log.journal.disk.content.size)
    (writes : db.writes t = true) :
    let r : Record := ⟨t.id, t.toWrites⟩
    let counted := log.backlog.record r.text.size
    db.attemptsOn t = counted.isDue log.policy ∧
    ∃ next, (db.commit t).2.log = some next ∧ next.policy = log.policy ∧
      next.journal.size = next.journal.disk.content.size ∧
      (db.replacesOn t = false ∧ next.backlog = counted ∧
          next.journal.disk.content = log.journal.disk.content ++ r.text ∨
        db.replacesOn t = true ∧ db.attemptsOn t = true ∧ next.backlog = .empty ∧
          next.journal.disk.content = Record.texts (Snapshot.records (db.state.apply t.toWrites) db.lastTxnId)) := by
  intro r counted
  obtain ⟨fresh, full, taken, logged, h⟩ := commitWriting writes
  have filed := logged
  rw [here, logCommit] at filed
  obtain ⟨grown, grew, filed⟩ := boundOk filed
  cases filed
  obtain ⟨bytes, coded, content, grownSize, _⟩ := Journal.appended size grew
  obtain rfl : bytes = r.text := Record.encodedText coded
  have added : grown.size - log.journal.size = r.text.size := by
    rw [grownSize, content, size, ByteArray.size_append, Nat.add_sub_cancel_left]
  rw [added] at logged h
  let longer : Log := ⟨grown, log.policy, counted⟩
  have attempts : db.attemptsOn t = counted.isDue log.policy := by
    simp only [attemptsOn, writes, logged, Bool.true_and, counted, r]
  have replaces : db.replacesOn t =
      (counted.isDue log.policy && (longer.checkpoint (db.state.apply t.toWrites) db.lastTxnId).isOk) := by
    simp only [replacesOn, fresh, full, logged, Bool.not_false, Bool.true_and, longer, counted, r]
  have after : (db.commit t).2.log = checkpointIfDue (some longer) (db.state.apply t.toWrites) db.lastTxnId := by
    rw [h]
  refine ⟨attempts, ?_⟩
  rw [after, replaces, attempts, checkpointIfDue, Option.map_some]
  cases due : counted.isDue log.policy with
  | false => exact ⟨longer, rfl, rfl, grownSize, .inl ⟨rfl, rfl, content⟩⟩
  | true =>
    cases done : longer.checkpoint (db.state.apply t.toWrites) db.lastTxnId with
    | ok next =>
      obtain ⟨policy, backlog, whole, content⟩ := Log.checkpointCounted done
      exact ⟨next, rfl, policy, whole, .inr ⟨rfl, rfl, backlog, content⟩⟩
    | error cause => exact ⟨longer, rfl, rfl, grownSize, .inl ⟨rfl, rfl, content⟩⟩

theorem checkpointCounted (here : db.log = some log) :
    db.checkpoint.1.isOk = false ∧ db.checkpoint.2 = db ∨
    db.checkpoint.1.isOk = true ∧ ∃ next, db.checkpoint.2.log = some next ∧ next.policy = log.policy ∧
      next.backlog = .empty ∧ next.journal.size = next.journal.disk.content.size ∧
      next.journal.disk.content = Record.texts (Snapshot.records db.state db.lastTxnId) := by
  unfold checkpoint
  rw [here]
  simp only
  split
  · rename_i next done
    exact .inr ⟨rfl, next, rfl, Log.checkpointCounted done⟩
  · exact .inl ⟨rfl, rfl⟩

theorem commitTells (writes : db.writes t = true) : (db.commit t).1 = .ok () := by
  obtain ⟨_, _, _, _, h⟩ := commitWriting writes
  rw [h]

theorem replacesWrites (replaces : db.replacesOn t = true) : db.writes t = true := by
  rcases commitCases db t with ⟨stale, _⟩ | ⟨_, only, _⟩ | ⟨_, _, _, refused, _⟩ | ⟨_, full, _, _, h⟩
  · simp [replacesOn, stale] at replaces
  · simp [replacesOn, only] at replaces
  · simp [replacesOn, refused] at replaces
  · simp [Database.writes, h, full, Except.isOk, Except.toBool]

end Database

inductive Filed where
  | nothing
  | added (r : Record)
  | replaced (rs : List Record)

structure Tally where
  kept : List Record := []
  added : List Record

namespace Tally

def note (t : Tally) : Filed → Tally
  | .nothing => t
  | .added r => { t with added := t.added ++ [r] }
  | .replaced rs => ⟨rs, []⟩

def backlog (t : Tally) : Backlog := ⟨t.added.length, (Record.texts t.added).size⟩

theorem backlogAdded (t : Tally) (r : Record) : (t.note (.added r)).backlog = t.backlog.record r.text.size := by
  rw [note, backlog, Record.textsSnoc, List.length_append, ByteArray.size_append]
  rfl

end Tally

namespace SharedDatabase
variable {d : SharedDatabase} {policy : CheckpointPolicy} {t : Tally}

def filed (d : SharedDatabase) : Event → Filed
  | .commit who => match d.underway who with
    | some current =>
        if d.db.replacesOn current.txn then
          .replaced (Snapshot.records (d.db.state.apply current.txn.toWrites) d.db.lastTxnId)
        else if d.db.writes current.txn then .added ⟨current.txn.id, current.txn.toWrites⟩
        else .nothing
    | none => .nothing
  | .checkpoint =>
      if d.db.checkpoint.1.isOk then .replaced (Snapshot.records d.db.state d.db.lastTxnId) else .nothing
  | _ => .nothing

def tally : SharedDatabase → Tally → List Event → Tally
  | _, t, [] => t
  | d, t, e :: events => (d.step e).tally (t.note (d.filed e)) events

def Unreplaced : SharedDatabase → List Event → Prop
  | _, [] => True
  | d, e :: events => (∀ rs, d.filed e ≠ .replaced rs) ∧ (d.step e).Unreplaced events

structure Counted (log : Log) (policy : CheckpointPolicy) (t : Tally) : Prop where
  policy : log.policy = policy
  backlog : log.backlog = t.backlog
  content : log.journal.disk.content = Record.texts t.kept ++ Record.texts t.added
  size : log.journal.size = log.journal.disk.content.size

theorem countedReplaced {log : Log} {rs : List Record} (same : log.policy = policy) (backlog : log.backlog = .empty)
    (size : log.journal.size = log.journal.disk.content.size) (content : log.journal.disk.content = Record.texts rs) :
    Counted log policy (t.note (.replaced rs)) :=
  ⟨same, backlog, content.trans ByteArray.append_empty.symm, size⟩

theorem countedCommit {log : Log} (here : d.db.log = some log) (h : Counted log policy t) (who : Nat) :
    ∃ next, (d.step (.commit who)).db.log = some next ∧ Counted next policy (t.note (d.filed (.commit who))) := by
  rcases ongoing : d.underway who with _ | current
  · simp only [step, filed, ongoing]
    exact ⟨log, here, h⟩
  simp only [step, filed, ongoing]
  cases writes : d.db.writes current.txn with
  | false =>
    have kept : d.db.replacesOn current.txn = false := by
      cases replaces : d.db.replacesOn current.txn with
      | false => rfl
      | true => rw [Database.replacesWrites replaces] at writes; cases writes
    rw [Database.commitIdle writes, kept]
    exact ⟨log, here, h⟩
  | true =>
    obtain ⟨_, next, after, policy, size, filed⟩ := Database.commitCounted here h.size writes
    refine ⟨next, after, ?_⟩
    rcases filed with ⟨kept, backlog, content⟩ | ⟨replaces, _, backlog, content⟩
    · rw [kept]
      refine ⟨policy.trans h.policy, ?_, ?_, size⟩
      · rw [backlog, h.backlog]
        exact (t.backlogAdded _).symm
      · rw [content, h.content, ByteArray.append_assoc, ← Record.textsSnoc]
        rfl
    · rw [if_pos replaces]
      exact countedReplaced (policy.trans h.policy) backlog size content

theorem countedStep {log : Log} (here : d.db.log = some log) (h : Counted log policy t) (e : Event) :
    ∃ next, (d.step e).db.log = some next ∧ Counted next policy (t.note (d.filed e)) := by
  cases e with
  | begin who => exact ⟨log, here, h⟩
  | act who op =>
    simp only [step]
    split <;> exact ⟨log, here, h⟩
  | commit who => exact countedCommit here h who
  | leave who => exact ⟨log, here, h⟩
  | checkpoint =>
    simp only [step, filed]
    rcases Database.checkpointCounted here with ⟨fails, same⟩ | ⟨done, next, after, policy, backlog, size, content⟩
    · rw [fails, same]
      exact ⟨log, here, h⟩
    · rw [if_pos done]
      exact ⟨next, after, countedReplaced (policy.trans h.policy) backlog size content⟩
  | block on =>
    simp only [step, Database.block, Database.disk?, here, Option.map_some, Database.withDisk]
    exact ⟨_, rfl, h.policy, h.backlog, h.content, h.size⟩

theorem countedRun {log : Log} (here : d.db.log = some log) (h : Counted log policy t) (events : List Event) :
    ∃ next, (d.run events).db.log = some next ∧ Counted next policy (d.tally t events) := by
  induction events generalizing d t log with
  | nil => exact ⟨log, here, h⟩
  | cons e events ih =>
    obtain ⟨next, after, counted⟩ := countedStep here h e
    exact ih after counted

theorem countedOpened {disk : Disk} {db : Database} (ok : (Database.openAt disk policy).1 = .ok db) :
    ∃ log, db.log = some log ∧ Counted log policy ⟨[], (Journal.openAt disk).2.records⟩ := by
  obtain ⟨texts, size⟩ := Journal.openTexts disk
  simp only [Database.openAt] at ok
  split at ok
  · cases ok
  · cases ok
    refine ⟨_, rfl, rfl, ?_, ?_, size⟩
    · rw [Tally.backlog, ← texts, ← size]
    · rw [texts]
      exact ByteArray.empty_append.symm

theorem reachesUnreplaced {events : List Event} (h : t.backlog.Reaches policy) (kept : d.Unreplaced events) :
    (d.tally t events).backlog.Reaches policy := by
  induction events generalizing d t with
  | nil => exact h
  | cons e events ih =>
    refine ih ?_ kept.2
    cases filed : d.filed e with
    | nothing => exact h
    | added r =>
      rw [Tally.backlogAdded]
      exact Backlog.reachesMore h _
    | replaced rs => exact absurd filed (kept.1 rs)

def Retries (d : SharedDatabase) : Prop :=
  ∀ later, d.Unreplaced later → ∀ who current, (d.run later).underway who = some current →
    (d.run later).db.writes current.txn = true → (d.run later).db.attemptsOn current.txn = true

theorem retriesReached {log : Log} (here : d.db.log = some log) (h : Counted log policy t)
    (reached : t.backlog.Reaches policy) : d.Retries := by
  intro later kept who current _ writes
  obtain ⟨last, there, counted⟩ := countedRun here h later
  obtain ⟨attempts, _⟩ := Database.commitCounted there counted.size writes
  rw [attempts, counted.policy, counted.backlog]
  exact Backlog.dueIff.mpr (Backlog.reachesMore (reachesUnreplaced reached kept) _)

/-- Whatever stood on the journal and whatever is done with the database opened on it, the count is that of the records
behind the last snapshot. A commit that does not write leaves everything as it is. One that does attempts a checkpoint
just if it brings the count to a threshold that is set; then the count is below all of these, or the checkpoint has
failed, the commit stands on the old journal, and later ones try again until a checkpoint succeeds. -/
theorem backlogFollows {disk : Disk} {db : Database} (ok : (Database.openAt disk policy).1 = .ok db)
    (events : List Event) :
    let d := (start db).run events
    let tally := (start db).tally ⟨[], (Journal.openAt disk).2.records⟩ events
    (∃ log, d.db.log = some log ∧ Counted log policy tally) ∧
    ∀ who current, d.underway who = some current →
      let after := d.step (.commit who)
      let r : Record := ⟨current.txn.id, current.txn.toWrites⟩
      (d.db.writes current.txn = false → after.db = d.db) ∧
      (d.db.writes current.txn = true →
        (d.db.attemptsOn current.txn = true ↔ (tally.note (.added r)).backlog.Reaches policy) ∧
        ((∃ log, after.db.log = some log ∧ log.backlog.Below policy) ∨
          d.db.attemptsOn current.txn = true ∧ d.db.replacesOn current.txn = false ∧
            (d.db.commit current.txn).1 = .ok () ∧ after.db.content = d.db.content ++ r.text ∧ after.Retries)) := by
  intro d tally
  obtain ⟨log, here, counted⟩ : ∃ log, d.db.log = some log ∧ Counted log policy tally := by
    obtain ⟨first, opened, start⟩ := countedOpened ok
    exact countedRun opened start events
  refine ⟨⟨log, here, counted⟩, ?_⟩
  intro who current ongoing after r
  have stepped : after.db = (d.db.commit current.txn).2 := by simp only [after, step, ongoing]
  refine ⟨fun idle => stepped.trans (Database.commitIdle idle), fun writes => ?_⟩
  obtain ⟨attempts, next, left, -, -, filed⟩ := Database.commitCounted here counted.size writes
  rw [← stepped] at left
  have count : log.backlog.record r.text.size = (tally.note (.added r)).backlog := by
    rw [counted.backlog, Tally.backlogAdded]
  rw [count, counted.policy] at attempts
  refine ⟨by rw [attempts]; exact Backlog.dueIff, ?_⟩
  rcases filed with ⟨kept, backlog, content⟩ | ⟨_, _, backlog, _⟩
  · cases due : d.db.attemptsOn current.txn with
    | false =>
      rw [due] at attempts
      refine .inl ⟨next, left, ?_⟩
      rw [backlog, count]
      exact Backlog.notDueIff.mp attempts.symm
    | true =>
      have filed : d.filed (.commit who) = .added r := by simp only [SharedDatabase.filed, ongoing, kept, writes]; rfl
      obtain ⟨same, there, standing⟩ := countedCommit here counted who
      rw [filed] at standing
      rw [due] at attempts
      refine .inr ⟨rfl, kept, Database.commitTells writes, ?_, ?_⟩
      · rw [Database.contentOf left, Database.contentOf here, content]
      · exact retriesReached there standing (Backlog.dueIff.mp attempts.symm)
  · refine .inl ⟨next, left, ?_⟩
    rw [backlog]
    exact Backlog.emptyBelow _

def writing (value : String) : List Event :=
  [.begin 0, .act 0 (.put ⟨"t", Bytes.ofText "k"⟩ (Bytes.ofText value))]

def hindered (db : Database) : SharedDatabase := (start db).run (writing "u" ++ [.commit 0, .block true] ++ writing "v")

def fresh : Database := { log := some ⟨⟨⟨some .empty, false⟩, 0⟩, ⟨2, 0⟩, .empty⟩ }

theorem freshOpened : (Database.openAt {} ⟨2, 0⟩).1 = .ok fresh := by decide +kernel

theorem backlogFollowsThroughFailure :
    (Database.openAt {} ⟨2, 0⟩).1 = .ok fresh ∧ ∃ current, (hindered fresh).underway 0 = some current ∧
      (hindered fresh).db.writes current.txn = true ∧
      ((hindered fresh).step (.commit 0)).db.log.map (·.backlog) = some ⟨2, 68⟩ ∧
      ((hindered fresh).step (.commit 0)).Retries := by
  have count : ((hindered fresh).step (.commit 0)).db.log.map (·.backlog) = some ⟨2, 68⟩ := by decide +kernel
  obtain ⟨current, ongoing, writes⟩ : ∃ current, (hindered fresh).underway 0 = some current ∧
      (hindered fresh).db.writes current.txn = true := ⟨_, rfl, by decide +kernel⟩
  refine ⟨freshOpened, current, ongoing, writes, count, ?_⟩
  obtain ⟨_, outcome⟩ := ((backlogFollows freshOpened _).2 0 current ongoing).2 writes
  rcases outcome with ⟨log, here, below⟩ | ⟨_, _, _, _, retries⟩
  · -- A count of two is not below a threshold of two.
    have reached : some log.backlog = some ⟨2, 68⟩ := by
      rw [← count]
      exact (congrArg (Option.map Log.backlog) here).symm
    rw [Option.some.inj reached] at below
    exact absurd (below.1 Nat.two_pos) (Nat.lt_irrefl 2)
  · exact retries

theorem nextNeedNotAttempt :
    (Database.openAt {} ⟨2, 0⟩).1 = .ok fresh ∧ ∃ current, (hindered fresh).underway 0 = some current ∧
      (hindered fresh).db.attemptsOn current.txn = true ∧ (hindered fresh).db.replacesOn current.txn = false ∧
      let later := ((hindered fresh).step (.commit 0)).run ([.block false, .checkpoint] ++ writing "w")
      ∃ next, later.underway 0 = some next ∧ later.db.writes next.txn = true ∧
        later.db.attemptsOn next.txn = false :=
  ⟨freshOpened, _, rfl, by decide +kernel, by decide +kernel, _, rfl, by decide +kernel, by decide +kernel⟩

end SharedDatabase
end Teller
