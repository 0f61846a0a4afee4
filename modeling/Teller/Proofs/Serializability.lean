import Teller.Proofs.SharedDatabase

/-! Commit order is a serial order. What a transaction that commits was told is what it would be told if
it ran alone just before its commit, but for one case: a row that was missing when it was first read,
was there at a later reading and is missing again. A missing row has no version, so that its coming and
going leaves nothing for the commit to notice. -/
namespace Teller
open Journal (Write Record)

namespace Transaction

inductive Chain : List Act → Buffer → Prop where
  | nil : Chain [] ∅
  | snoc {acts own} (s : State) (op : Op) (earlier : Chain acts own) :
      Chain (acts ++ [⟨op, own, reply own s op⟩]) (buffered own op)

theorem chainTold {acts own} (h : Chain acts own) {a : Act} (mem : a ∈ acts) :
    ∃ s, a.reply = reply a.own s a.op := by
  induction h with
  | nil => simp at mem
  | snoc s op earlier ih =>
    rcases List.mem_append.mp mem with mem | mem
    · exact ih mem
    · cases List.mem_singleton.mp mem
      exact ⟨s, rfl⟩

/-- What the versions that a transaction noted say about its acts, as long as `s` is committed. -/
structure Told (s : State) (v : Underway) : Prop where
  chain : Chain v.acts v.txn.writes
  unread : ∀ r, v.txn.reads.get? r = none → ∀ a ∈ v.acts, ¬ a.Reads r
  missed : ∀ r, v.txn.reads.get? r = some 0 →
    ∃ before a after, v.acts = before ++ a :: after ∧ a.Misses r ∧ ∀ x ∈ before, ¬ x.Reads r
  found : ∀ r seen, v.txn.reads.get? r = some seen → 0 < seen → seen ≤ s.version ∧
    (s.rowVersion r = seen → ∀ a ∈ v.acts, a.Reads r → a.redo s = a)
  unscanned : ∀ t, v.txn.scans.get? t = none → ∀ a ∈ v.acts, a.op ≠ .scan t
  scanned : ∀ t seen, v.txn.scans.get? t = some seen → seen ≤ s.version ∧
    (s.tableVersion t = seen → ∀ a ∈ v.acts, a.op = .scan t → a.redo s = a)

theorem toldBegin (s : State) (id : UInt64) : Told s ⟨⟨id, ∅, ∅, ∅⟩, []⟩ where
  chain := .nil
  unread _ _ _ mem := by simp at mem
  missed _ h := by simp at h
  found _ _ h := by simp at h
  unscanned _ _ _ mem := by simp at mem
  scanned _ _ h := by simp at h

theorem redoReads {s : State} {a : Act} {r : RowId} (h : a.Reads r) :
    a.redo s = { a with reply := .value (s.value? r) } := by
  unfold Act.redo reply
  rw [h.1]
  simp [h.2]

theorem redoScan {s : State} {a : Act} {t : String} (h : a.op = .scan t) :
    a.redo s = { a with reply := .rows (a.own.entries.foldl (overlay t) (s.table t)).entries } := by
  unfold Act.redo reply
  rw [h]

theorem toldApply {s : State} {v : Underway} (h : Told s v) (ws : List Write) : Told (s.apply ws) v where
  chain := h.chain
  unread := h.unread
  missed := h.missed
  found r seen noted pos := by
    obtain ⟨old, same⟩ := h.found r seen noted pos
    refine ⟨by rw [State.versionAfter]; omega, fun now a mem reads => ?_⟩
    rcases State.rowFate s ws r with kept | gone | fresh
    · have before : s.rowVersion r = seen := by simpa [State.rowVersion, kept] using now
      have value : (s.apply ws).value? r = s.value? r := by simp [State.value?, kept]
      rw [redoReads reads, value, ← redoReads reads]
      exact same before a mem reads
    · omega
    · omega
  unscanned := h.unscanned
  scanned t seen noted := by
    obtain ⟨old, same⟩ := h.scanned t seen noted
    refine ⟨by rw [State.versionAfter]; omega, fun now a mem scans => ?_⟩
    rcases State.tableFate s ws t with ⟨version, kept⟩ | fresh
    · rw [redoScan scans, kept, ← redoScan scans]
      exact same (version ▸ now) a mem scans
    · omega

theorem valueMissing {s : State} (h : s.Dated) {r : RowId} : s.rowVersion r = 0 ↔ s.value? r = none := by
  rw [State.rowVersionPos h, State.value?, Option.map_eq_none_iff]

theorem actsOf (s : State) (v : Underway) (op : Op) :
    (v.act s op).acts = v.acts ++ [⟨op, v.txn.writes, reply v.txn.writes s op⟩] := by
  simp [Underway.act, performReply]

theorem redoSame (s : State) (op : Op) (own : Buffer) :
    Act.redo s ⟨op, own, reply own s op⟩ = ⟨op, own, reply own s op⟩ := rfl

section
variable {s : State} {v : Underway} {P : Act → Prop} {looks : Prop} [Decidable looks] {note : Option Nat} {now seen : Nat}

theorem redoneAct (op : Op) (told : ∀ a ∈ v.acts, P a → a.redo s = a) :
    ∀ a ∈ (v.act s op).acts, P a → a.redo s = a := by
  intro a mem looks
  rw [actsOf] at mem
  rcases List.mem_append.mp mem with mem | mem
  · exact told a mem looks
  · cases List.mem_singleton.mp mem
    exact redoSame s op _

theorem unnotedAct {op : Op} (before : note = none → ∀ a ∈ v.acts, ¬ P a)
    (noted : (if looks then some (note.getD now) else note) = none)
    (last : P ⟨op, v.txn.writes, reply v.txn.writes s op⟩ → looks) : ∀ a ∈ (v.act s op).acts, ¬ P a := by
  split at noted
  · cases noted
  · rename_i other
    intro a mem
    rw [actsOf] at mem
    rcases List.mem_append.mp mem with mem | mem
    · exact before noted a mem
    · cases List.mem_singleton.mp mem
      exact fun looked => other (last looked)

theorem notedAct (op : Op) (unnoted : note = none → ∀ a ∈ v.acts, ¬ P a) (low : now ≤ s.version)
    (before : note = some seen → seen ≤ s.version ∧ (now = seen → ∀ a ∈ v.acts, P a → a.redo s = a))
    (noted : (if looks then some (note.getD now) else note) = some seen) :
    seen ≤ s.version ∧ (now = seen → ∀ a ∈ (v.act s op).acts, P a → a.redo s = a) := by
  have earlier (old : note = some seen) :
      seen ≤ s.version ∧ (now = seen → ∀ a ∈ (v.act s op).acts, P a → a.redo s = a) :=
    (before old).imp_right fun same now => redoneAct op (same now)
  split at noted
  · cases note with
    | some first => exact earlier noted
    | none =>
      obtain rfl : now = seen := Option.some.inj noted
      exact ⟨low, fun _ => redoneAct op fun a mem looked => absurd looked (unnoted rfl a mem)⟩
  · exact earlier noted

theorem notedFresh (fresh : note = some seen → now = seen)
    (noted : (if looks then some (note.getD now) else note) = some seen) : now = seen := by
  split at noted
  · cases note with
    | some first => exact fresh noted
    | none => exact Option.some.inj noted
  · exact fresh noted

end

theorem missedAct {s : State} {v : Underway} (dated : s.Dated) (h : Told s v) (op : Op) (r : RowId)
    (noted : (v.act s op).txn.reads.get? r = some 0) : ∃ before a after,
      (v.act s op).acts = before ++ a :: after ∧ a.Misses r ∧ ∀ x ∈ before, ¬ x.Reads r := by
  have noted : (v.txn.perform s op).2.reads.get? r = some 0 := noted
  have earlier (old : v.txn.reads.get? r = some 0) : ∃ before a after,
      (v.act s op).acts = before ++ a :: after ∧ a.Misses r ∧ ∀ x ∈ before, ¬ x.Reads r := by
    obtain ⟨before, a, after, split, rest⟩ := h.missed r old
    exact ⟨before, a, after ++ [_], by rw [actsOf, split, List.append_assoc, List.cons_append], rest⟩
  rw [performReads] at noted
  split at noted
  · rename_i reads
    cases old : v.txn.reads.get? r with
    | some seen => rw [old] at noted; exact earlier (old.trans noted)
    | none =>
      rw [old] at noted
      have missing : s.value? r = none := (valueMissing dated).mp (Option.some.inj noted)
      refine ⟨v.acts, _, [], actsOf s v op, ⟨reads, ?_⟩, h.unread r old⟩
      simp [reply, reads.1, reads.2, missing]
  · exact earlier noted

theorem toldAct {s : State} {v : Underway} (dated : s.Dated) (h : Told s v) (op : Op) : Told s (v.act s op) where
  chain := by
    have writes : (v.act s op).txn.writes = buffered v.txn.writes op := performWrites v.txn s op
    rw [actsOf, writes]
    exact .snoc s op h.chain
  unread r noted := unnotedAct (h.unread r) ((performReads v.txn s op r).symm.trans noted) fun reads => reads
  missed r noted := missedAct dated h op r noted
  found r seen noted pos := notedAct op (h.unread r) (State.rowVersionLe dated r) (fun old => h.found r seen old pos)
    ((performReads v.txn s op r).symm.trans noted)
  unscanned t noted := unnotedAct (h.unscanned t) ((performScans v.txn s op t).symm.trans noted) fun scans => scans
  scanned t seen noted := notedAct op (h.unscanned t) (dated.table t) (h.scanned t seen)
    ((performScans v.txn s op t).symm.trans noted)

theorem steadyOfRedo {s : State} {acts : List Act} (same : ∀ a ∈ acts, a.redo s = a) : Steady acts := by
  refine List.pairwise_of_forall_mem_list fun a ha b hb r misses finds => ?_
  have told (x : Act) (mem : x ∈ acts) (reads : x.Reads r) : x.reply = .value (s.value? r) := by
    have := congrArg Act.reply (same x mem)
    rw [redoReads reads] at this
    exact this.symm
  obtain ⟨value, found⟩ := finds.2
  have clash := (told a ha misses.1).symm.trans misses.2
  rw [← told b hb finds.1, found] at clash
  cases clash

theorem redoIffSteady {s : State} {v : Underway} (dated : s.Dated) (h : Told s v)
    (checked : v.txn.isStale s = false) : (∀ a ∈ v.acts, a.redo s = a) ↔ Steady v.acts := by
  refine ⟨steadyOfRedo, fun steady a mem => ?_⟩
  obtain ⟨rows, tables⟩ := freshIff.mp checked
  obtain ⟨s', told⟩ := chainTold h.chain mem
  obtain ⟨op, own, answer⟩ := a
  obtain rfl : answer = reply own s' op := told
  cases op with
  | put row value => rfl
  | delete row => rfl
  | scan t =>
    cases noted : v.txn.scans.get? t with
    | none => exact absurd rfl (h.unscanned t noted _ mem)
    | some seen => exact (h.scanned t seen noted).2 (tables t seen noted) _ mem rfl
  | get r =>
    cases buffer : own.get? r with
    | some held => simp [Act.redo, reply, buffer]
    | none =>
      have reads : Act.Reads ⟨.get r, own, reply own s' (.get r)⟩ r := ⟨rfl, buffer⟩
      cases noted : v.txn.reads.get? r with
      | none => exact absurd reads (h.unread r noted _ mem)
      | some seen =>
        rcases Nat.eq_zero_or_pos seen with zero | pos
        · subst zero
          -- The first reading found nothing, so that no later one may have found anything.
          have missing : s.value? r = none := (valueMissing dated).mp (rows r 0 noted)
          obtain ⟨before, first, after, split, misses, unread⟩ := h.missed r noted
          have alike : s'.value? r = none := by
            rw [split] at mem steady
            rcases List.mem_append.mp mem with mem | mem
            · exact absurd reads (unread _ mem)
            · rcases List.mem_cons.mp mem with same | mem
              · rw [← same] at misses
                simpa [reply, buffer] using misses.2
              · cases value : s'.value? r with
                | none => rfl
                | some held =>
                  have pair := (List.pairwise_cons.mp (List.pairwise_append.mp steady).2.1).1 _ mem
                  exact absurd ⟨reads, held, by simp [reply, buffer, value]⟩ (pair r misses)
          simp [Act.redo, reply, buffer, missing, alike]
        · exact (h.found r seen noted pos).2 (rows r seen noted) _ mem reads

theorem replayChain {acts own} (s : State) (id : UInt64) (h : Chain acts own) :
    ((acts.map (·.op)).foldl (Underway.act s) ⟨⟨id, ∅, ∅, ∅⟩, []⟩).acts = acts.map (·.redo s) ∧
    ((acts.map (·.op)).foldl (Underway.act s) ⟨⟨id, ∅, ∅, ∅⟩, []⟩).txn.writes = own := by
  induction h with
  | nil => exact ⟨rfl, rfl⟩
  | snoc s' op earlier ih =>
    obtain ⟨acts, writes⟩ := ih
    rw [List.map_append, List.foldl_append]
    constructor
    · rw [List.map_append, ← acts]
      simp only [List.map_cons, List.map_nil, List.foldl_cons, List.foldl_nil]
      rw [actsOf, writes]
      rfl
    · simp only [List.map_cons, List.map_nil, List.foldl_cons, List.foldl_nil]
      rw [← writes]
      exact performWrites _ s op

theorem freshPerform {t : Transaction} {s : State} (h : t.isStale s = false) (op : Op) :
    (t.perform s op).2.isStale s = false := by
  obtain ⟨rows, tables⟩ := freshIff.mp h
  refine freshIff.mpr ⟨fun r seen noted => ?_, fun table seen noted => ?_⟩
  · exact notedFresh (rows r seen) ((performReads t s op r).symm.trans noted)
  · exact notedFresh (tables table seen) ((performScans t s op table).symm.trans noted)

theorem freshAlone (s : State) (ops : List Op) {v : Underway} (h : v.txn.isStale s = false) :
    (ops.foldl (Underway.act s) v).txn.isStale s = false := by
  induction ops generalizing v with
  | nil => exact h
  | cons op ops ih => exact ih (freshPerform h op)

theorem toWritesOf {t t' : Transaction} (h : t.writes = t'.writes) : t.toWrites = t'.toWrites := by
  unfold toWrites; rw [h]

theorem readOnlyOf {t t' : Transaction} (h : t.writes = t'.writes) : t.isReadOnly = t'.isReadOnly := by
  unfold isReadOnly; rw [h]

end Transaction

namespace Database

theorem commitAgain {db db' : Database} {t t' : Transaction} (ok : (db.commit t).1 = .ok ())
    (state : db'.state = db.state) (log : db'.log = db.log) (same : t'.writes = t.writes)
    (fresh : t'.isStale db.state = false) :
    (db'.commit t').1 = .ok () ∧ (db'.commit t').2.state = (db.commit t).2.state := by
  have writes := Transaction.toWritesOf same
  have only := Transaction.readOnlyOf same
  rcases commitCases db t with ⟨_, h⟩ | ⟨_, empty, h⟩ | ⟨_, _, _, _, h⟩ | ⟨_, full, taken, logged, h⟩
  · rw [h] at ok; cases ok
  · have h' : db'.commit t' = (.ok (), db') := by unfold commit; simp [state, fresh, only, empty]
    rw [h, h']; exact ⟨rfl, state⟩
  · rw [h] at ok; cases ok
  · have room := (logCommitIff db.log _).mp ⟨taken, logged⟩
    rw [Journal.Record.encodeIff] at room
    obtain ⟨taken', logged'⟩ := (logCommitIff db'.log ⟨t'.id, t'.toWrites⟩).mpr (by
      rw [Journal.Record.encodeIff, log, writes]; exact room)
    have h' : (db'.commit t') = (.ok (), { db' with
        state := db'.state.apply t'.toWrites
        log := checkpointIfDue taken' (db'.state.apply t'.toWrites) db'.lastTxnId }) := by
      unfold commit; simp [state, fresh, only, full, logged']
    rw [h, h', state, writes]; exact ⟨rfl, rfl⟩

end Database

namespace SharedDatabase
open Transaction

structure Kept (d : SharedDatabase) : Prop where
  dated : d.db.state.Dated
  told : ∀ {who v}, d.underway who = some v → Told d.db.state v

theorem keptStart {db : Database} (h : db.Opened) : (start db).Kept where
  dated := Database.openedDated h
  told h := by cases h

theorem toldWith {s : State} {underway : Nat → Option Underway} (told : ∀ {who v}, underway who = some v → Told s v)
    (who : Nat) {new : Option Underway} (h : ∀ v, new = some v → Told s v) :
    ∀ {other v}, setAt underway who new other = some v → Told s v :=
  fun {other v} => setAtAll (fun _ _ => told) h other v

theorem toldCommit {db : Database} {v : Underway} (t : Transaction) (h : Told db.state v) :
    Told (db.commit t).2.state v := by
  rcases Database.commitState db t with same | applied
  · rw [same]; exact h
  · rw [applied]; exact toldApply h _

theorem datedCommit {db : Database} (t : Transaction) (h : db.state.Dated) : (db.commit t).2.state.Dated := by
  rcases Database.commitState db t with same | applied
  · rw [same]; exact h
  · rw [applied]; exact State.datedApply h _

theorem keptStep {d : SharedDatabase} (h : d.Kept) (e : Event) : (d.step e).Kept := by
  cases e with
  | begin who =>
    refine ⟨h.dated, toldWith h.told who ?_⟩
    intro v same
    cases same
    exact toldBegin d.db.state d.db.nextTxnId
  | act who op =>
    simp only [step]
    split
    · rename_i v found
      refine ⟨h.dated, toldWith h.told who ?_⟩
      intro v' same
      cases same
      exact toldAct h.dated (h.told found) op
    · exact h
  | commit who =>
    simp only [step]
    split
    · rename_i v found
      exact ⟨datedCommit v.txn h.dated,
        toldWith (fun other => toldCommit v.txn (h.told other)) who (by simp)⟩
    · exact h
  | leave who => exact ⟨h.dated, toldWith h.told who (by simp)⟩
  | checkpoint =>
    refine ⟨?_, fun found => ?_⟩
    · simpa [step] using h.dated
    · simpa [step] using h.told found
  | block on =>
    refine ⟨?_, fun found => ?_⟩
    · simpa [step] using h.dated
    · simpa [step] using h.told found

theorem keptRun {d : SharedDatabase} (h : d.Kept) (events : List Event) : (d.run events).Kept := by
  induction events generalizing d with
  | nil => exact h
  | cons e events ih => exact ih (keptStep h e)

theorem keptCommit {d : SharedDatabase} (kept : d.Kept) {who : Nat} {v : Underway} (active : d.underway who = some v)
    (ok : (d.db.commit v.txn).1 = .ok ()) :
    let again := Underway.alone d.db (v.acts.map (·.op))
    (again.1.acts = v.acts ↔ Steady v.acts) ∧ again.1.txn.writes = v.txn.writes ∧
      (again.2.commit again.1.txn).1 = .ok () ∧
      (again.2.commit again.1.txn).2.state = (d.db.commit v.txn).2.state := by
  have told := kept.told active
  obtain ⟨acts, writes⟩ := replayChain d.db.state d.db.nextTxnId told.chain
  refine ⟨?_, writes, ?_⟩
  · rw [← redoIffSteady kept.dated told (Database.commitChecked ok)]
    have pointwise : v.acts.map (·.redo d.db.state) = v.acts ↔ ∀ a ∈ v.acts, a.redo d.db.state = a := by
      simpa using List.map_inj_left (l := v.acts) (f := (·.redo d.db.state)) (g := id)
    rw [← pointwise, ← acts]
    exact Iff.rfl
  · exact Database.commitAgain ok rfl rfl writes (freshAlone d.db.state _ (freshIff.mpr (by simp)))

/-- A transaction that commits could have run alone just before its commit, with the same rows left in
the end; and it would have been told the same, exactly if no row that it had found missing turned up. -/
theorem committedRunsAloneIff {db : Database} (opened : db.Opened) (events : List Event) {who : Nat} {v : Underway}
    (active : ((start db).run events).underway who = some v)
    (ok : (((start db).run events).db.commit v.txn).1 = .ok ()) :
    let now := ((start db).run events).db
    let again := Underway.alone now (v.acts.map (·.op))
    (again.1.acts = v.acts ↔ Steady v.acts) ∧ (again.2.commit again.1.txn).1 = .ok () ∧
      (again.2.commit again.1.txn).2.state = (now.commit v.txn).2.state := by
  obtain ⟨same, _, committed⟩ := keptCommit (keptRun (keptStart opened) events) active ok
  exact ⟨same, committed⟩

def besideAnother (row other : RowId) : List Event :=
  [.begin 1, .act 1 (.put row (Bytes.ofText "v")), .commit 1, .begin 0, .act 0 (.get row), .begin 2,
    .act 2 (.put other (Bytes.ofText "w")), .act 2 (.scan row.table), .commit 2, .act 0 (.scan other.table),
    .act 0 (.get row), .act 0 (.put row (Bytes.ofText "x"))]

theorem committedRunsAloneBesideAnother :
    let d := (start .inMemory).run (besideAnother ⟨"t", Bytes.ofText "k"⟩ ⟨"u", Bytes.ofText "k"⟩)
    ∃ v, d.underway 0 = some v ∧ (d.db.commit v.txn).1 = .ok () ∧ Steady v.acts ∧
      let again := Underway.alone d.db (v.acts.map (·.op))
      again.1.acts = v.acts ∧ (again.2.commit again.1.txn).1 = .ok () ∧
        (again.2.commit again.1.txn).2.state = (d.db.commit v.txn).2.state := by
  refine ⟨_, rfl, by decide +kernel, ?_⟩
  have h := @committedRunsAloneIff _ .inMemory
    (besideAnother ⟨"t", Bytes.ofText "k"⟩ ⟨"u", Bytes.ofText "k"⟩) 0 _ rfl (by decide +kernel)
  exact ⟨h.1.mp (by decide +kernel), by decide +kernel, h.2⟩

def comeAndGone (row : RowId) : List Event :=
  [.begin 0, .act 0 (.get row), .begin 1, .act 1 (.put row (Bytes.ofText "v")), .commit 1,
    .act 0 (.get row), .begin 2, .act 2 (.delete row), .commit 2]

theorem committedToldOtherwise :
    let d := (start .inMemory).run (comeAndGone ⟨"t", Bytes.ofText "k"⟩)
    ∃ v, d.underway 0 = some v ∧ (d.db.commit v.txn).1 = .ok () ∧
      (Underway.alone d.db (v.acts.map (·.op))).1.acts ≠ v.acts := by
  refine ⟨_, rfl, ?_, ?_⟩
  · decide +kernel
  · decide +kernel

end SharedDatabase
end Teller
