import Teller.Bank.Store
import Teller.Proofs.Outbox

/-! The outbox between all who use it at once. Units of work stage entries, the relay lists them, and
whoever has staged or listed entries hands them over and clears what is taken. Any of them may stop
anywhere; what was committed stays in the outbox until the broker has taken it. -/
namespace Teller
open Transaction (Filing)
open Query (outbox outboxRow)

inductive OutboxProcess where
  | stages {α : Type} (underway : QueryUnderway α)
  | lists (cutoff : Moment) (underway : QueryUnderway (List OutboxEntry))
  | hands (entries : List OutboxEntry)
  | taken (id : Uuid) (later : List OutboxEntry)
  | clears (id : Uuid) (later : List OutboxEntry) (underway : QueryUnderway Unit)

/-- A query that has ended: its transaction, what it has staged, and what its process goes on as once it is
committed or once it is refused. -/
structure Ready where
  txn : Transaction
  staged : List OutboxEntry
  onward : OutboxProcess
  refused : Option OutboxProcess

namespace OutboxProcess

def act (drawn : Uuid) (s : State) : OutboxProcess → OutboxProcess
  | stages underway => stages (underway.act drawn s)
  | lists cutoff underway => lists cutoff (underway.act drawn s)
  | clears id later underway => clears id later (underway.act drawn s)
  | c => c

def ready? : OutboxProcess → Option Ready
  | stages underway => underway.rest.result?.map fun (_, staged) => ⟨underway.txn, staged, hands staged, none⟩
  | lists cutoff underway => underway.rest.result?.map fun (entries, staged) =>
      ⟨underway.txn, staged, hands (entries.filter (·.createdAt ≤ cutoff)), none⟩
  | clears id later underway => underway.rest.result?.map fun (_, staged) =>
      ⟨underway.txn, staged, hands later, some (taken id later)⟩
  | hands _ | taken _ _ => none

def leave : OutboxProcess → Option OutboxProcess
  | stages _ | lists _ _ | hands _ => none
  | taken _ later | clears _ later _ => some (hands later)

end OutboxProcess

structure SharedOutbox where
  db : Database
  processes : Nat → Option OutboxProcess := fun _ => none
  committed : List OutboxEntry
  accepted : List NewTask := []

namespace SharedOutbox

inductive Event where
  | unit (who : Nat) {α : Type} (body : Query Empty Empty α) (staging : body.Staging)
  | relay (who : Nat) (cutoff : Moment)
  | clear (who : Nat)
  | act (who : Nat) (drawn : Uuid)
  | commit (who : Nat)
  | offer (who : Nat) (broker : Bank)
  | leave (who : Nat)
  | checkpoint
  | block (on : Bool)

def step (m : SharedOutbox) : Event → SharedOutbox
  | .unit who body _ => { m with
      db := m.db.begin.2
      processes := setAt m.processes who (some (.stages (.begin body m.db))) }
  | .relay who cutoff => { m with
      db := m.db.begin.2
      processes := setAt m.processes who (some (.lists cutoff (.begin Query.listOutbox m.db))) }
  | .clear who => match m.processes who with
    | some (.taken id later) => { m with
        db := m.db.begin.2
        processes := setAt m.processes who (some (.clears id later (.begin (Query.deleteOutbox id) m.db))) }
    | _ => m
  | .act who drawn => { m with
      processes := setAt m.processes who ((m.processes who).map (OutboxProcess.act drawn m.db.state)) }
  | .commit who => match (m.processes who).bind OutboxProcess.ready? with
    | some r => match m.db.commit r.txn with
      | (.ok (), db) => { m with
          db, processes := setAt m.processes who (some r.onward), committed := m.committed ++ r.staged }
      | (.error _, db) => { m with db, processes := setAt m.processes who r.refused }
    | none => m
  | .offer who broker => match m.processes who with
    | some (.hands (e :: later)) => match (broker.enqueueTask e.task).1 with
      | .ok _ => { m with
          processes := setAt m.processes who (some (.taken e.id later)), accepted := m.accepted ++ [e.task] }
      | .error _ => { m with processes := setAt m.processes who (some (.hands later)) }
    | _ => m
  | .leave who => { m with processes := setAt m.processes who ((m.processes who).bind OutboxProcess.leave) }
  | .checkpoint => { m with db := m.db.checkpoint.2 }
  | .block on => { m with db := m.db.block on }

def run (m : SharedOutbox) (events : List Event) : SharedOutbox := events.foldl step m

end SharedOutbox

def Taken (accepted : List NewTask) (id : Uuid) : Prop := ∃ t ∈ accepted, t.id = id

def OutboxProcess.Sound (committed : List OutboxEntry) (accepted : List NewTask) : OutboxProcess → Prop
  | stages underway => underway.Files fun _ => False
  | lists _ underway => underway.Files (fun _ => False) ∧ underway.Lists committed
  | hands entries => entries ⊆ committed
  | taken id later => Taken accepted id ∧ later ⊆ committed
  | clears id later underway => Taken accepted id ∧ later ⊆ committed ∧ underway.Files (· = id)

namespace OutboxProcess
variable {committed : List OutboxEntry} {accepted : List NewTask} {c : OutboxProcess}

theorem soundMono {committed' : List OutboxEntry} {accepted' : List NewTask} (h : c.Sound committed accepted)
    (more : committed ⊆ committed') (taken : accepted ⊆ accepted') : c.Sound committed' accepted' := by
  have still {id : Uuid} : Taken accepted id → Taken accepted' id :=
    fun ⟨t, mem, same⟩ => ⟨t, taken mem, same⟩
  cases c with
  | stages underway => exact h
  | lists cutoff underway => exact ⟨h.1, QueryUnderway.listsMono h.2 more⟩
  | hands entries => exact List.Subset.trans h more
  | taken id later => exact ⟨still h.1, List.Subset.trans h.2 more⟩
  | clears id later underway => exact ⟨still h.1, List.Subset.trans h.2.1 more, h.2.2⟩

theorem soundAct {s : State} (h : c.Sound committed accepted) (drawn : Uuid) (held : s.Holds committed) :
    (c.act drawn s).Sound committed accepted := by
  cases c with
  | stages underway => exact QueryUnderway.filesAct h drawn s
  | lists cutoff underway => exact ⟨QueryUnderway.filesAct h.1 drawn s, QueryUnderway.listsAct h.2 held⟩
  | hands entries => exact h
  | taken id later => exact h
  | clears id later underway => exact ⟨h.1, h.2.1, QueryUnderway.filesAct h.2.2 drawn s⟩

theorem soundLeave (h : c.Sound committed accepted) {rest : OutboxProcess} (left : c.leave = some rest) :
    rest.Sound committed accepted := by
  cases c with
  | stages underway => cases left
  | lists cutoff underway => cases left
  | hands entries => cases left
  | taken id later => cases left; exact h.2
  | clears id later underway => cases left; exact h.2.1

theorem soundReady (h : c.Sound committed accepted) {r : Ready} (ready : c.ready? = some r) :
    (∃ free, Filing free r.staged r.txn ∧ ∀ id, free id → Taken accepted id) ∧
      r.onward.Sound (committed ++ r.staged) accepted ∧ ∀ c, r.refused = some c → c.Sound committed accepted := by
  cases c with
  | stages underway =>
    obtain ⟨⟨_, staged⟩, ended, rfl⟩ := Option.map_eq_some_iff.mp ready
    exact ⟨⟨_, QueryUnderway.filesResult h ended, nofun⟩, List.subset_append_right _ _, by rintro _ ⟨⟩⟩
  | lists cutoff underway =>
    obtain ⟨⟨entries, staged⟩, ended, rfl⟩ := Option.map_eq_some_iff.mp ready
    refine ⟨⟨_, QueryUnderway.filesResult h.1 ended, nofun⟩, fun e mem => ?_, by rintro _ ⟨⟩⟩
    have listed := h.2
    cases listed with
    | asks => cases ended
    | told held => cases ended; exact List.mem_append_left _ (held e (List.mem_filter.mp mem).1)
    | failed => cases ended
  | hands entries => cases ready
  | taken id later => cases ready
  | clears id later underway =>
    obtain ⟨⟨_, staged⟩, ended, rfl⟩ := Option.map_eq_some_iff.mp ready
    refine ⟨⟨_, QueryUnderway.filesResult h.2.2 ended, ?_⟩, List.subset_append_of_subset_left _ h.2.1, ?_⟩
    · rintro _ rfl; exact h.1
    · intro _ same
      cases same
      exact ⟨h.1, h.2.1⟩

end OutboxProcess

namespace SharedOutbox
variable {m : SharedOutbox}

structure Sound (m : SharedOutbox) : Prop where
  named : ∀ e ∈ m.committed, e.task.id = e.id
  rows : m.db.state.Holds m.committed
  kept : ∀ e ∈ m.committed, m.db.state.value? (outboxRow e.id) ≠ none ∨ Taken m.accepted e.id
  traced : ∀ t ∈ m.accepted, ∃ e ∈ m.committed, e.task = t
  processes : ∀ who c, m.processes who = some c → c.Sound m.committed m.accepted

inductive Moves (m : SharedOutbox) : SharedOutbox → Prop where
  | aside {db : Database} (same : db.state = m.db.state) : Moves m { m with db }
  | goes {db : Database} {who : Nat} {process : Option OutboxProcess} (same : db.state = m.db.state)
      (own : ∀ c, process = some c → c.Sound m.committed m.accepted) :
      Moves m { m with db, processes := setAt m.processes who process }
  | takes {who : Nat} {e : OutboxEntry} {later : List OutboxEntry} (mem : e ∈ m.committed)
      (rest : later ⊆ m.committed) : Moves m { m with
        processes := setAt m.processes who (some (.taken e.id later)), accepted := m.accepted ++ [e.task] }
  | commits {who : Nat} {r : Ready} {free : Uuid → Prop} (filing : Filing free r.staged r.txn)
      (taken : ∀ id, free id → Taken m.accepted id)
      (onward : r.onward.Sound (m.committed ++ r.staged) m.accepted) (ok : (m.db.commit r.txn).1 = .ok ()) :
      Moves m { m with
        db := (m.db.commit r.txn).2, processes := setAt m.processes who (some r.onward)
        committed := m.committed ++ r.staged }

theorem commitMoves (h : m.Sound) (who : Nat) : Moves m (m.step (.commit who)) := by
  simp only [step]
  split
  · rename_i r ready
    obtain ⟨c, process, ready⟩ := Option.bind_eq_some_iff.mp ready
    obtain ⟨⟨free, filing, taken⟩, onward, refused⟩ := OutboxProcess.soundReady (h.processes who c process) ready
    split
    · rename_i db ok
      have after : (m.db.commit r.txn).2 = db := congrArg Prod.snd ok
      exact after ▸ .commits filing taken onward (congrArg Prod.fst ok)
    · rename_i cause db failed
      have same : (m.db.commit r.txn).2 = m.db := Database.commitRefused (congrArg Prod.fst failed)
      obtain rfl : m.db = db := same.symm.trans (congrArg Prod.snd failed)
      exact .goes rfl refused
  · exact .aside rfl

theorem offerMoves (h : m.Sound) (who : Nat) (broker : Bank) : Moves m (m.step (.offer who broker)) := by
  simp only [step]
  split
  · rename_i e later process
    have committed : e :: later ⊆ m.committed := h.processes who _ process
    have rest : later ⊆ m.committed := fun x mem => committed (List.mem_cons_of_mem _ mem)
    split
    · exact .takes (committed List.mem_cons_self) rest
    · refine .goes rfl ?_
      intro _ same
      cases same
      exact rest
  · exact .aside rfl

theorem stepMoves (h : m.Sound) (event : Event) : Moves m (m.step event) := by
  cases event with
  | unit who body staging =>
    refine .goes rfl ?_
    intro _ same
    cases same
    exact QueryUnderway.filesBegin staging _ m.db
  | relay who cutoff =>
    refine .goes rfl ?_
    intro _ same
    cases same
    exact ⟨QueryUnderway.filesBegin (.query (q := .listOutbox) nofun .epoch) _ m.db, .asks rfl⟩
  | clear who =>
    simp only [step]
    split
    · rename_i id later process
      obtain ⟨took, rest⟩ := h.processes who _ process
      refine .goes rfl ?_
      intro _ same
      cases same
      exact ⟨took, rest, QueryUnderway.filesClearing id m.db⟩
    · exact .aside rfl
  | act who drawn =>
    refine .goes rfl fun c found => ?_
    obtain ⟨before, process, rfl⟩ := Option.map_eq_some_iff.mp found
    exact OutboxProcess.soundAct (h.processes who before process) drawn h.rows
  | commit who => exact commitMoves h who
  | offer who broker => exact offerMoves h who broker
  | leave who =>
    refine .goes rfl fun c found => ?_
    obtain ⟨before, process, left⟩ := Option.bind_eq_some_iff.mp found
    exact OutboxProcess.soundLeave (h.processes who before process) left
  | checkpoint => exact .aside (Database.checkpointState m.db)
  | block on => exact .aside (Database.blockState m.db on)

theorem movesCommitted {m' : SharedOutbox} (moves : Moves m m') : m.committed ⊆ m'.committed := by
  cases moves with
  | aside same => exact List.Subset.refl _
  | goes same own => exact List.Subset.refl _
  | takes mem rest => exact List.Subset.refl _
  | commits filing taken onward ok => exact List.subset_append_left _ _

theorem movesAccepted {m' : SharedOutbox} (moves : Moves m m') : m.accepted ⊆ m'.accepted := by
  cases moves with
  | aside same => exact List.Subset.refl _
  | goes same own => exact List.Subset.refl _
  | takes mem rest => exact List.subset_append_left _ _
  | commits filing taken onward ok => exact List.Subset.refl _

theorem movesRow {m' : SharedOutbox} (moves : Moves m m') {r : RowId} (inside : r.table = outbox)
    (there : m.db.state.value? r ≠ none) :
    m'.db.state.value? r ≠ none ∨ ∃ id, Taken m.accepted id ∧ r = outboxRow id := by
  cases moves with
  | aside same => exact .inl (same ▸ there)
  | goes same own => exact .inl (same ▸ there)
  | takes mem rest => exact .inl there
  | commits filing taken onward ok =>
    refine (Transaction.filingStays filing ok inside there).imp id ?_
    intro ⟨id, goes, here⟩
    exact ⟨id, taken id goes, here⟩

theorem soundMoves {m' : SharedOutbox} (h : m.Sound) (moves : Moves m m') : m'.Sound := by
  -- A row goes only by its id, which is that of a task that has been taken.
  have still {e : OutboxEntry} (mem : e ∈ m.committed) :
      m'.db.state.value? (outboxRow e.id) ≠ none ∨ Taken m'.accepted e.id := by
    have took : Taken m.accepted e.id → Taken m'.accepted e.id :=
      fun ⟨t, mem, same⟩ => ⟨t, movesAccepted moves mem, same⟩
    rcases h.kept e mem with there | taken
    · refine (movesRow moves rfl there).imp id ?_
      intro ⟨id, taken, here⟩
      exact took (Query.outboxRowInjective here ▸ taken)
    · exact .inr (took taken)
  cases moves with
  | aside same => exact ⟨h.named, by rw [same]; exact h.rows, fun e => still, h.traced, h.processes⟩
  | goes same own =>
    exact ⟨h.named, by rw [same]; exact h.rows, fun e => still, h.traced, setAtAll h.processes own⟩
  | @takes who e later mem rest =>
    refine ⟨h.named, h.rows, fun e => still, fun t took => ?_, setAtAll (fun other c found => ?_) ?_⟩
    · rcases List.mem_append.mp took with took | took
      · exact h.traced t took
      · cases List.mem_singleton.mp took; exact ⟨e, mem, rfl⟩
    · exact OutboxProcess.soundMono (h.processes other c found) (List.Subset.refl _) (List.subset_append_left _ _)
    · intro _ same
      cases same
      exact ⟨⟨e.task, List.mem_append_right _ (List.mem_singleton_self _), h.named e mem⟩, rest⟩
  | @commits who r free filing taken onward ok =>
    refine ⟨fun e mem => ?_, Transaction.filingHolds filing ok h.rows, fun e mem => ?_, fun t took => ?_,
      setAtAll (fun other c found => ?_) ?_⟩
    · exact (List.mem_append.mp mem).elim (h.named e) (filing.named e)
    · rcases List.mem_append.mp mem with mem | mem
      · exact still mem
      · exact .inl (Transaction.filingAdds filing ok mem)
    · obtain ⟨e, mem, same⟩ := h.traced t took
      exact ⟨e, List.mem_append_left _ mem, same⟩
    · exact OutboxProcess.soundMono (h.processes other c found) (List.subset_append_left _ _) (List.Subset.refl _)
    · intro _ same
      cases same
      exact onward

theorem soundRun (h : m.Sound) (events : List Event) :
    (m.run events).Sound ∧ m.committed ⊆ (m.run events).committed := by
  induction events generalizing m with
  | nil => exact ⟨h, List.Subset.refl _⟩
  | cons event events ih =>
    have moves := stepMoves h event
    obtain ⟨sound, more⟩ := ih (soundMoves h moves)
    exact ⟨sound, List.Subset.trans (movesCommitted moves) more⟩

structure Stocked (entries : List OutboxEntry) (s : State) : Prop where
  named : ∀ e ∈ entries, e.task.id = e.id
  rows : s.Holds entries
  present : ∀ e ∈ entries, s.value? (outboxRow e.id) ≠ none

def start (db : Database) (before : List OutboxEntry) : SharedOutbox := { db, committed := before }

theorem soundStart {db : Database} {before : List OutboxEntry} (h : Stocked before db.state) :
    (start db before).Sound where
  named := h.named
  rows := h.rows
  kept e mem := .inl (h.present e mem)
  traced _ mem := by cases mem
  processes _ _ found := by cases found

structure Safe (m : SharedOutbox) : Prop where
  wanted : ∀ t ∈ m.accepted, ∃ e ∈ m.committed, e.task = t ∧ e.id = t.id
  kept : ∀ e ∈ m.committed, ∀ events,
    (m.run events).db.state.value? (outboxRow e.id) ≠ none ∨ Taken (m.run events).accepted e.id
  cleared : ∀ event r v, r.table = outbox → m.db.state.value? r = some v →
    (m.step event).db.state.value? r = none →
    ∃ e ∈ m.committed, r = outboxRow e.id ∧ v = e.encoded ∧ Taken m.accepted e.id

theorem soundSafe (sound : m.Sound) : m.Safe := by
  refine ⟨fun t took => ?_, fun e mem later => ?_, fun next r v inside there gone => ?_⟩
  · obtain ⟨e, mem, rfl⟩ := sound.traced t took
    exact ⟨e, mem, rfl, (sound.named e mem).symm⟩
  · obtain ⟨sound, more⟩ := soundRun sound later
    exact sound.kept e (more mem)
  · obtain ⟨id, took, here⟩ :=
      (movesRow (stepMoves sound next) inside (by simp [there])).resolve_left (absurd gone)
    obtain ⟨e, mem, same, value⟩ := sound.rows r v inside there
    obtain rfl := Query.outboxRowInjective (here.symm.trans same)
    exact ⟨e, mem, same, value, took⟩

theorem nothingLostOrMadeUp {db : Database} {before : List OutboxEntry} (stocked : Stocked before db.state)
    (events : List Event) : ((start db before).run events).Safe :=
  soundSafe (soundRun (soundStart stocked) events).1

def delivery (task : NewTask) (now : Moment) : List Event :=
  let script : Script Unit := .ask (.insertOutbox task) fun _ => .finish (.ok ())
  have adds : script.Asks fun q => ∀ id, q ≠ .deleteOutbox id := ⟨nofun, fun _ => trivial⟩
  [.unit 0 (script.body now) (Query.stagingScript adds now), .act 0 task.id, .commit 0,
    .offer 0 { plan := {} }, .clear 0, .act 0 task.id]

theorem nothingLostOrMadeUpOnDelivery :
    let task : NewTask := ⟨Uuid.versionFour 0, "mail", [], .standard⟩
    let m := (start .inMemory []).run (delivery task .epoch)
    Stocked [] Database.inMemory.state ∧ m.accepted = [task] ∧
      m.db.state.value? (outboxRow task.id) = some (OutboxEntry.encoded ⟨task.id, task, .epoch⟩) ∧
      (m.step (.commit 0)).db.state.value? (outboxRow task.id) = none ∧ m.Safe := by
  intro task m
  have stocked : Stocked [] Database.inMemory.state := by
    refine ⟨fun _ mem => ?_, fun _ _ _ there => ?_, fun _ mem => ?_⟩
    · cases mem
    · cases there
    · cases mem
  exact ⟨stocked, by decide +kernel, by decide +kernel, by decide +kernel,
    nothingLostOrMadeUp stocked (delivery task .epoch)⟩

end SharedOutbox

end Teller
