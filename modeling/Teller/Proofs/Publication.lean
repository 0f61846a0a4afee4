import Teller.Proofs.TableViews

/-! What a transaction sees is what it publishes. Its gets and scans show the committed rows with what it last left
in each of its own rows laid over them, and when it commits, that is what the next transaction finds. -/
namespace Teller

theorem Bytes.compareLt {a b : Bytes} : compare a b = .lt ↔ a.data.toList < b.data.toList := by
  rw [compare_eq]
  generalize a.data.toList = l, b.data.toList = l'
  induction l generalizing l' with
  | nil => cases l' <;> simp
  | cons x l ih =>
    cases l' with
    | nil => simp
    | cons y l' =>
      have less : compare x y = .lt ↔ x < y := compareOfLessAndEq_eq_lt
      rw [List.compare_cons_cons, Ordering.then_eq_lt, ih, List.cons_lt_cons_iff, less,
        Std.LawfulEqCmp.compare_eq_iff_eq]

namespace Transaction
variable {t t' : Transaction} {s s' : State} {rows : Rows}

def Op.left? (row : RowId) : Op → Option (Option Bytes)
  | .get _ | .scan _ => none
  | .put r value => if r = row then some (some value) else none
  | .delete r => if r = row then some none else none

def lastLeft (ops : List Op) (row : RowId) : Option (Option Bytes) := ops.reverse.findSome? (Op.left? row)

structure Sees (t : Transaction) (s : State) (rows : Rows) : Prop where
  get : ∀ row, (t.get s row).1 = rows row
  scan : ∀ table key value, (t.get s ⟨table, key⟩).1 = some value ↔ (key, value) ∈ (t.scan s table).1
  ascending : ∀ table, (t.scan s table).1.Pairwise fun a b => a.1.data.toList < b.1.data.toList

structure SeesAlike (t : Transaction) (s : State) (t' : Transaction) (s' : State) : Prop where
  get : ∀ row, (t'.get s' row).1 = (t.get s row).1
  scan : ∀ table, (t'.scan s' table).1 = (t.scan s table).1

theorem getAmended (t : Transaction) (s : State) (row : RowId) : (t.get s row).1 = s.amended t.writes row := by
  unfold Transaction.get State.amended
  split
  · rename_i held
    rw [held, Option.getD_some]
  · rename_i unwritten
    rw [unwritten, Option.getD_none]

theorem seesAmended (t : Transaction) (s : State) : t.Sees s (s.amended t.writes) where
  get := getAmended t s
  scan table key value := by rw [getAmended, ← State.memScan]; rfl
  ascending table := (SortedMap.ascending _).imp Bytes.compareLt.mp

theorem seesAlike (same : s'.amended t'.writes = s.amended t.writes) : t.SeesAlike s t' s' where
  get row := by rw [getAmended, getAmended, same]
  scan table := congrArg SortedMap.entries <| SortedMap.sameLookups fun key => by
    rw [overlayGet _ _ t'.writes.ascending, overlayGet _ _ t.writes.ascending, State.getTable, State.getTable]
    exact congrFun same ⟨table, key⟩

theorem bufferedGet (own : Buffer) (op : Op) (row : RowId) :
    (buffered own op).get? row = (op.left? row).or (own.get? row) := by
  cases op with
  | get _ | scan _ => rfl
  | put r _ | delete r =>
    rw [buffered, SortedMap.getInsert, Op.left?]
    by_cases here : r = row
    · rw [if_pos here, if_pos here.symm, Option.some_or]
    · rw [if_neg here, if_neg (Ne.symm here), Option.none_or]

theorem bufferedLast (ops : List Op) (own : Buffer) (row : RowId) :
    (ops.foldl buffered own).get? row = (lastLeft ops row).or (own.get? row) := by
  induction ops generalizing own with
  | nil => rfl
  | cons op ops ih =>
    have last : lastLeft (op :: ops) row = (lastLeft ops row).or (op.left? row) := by
      simp only [lastLeft, List.reverse_cons, List.findSome?_append, List.findSome?_singleton]
    rw [List.foldl_cons, ih, bufferedGet, last, Option.or_assoc]

theorem amendedLast (s : State) (ops : List Op) (row : RowId) :
    s.amended (ops.foldl buffered ∅) row = (lastLeft ops row).getD (s.value? row) := by
  rw [State.amended, bufferedLast, SortedMap.getEmpty, Option.or_none]

theorem sameBuffer {ops others : List Op} :
    others.foldl buffered ∅ = ops.foldl buffered ∅ ↔ lastLeft others = lastLeft ops := by
  have last (ops : List Op) (row : RowId) : (ops.foldl buffered ∅).get? row = lastLeft ops row := by
    rw [bufferedLast, SortedMap.getEmpty, Option.or_none]
  constructor
  · intro same
    funext row
    rw [← last, ← last, same]
  · intro same
    exact SortedMap.sameLookups fun row => by rw [last, last, same]

def Underway.Buffers (v : Underway) : Prop := v.txn.writes = (v.acts.map (·.op)).foldl buffered ∅

theorem buffersAct {v : Underway} (own : v.Buffers) (s : State) (op : Op) : (v.act s op).Buffers := by
  have writes : (v.act s op).txn.writes = buffered v.txn.writes op := performWrites v.txn s op
  rw [Underway.Buffers, writes, own, actsOf, List.map_append, List.foldl_append]
  rfl

theorem aloneWrites (s : State) (ops : List Op) (v : Underway) :
    (ops.foldl (Underway.act s) v).txn.writes = ops.foldl buffered v.txn.writes := by
  induction ops generalizing v with
  | nil => rfl
  | cons op ops ih =>
    have writes : (v.act s op).txn.writes = buffered v.txn.writes op := performWrites v.txn s op
    rw [List.foldl_cons, ih, writes, List.foldl_cons]

end Transaction

theorem Database.publishes {db : Database} {t : Transaction} (ok : (db.commit t).1 = .ok ()) :
    (db.commit t).2.state.amended (db.commit t).2.begin.1.writes = db.state.amended t.writes := by
  funext row
  exact valueAfterCommit ok row

namespace SharedDatabase
open Transaction
variable {d : SharedDatabase}

theorem buffersStep (own : ∀ who v, d.underway who = some v → v.Buffers) (e : Event) :
    ∀ who v, (d.step e).underway who = some v → v.Buffers := by
  cases e with
  | begin who =>
    refine setAtAll own fun v new => ?_
    cases new
    rfl
  | act who op =>
    simp only [step]
    split
    · rename_i v found
      refine setAtAll own fun v' new => ?_
      cases new
      exact buffersAct (own who v found) d.db.state op
    · exact own
  | commit who =>
    simp only [step]
    split
    · exact setAtNone own
    · exact own
  | leave who => exact setAtNone own
  | checkpoint | block _ => exact own

theorem buffersRun (own : ∀ who v, d.underway who = some v → v.Buffers) (events : List Event) :
    ∀ who v, (d.run events).underway who = some v → v.Buffers := by
  induction events generalizing d with
  | nil => exact own
  | cons e events ih => exact ih (buffersStep own e)

theorem stateUncommitted {events : List Event} (uncommitted : ∀ e ∈ events, ∀ who, e ≠ .commit who) :
    (d.run events).db.state = d.db.state := by
  induction events generalizing d with
  | nil => rfl
  | cons e events ih =>
    obtain ⟨first, others⟩ := List.forall_mem_cons.mp uncommitted
    have kept : (d.step e).db.state = d.db.state := by
      cases e with
      | commit who => exact absurd rfl (first who)
      | act who op => simp only [step]; split <;> rfl
      | begin who | leave who => rfl
      | checkpoint => exact Database.checkpointState d.db
      | block on => exact Database.blockState d.db on
    exact (ih others).trans kept

/-- Whatever has happened, an open transaction sees the committed rows under its own last writes. If it commits and no
other has committed since, the next to begin sees the same; and so it is with any other operations that write the same
last in each row. -/
theorem viewPublished (db : Database) (events : List Event) {who : Nat} {v : Underway}
    (active : ((start db).run events).underway who = some v) :
    let d := (start db).run events
    let ops := v.acts.map (·.op)
    v.txn.Sees d.db.state (fun row => (lastLeft ops row).getD (d.db.state.value? row)) ∧
      ∀ later, (∀ e ∈ later, ∀ other, e ≠ .commit other) →
        let now := (d.run later).db
        (now.commit v.txn).1 = .ok () →
        let after := (now.commit v.txn).2
        v.txn.SeesAlike d.db.state after.begin.1 after.state ∧
          ∀ others, lastLeft others = lastLeft ops →
            let again := Underway.alone now others
            v.txn.SeesAlike d.db.state again.1.txn now.state ∧ (again.2.commit again.1.txn).1 = .ok () ∧
              (again.2.commit again.1.txn).2.state = after.state := by
  intro d ops
  have own : v.txn.writes = ops.foldl buffered ∅ := buffersRun (fun _ _ found => by cases found) events who v active
  constructor
  · have sees := seesAmended v.txn d.db.state
    rwa [own, funext (amendedLast d.db.state ops)] at sees
  · intro later uncommitted now ok after
    have kept : now.state = d.db.state := stateUncommitted uncommitted
    refine ⟨seesAlike ((Database.publishes ok).trans (by rw [kept])), ?_⟩
    intro others same again
    have writes : again.1.txn.writes = v.txn.writes :=
      (aloneWrites now.state others _).trans ((sameBuffer.mpr same).trans own.symm)
    have fresh : again.1.txn.isStale now.state = false :=
      freshAlone now.state others (freshIff.mpr ⟨nofun, nofun⟩)
    exact ⟨seesAlike (by rw [writes, kept]), Database.commitAgain ok rfl rfl writes fresh⟩

def fill : List Event :=
  [.begin 0, .act 0 (.put ⟨"t", Bytes.ofText "a"⟩ (Bytes.ofText "u")),
    .act 0 (.put ⟨"t", Bytes.ofText "b"⟩ (Bytes.ofText "v")), .commit 0]

def rewriting : List Op :=
  [.delete ⟨"t", Bytes.ofText "b"⟩, .put ⟨"s", Bytes.ofText "a"⟩ (Bytes.ofText "w"), .scan "t",
    .put ⟨"t", Bytes.ofText "b"⟩ (Bytes.ofText "x"), .delete ⟨"t", Bytes.ofText "z"⟩, .delete ⟨"t", Bytes.ofText "a"⟩,
    .put ⟨"t", Bytes.ofText "c"⟩ (Bytes.ofText "y"), .put ⟨"t", Bytes.ofText "b"⟩ (Bytes.ofText "z")]

def rewritten : List Op :=
  [.put ⟨"t", Bytes.ofText "c"⟩ (Bytes.ofText "y"), .put ⟨"t", Bytes.ofText "b"⟩ (Bytes.ofText "z"),
    .delete ⟨"t", Bytes.ofText "a"⟩, .put ⟨"s", Bytes.ofText "a"⟩ (Bytes.ofText "w"), .delete ⟨"t", Bytes.ofText "z"⟩]

def rewrite : List Event := fill ++ .begin 1 :: rewriting.map (.act 1)

theorem viewPublishedOnRewriting :
    let d := (start .inMemory).run rewrite
    let now := (d.run [.begin 2, .act 2 (.scan "t"), .checkpoint, .leave 2]).db
    ∃ v, d.underway 1 = some v ∧ v.acts.map (·.op) = rewriting ∧
      v.txn.Sees d.db.state (fun row => (lastLeft rewriting row).getD (d.db.state.value? row)) ∧
      (v.txn.scan d.db.state "t").1 = [(Bytes.ofText "b", Bytes.ofText "z"), (Bytes.ofText "c", Bytes.ofText "y")] ∧
      (now.commit v.txn).1 = .ok () ∧
      let after := (now.commit v.txn).2
      v.txn.SeesAlike d.db.state after.begin.1 after.state ∧ lastLeft rewritten = lastLeft rewriting ∧
        let again := Underway.alone now rewritten
        v.txn.SeesAlike d.db.state again.1.txn now.state ∧ (again.2.commit again.1.txn).1 = .ok () ∧
          (again.2.commit again.1.txn).2.state = after.state := by
  intro d now
  obtain ⟨v, active, ops, scanned, ok⟩ : ∃ v, d.underway 1 = some v ∧ v.acts.map (·.op) = rewriting ∧
      (v.txn.scan d.db.state "t").1 = [(Bytes.ofText "b", Bytes.ofText "z"), (Bytes.ofText "c", Bytes.ofText "y")] ∧
      (now.commit v.txn).1 = .ok () :=
    ⟨_, rfl, by decide +kernel, by decide +kernel, by decide +kernel⟩
  have published := viewPublished .inMemory rewrite active
  rw [ops] at published
  obtain ⟨fresh, others⟩ := published.2 [.begin 2, .act 2 (.scan "t"), .checkpoint, .leave 2] (by simp) ok
  have same : lastLeft rewritten = lastLeft rewriting := sameBuffer.mp (by decide +kernel)
  exact ⟨v, active, ops, published.1, scanned, ok, fresh, same, others rewritten same⟩

end SharedDatabase
end Teller
