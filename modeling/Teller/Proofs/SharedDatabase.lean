import Teller.Proofs.Commit

/-! Any number of open transactions on one database, with their operations, commits and rollbacks in
any order. Each transaction is kept with what it has done so far and what it was told. -/
namespace Teller
open Journal (Write Record)
universe u

namespace Transaction

inductive Op where
  | get (row : RowId)
  | scan (table : String)
  | put (row : RowId) (value : Bytes)
  | delete (row : RowId)
  deriving DecidableEq

inductive Reply where
  | value (held : Option Bytes)
  | rows (found : List (Bytes × Bytes))
  | done
  deriving DecidableEq

def perform (t : Transaction) (s : State) : Op → Reply × Transaction
  | .get row => let (held, t) := t.get s row; (.value held, t)
  | .scan table => let (found, t) := t.scan s table; (.rows found, t)
  | .put row value => (.done, t.put row value)
  | .delete row => (.done, t.delete row)

abbrev Buffer := SortedMap RowId (Option Bytes)

def reply (own : Buffer) (s : State) : Op → Reply
  | .get row => .value ((own.get? row).getD (s.value? row))
  | .scan table => .rows (own.entries.foldl (overlay table) (s.table table)).entries
  | .put _ _ | .delete _ => .done

def buffered (own : Buffer) : Op → Buffer
  | .get _ | .scan _ => own
  | .put row value => own.insert row (some value)
  | .delete row => own.insert row none

theorem performReply (t : Transaction) (s : State) (op : Op) :
    (t.perform s op).1 = reply t.writes s op := by
  cases op with
  | get row => simp only [perform, Transaction.get, reply]; split <;> simp [*]
  | scan table => rfl
  | put row value => rfl
  | delete row => rfl

theorem performWrites (t : Transaction) (s : State) (op : Op) :
    (t.perform s op).2.writes = buffered t.writes op := by
  cases op with
  | get row => simp only [perform, Transaction.get, buffered]; split <;> rfl
  | scan table => rfl
  | put row value => rfl
  | delete row => rfl

theorem performReads (t : Transaction) (s : State) (op : Op) (r : RowId) :
    (t.perform s op).2.reads.get? r =
      if op = .get r ∧ t.writes.get? r = none then some ((t.reads.get? r).getD (s.rowVersion r))
      else t.reads.get? r := by
  cases op with
  | get row =>
    by_cases same : row = r
    · subst same
      simp only [perform, Transaction.get, true_and]
      split
      · simp [*]
      · simp [*, SortedMap.getInsertNew]
    · have apart : ¬ r = row := fun h => same h.symm
      simp only [perform, Transaction.get, Op.get.injEq, same, false_and, if_false]
      split
      · rfl
      · simp [SortedMap.getInsertNew, apart]
  | scan table => simp [perform, Transaction.scan]
  | put row value => simp [perform, Transaction.put]
  | delete row => simp [perform, Transaction.delete]

theorem performScans (t : Transaction) (s : State) (op : Op) (table : String) :
    (t.perform s op).2.scans.get? table =
      if op = .scan table then some ((t.scans.get? table).getD (s.tableVersion table))
      else t.scans.get? table := by
  cases op with
  | get row => simp only [perform, Transaction.get]; split <;> simp
  | scan name =>
    by_cases same : table = name
    · subst same; simp [perform, Transaction.scan, SortedMap.getInsertNew]
    · have apart : ¬ name = table := fun h => same h.symm
      simp [perform, Transaction.scan, SortedMap.getInsertNew, same, apart]
  | put row value => simp [perform, Transaction.put]
  | delete row => simp [perform, Transaction.delete]

theorem freshIff {t : Transaction} {s : State} :
    t.isStale s = false ↔
      (∀ r seen, t.reads.get? r = some seen → s.rowVersion r = seen) ∧
      ∀ table seen, t.scans.get? table = some seen → s.tableVersion table = seen := by
  simp [isStale, ← SortedMap.memEntries]

structure Act where
  op : Op
  own : Buffer
  reply : Reply
  deriving DecidableEq

namespace Act

def redo (s : State) (a : Act) : Act := { a with reply := Transaction.reply a.own s a.op }

def Reads (a : Act) (r : RowId) : Prop := a.op = .get r ∧ a.own.get? r = none

def Misses (a : Act) (r : RowId) : Prop := a.Reads r ∧ a.reply = .value none

def Finds (a : Act) (r : RowId) : Prop := a.Reads r ∧ ∃ v, a.reply = .value (some v)

end Act

def Steady (acts : List Act) : Prop := acts.Pairwise fun a b => ∀ r, a.Misses r → ¬ b.Finds r

structure Underway where
  txn : Transaction
  acts : List Act := []
  deriving DecidableEq

def Underway.act (s : State) (v : Underway) (op : Op) : Underway :=
  let (told, txn) := v.txn.perform s op
  ⟨txn, v.acts ++ [⟨op, v.txn.writes, told⟩]⟩

def Underway.alone (db : Database) (ops : List Op) : Underway × Database :=
  let (t, db) := db.begin
  (ops.foldl (Underway.act db.state) ⟨t, []⟩, db)

end Transaction

def setAt {α : Type u} (parties : Nat → Option α) (who : Nat) (party : Option α) : Nat → Option α :=
  fun other => if other = who then party else parties other

@[simp] theorem setAtSelf {α : Type u} (parties : Nat → Option α) (who : Nat) (party : Option α) :
    setAt parties who party who = party := if_pos rfl

theorem setAtOther {α : Type u} {other who : Nat} (apart : other ≠ who) (parties : Nat → Option α)
    (party : Option α) : setAt parties who party other = parties other := if_neg apart

@[simp] theorem setAtTwice {α : Type u} (parties : Nat → Option α) (who : Nat) (party next : Option α) :
    setAt (setAt parties who party) who next = setAt parties who next := by
  funext other
  by_cases same : other = who
  · subst same; simp
  · simp only [setAtOther same]

theorem setAtEach {α : Type u} {fit : Nat → α → Prop} {parties : Nat → Option α} {who : Nat} {party : Option α}
    (others : ∀ other x, other ≠ who → parties other = some x → fit other x) (own : ∀ x, party = some x → fit who x) :
    ∀ other x, setAt parties who party other = some x → fit other x := by
  intro other x found
  by_cases here : other = who
  · subst here
    rw [setAtSelf] at found
    exact own x found
  · rw [setAtOther here] at found
    exact others other x here found

theorem setAtAll {α : Type u} {fit : α → Prop} {parties : Nat → Option α} {who : Nat} {party : Option α}
    (others : ∀ other x, parties other = some x → fit x) (own : ∀ x, party = some x → fit x) :
    ∀ other x, setAt parties who party other = some x → fit x :=
  setAtEach (fun other x _ => others other x) own

theorem setAtNone {α : Type u} {fit : α → Prop} {parties : Nat → Option α}
    (others : ∀ other x, parties other = some x → fit x) {who : Nat} :
    ∀ other x, setAt parties who none other = some x → fit x :=
  setAtAll others fun _ found => by cases found

open Transaction (Op Underway)

structure SharedDatabase where
  db : Database
  underway : Nat → Option Underway

namespace SharedDatabase

inductive Event where
  | begin (who : Nat)
  | act (who : Nat) (op : Op)
  | commit (who : Nat)
  | leave (who : Nat)
  | checkpoint
  | block (on : Bool)

def start (db : Database) : SharedDatabase := ⟨db, fun _ => none⟩

def step (d : SharedDatabase) : Event → SharedDatabase
  | .begin who =>
      let (t, db) := d.db.begin
      ⟨db, setAt d.underway who (some ⟨t, []⟩)⟩
  | .act who op => match d.underway who with
    | some v => { d with underway := setAt d.underway who (some (v.act d.db.state op)) }
    | none => d
  | .commit who => match d.underway who with
    | some v => ⟨(d.db.commit v.txn).2, setAt d.underway who none⟩
    | none => d
  | .leave who => { d with underway := setAt d.underway who none }
  | .checkpoint => { d with db := d.db.checkpoint.2 }
  | .block on => { d with db := d.db.block on }

def run (d : SharedDatabase) (events : List Event) : SharedDatabase := events.foldl step d

end SharedDatabase
end Teller
