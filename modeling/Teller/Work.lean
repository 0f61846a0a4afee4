import Teller.Database
import Teller.Uuid

/-! The body of a transaction, as a program of reads, writes and drawings of identifiers. A body may
also name events that happen outside of it while it runs, such as commits of others. `transact` runs
a body from scratch in a fresh transaction until it commits without a conflict or may run no more. -/
namespace Teller

inductive Work (Event Answer ε α : Type) where
  | done (result : Except ε α)
  | get (row : RowId) (next : Option Bytes → Work Event Answer ε α)
  | scan (table : String) (next : List (Bytes × Bytes) → Work Event Answer ε α)
  | put (row : RowId) (value : Bytes) (next : Work Event Answer ε α)
  | delete (row : RowId) (next : Work Event Answer ε α)
  | fresh (next : Uuid → Work Event Answer ε α)
  | outside (event : Event) (next : Answer → Work Event Answer ε α)

namespace Work
variable {Event Answer ε α β : Type}

def bind : Work Event Answer ε α → (α → Work Event Answer ε β) → Work Event Answer ε β
  | done (.ok a), f => f a
  | done (.error e), _ => done (.error e)
  | get row next, f => get row fun v => (next v).bind f
  | scan table next, f => scan table fun rows => (next rows).bind f
  | put row value next, f => put row value (next.bind f)
  | delete row next, f => delete row (next.bind f)
  | fresh next, f => fresh fun id => (next id).bind f
  | outside event next, f => outside event fun answer => (next answer).bind f

instance : Monad (Work Event Answer ε) where
  pure a := done (.ok a)
  bind := bind

instance : MonadExceptOf ε (Work Event Answer ε) where
  throw e := done (.error e)
  tryCatch w handle :=
    let rec go : Work Event Answer ε _ → Work Event Answer ε _
      | done (.ok a) => done (.ok a)
      | done (.error e) => handle e
      | get row next => get row fun v => go (next v)
      | scan table next => scan table fun rows => go (next rows)
      | put row value next => put row value (go next)
      | delete row next => delete row (go next)
      | fresh next => fresh fun id => go (next id)
      | outside event next => outside event fun answer => go (next answer)
    go w

def ofExcept (r : Except ε α) : Work Event Answer ε α := done r
def read (row : RowId) : Work Event Answer ε (Option Bytes) := get row pure
def readTable (table : String) : Work Event Answer ε (List (Bytes × Bytes)) := scan table pure
def write (row : RowId) (value : Bytes) : Work Event Answer ε Unit := put row value (pure ())
def erase (row : RowId) : Work Event Answer ε Unit := delete row (pure ())
def newId : Work Event Answer ε Uuid := fresh pure
def happen (event : Event) : Work Event Answer ε Answer := outside event pure

end Work

structure Host (σ Event Answer : Type) where
  database : σ → Database
  replace : σ → Database → σ
  draw : σ → Uuid × σ
  perform : Event → σ → Answer × σ

namespace Work
variable {σ Event Answer ε α : Type}

def run (host : Host σ Event Answer) :
    Work Event Answer ε α → Transaction → σ → Except ε α × Transaction × σ
  | done result, t, s => (result, t, s)
  | get row next, t, s =>
      let (value, t) := t.get (host.database s).state row
      (next value).run host t s
  | scan table next, t, s =>
      let (rows, t) := t.scan (host.database s).state table
      (next rows).run host t s
  | put row value next, t, s => next.run host (t.put row value) s
  | delete row next, t, s => next.run host (t.delete row) s
  | fresh next, t, s =>
      let (id, s) := host.draw s
      (next id).run host t s
  | outside event next, t, s =>
      let (answer, s) := host.perform event s
      (next answer).run host t s

end Work

structure Transacted (ε α : Type) where
  result : Except ε α
  runs : List (Except ε α)

def transact {σ Event Answer ε α : Type} (host : Host σ Event Answer) (failure : CommitError → ε)
    (body : Nat → Work Event Answer ε α) : (retries before : Nat) → σ → Transacted ε α × σ
  | retries, before, s =>
      let (t, db) := (host.database s).begin
      let (value, t, s) := (body before).run host t (host.replace s db)
      match value with
      | .error e => (⟨.error e, [value]⟩, s)
      | .ok a =>
          let (committed, db) := (host.database s).commit t
          let s := host.replace s db
          match committed, retries with
          | .ok (), _ => (⟨.ok a, [value]⟩, s)
          | .error .conflict, retries + 1 =>
              let (last, s) := transact host failure body retries (before + 1) s
              (⟨last.result, value :: last.runs⟩, s)
          | .error e, _ => (⟨.error (failure e), [value]⟩, s)

end Teller
