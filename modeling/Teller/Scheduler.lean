/-! Takes turns among weighted queues. At every turn each queue earns its weight, and the one with the
most credit is picked and pays the sum of all weights. Over as many turns as that sum, every queue
is picked as often as it weighs. -/
namespace Teller

structure WeightedQueue where
  name : String
  weight : Nat
  credit : Int
  deriving DecidableEq, Repr

structure Scheduler where
  queues : List WeightedQueue
  deriving DecidableEq, Repr

namespace Scheduler

def ofWeights (weights : List (String × UInt32)) : Scheduler :=
  ⟨(weights.filter (·.2 > 0)).map fun (name, weight) => ⟨name, weight.toNat, 0⟩⟩

def total (s : Scheduler) : Nat := s.queues.foldr (fun q sum => q.weight + sum) 0

def earn (q : WeightedQueue) : WeightedQueue := { q with credit := q.credit + q.weight }

def richest : (index : Nat) → (found : Nat) → (best : Int) → List WeightedQueue → Nat
  | _, found, _, [] => found
  | index, found, best, q :: rest =>
      if q.credit > best then richest (index + 1) index q.credit rest
      else richest (index + 1) found best rest

def next (s : Scheduler) : Option String × Scheduler :=
  let earned := s.queues.map earn
  match earned with
  | [] => (none, s)
  | first :: rest =>
      let picked := richest 1 0 first.credit rest
      let pay (q : WeightedQueue) : WeightedQueue := { q with credit := q.credit - s.total }
      ((earned[picked]?).map (·.name), ⟨earned.modify picked pay⟩)

def heavier (a b : WeightedQueue) : Bool := a.weight ≥ b.weight

def pollOrder (s : Scheduler) : List String × Scheduler :=
  match s.next with
  | (none, s) => ([], s)
  | (some first, s) =>
      let others := (s.queues.filter (·.name ≠ first)).mergeSort heavier
      (first :: others.map (·.name), s)

end Scheduler
end Teller
