import Teller.Backoff
import Teller.Query
import Teller.Scheduler
import Teller.Settings
import Teller.Supply

/-! A whole bank: the database of its accounts, the database of its task queues, a clock, and what is
known of running work. Units of work run on the accounts; the broker runs on the queues. -/
namespace Teller

inductive BrokerRequest where
  | enqueue
  | lease
  | extend
  | acknowledge
  | retry
  | archive
  | get
  deriving DecidableEq, Repr

def mostPlaces : Nat := 0x1FFFFFFFFFFFFFFF

structure StoreLimits where
  slots : Nat
  retries : Nat
  deriving DecidableEq, Repr

def StoreLimits.standard : StoreLimits := ⟨10, 3⟩

def StoreLimits.timeout : Duration := .ofSeconds 5

def StoreLimits.room (l : StoreLimits) : Nat := max l.slots 1

inductive Deed where
  | sleep (ms : Nat)
  | advance (ms : Int64)
  | fail (error : TaskError)
  | crash
  deriving DecidableEq, Repr

inductive Handler where
  | verifyEmail
  | script (calls : List (List Deed))
  deriving DecidableEq, Repr

/-- How tasks are worked on. Lengths of time are in milliseconds. -/
structure WorkerPlan where
  queues : List (String × UInt32)
  concurrency : Nat
  lease : Span
  poll : Nat
  patience : Nat
  backoff : Backoff
  deriving DecidableEq

structure SessionPlan where
  access : Span
  refresh : Span
  deriving DecidableEq

def SessionPlan.standard : SessionPlan := ⟨⟨15 * 60 * 1000, by decide⟩, ⟨24 * 3600 * 1000, by decide⟩⟩

def WorkerPlan.standard : WorkerPlan :=
  { queues := [(TaskOptions.critical, 10), (TaskOptions.defaultQueue, 5)], concurrency := 10
    lease := ⟨30000, by decide⟩, poll := 1000, patience := 8000, backoff := .standard }

structure Plan where
  store : StoreLimits := .standard
  dispatches : Bool := true
  sessions : SessionPlan := .standard
  archive : ArchiveLimits := .standard
  worker : WorkerPlan := .standard
  handlers : List (String × Handler) := []

structure Bank where
  plan : Plan
  accounts : Database := .inMemory
  queues : Database := .inMemory
  clock : Clock := .start
  supply : Supply := .counting
  running : Nat := 0
  outage : List BrokerRequest := []
  scheduler : Scheduler := .ofWeights plan.worker.queues
  polls : Nat := 0
  deliveries : List Task := []

namespace Bank

def now (b : Bank) : Moment := b.clock.now

def drawId (b : Bank) : Uuid × Bank :=
  let (id, supply) := b.supply.id
  (id, { b with supply })

def drawNonce (b : Bank) : Nonce × Bank :=
  let (nonce, supply) := b.supply.nonce
  (nonce, { b with supply })

def drawNumber (b : Bank) : Nat × Bank :=
  let (n, supply) := b.supply.number
  (n, { b with supply })

def accountsHost {Event Answer : Type} (perform : Event → Bank → Answer × Bank) :
    Host Bank Event Answer where
  database := accounts
  replace b accounts := { b with accounts }
  draw := drawId
  perform := perform

def queuesHost : Host Bank Empty Empty where
  database := queues
  replace b queues := { b with queues }
  draw := drawId
  perform := nofun

end Bank
end Teller
