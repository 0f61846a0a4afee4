import Teller.Bank.Worker

/-! Work in the course of time. Handlers that sleep wait for their time, and meanwhile their leases are
extended again and again. Time passes only while everyone waits, and then leaps to whatever comes
first. Times here count milliseconds from when the bank was built; they have nothing to do with the
bank's clock. -/
namespace Teller
open Bank

inductive Owner where
  | loop
  | caller
  | nobody
  deriving DecidableEq, Repr

structure Job where
  leased : LeasedTask
  owner : Owner
  wakeAt : Nat
  deeds : List Deed
  beatAt : Nat

inductive LoopState where
  | waiting
  | sleeping (wakeAt : Nat)
  | stopped
  deriving DecidableEq, Repr

structure Workshop where
  bank : Bank
  time : Nat := 0
  jobs : List Job := []
  loop : LoopState := .stopped
  answer : Option (Except (Stop BrokerError) Settled) := none

namespace Workshop

/-- A lease is extended when half of it is over, but not more often than ten times a second. In half
milliseconds. -/
def beat (lease : Span) : Nat := max lease.ms.toNat 200

def places (w : Workshop) : Nat := max w.bank.plan.worker.concurrency 1

def busy (w : Workshop) : Nat := (w.jobs.filter (·.owner = .loop)).length

def awaited (w : Workshop) : Nat := min w.places (UInt32.size - 1)

def turn : Nat := 128

def finish (leased : LeasedTask) (owner : Owner) (result : Except TaskError Unit) (w : Workshop) : Workshop :=
  let (settled, bank) := settle leased result w.bank
  { w with bank, answer := if owner = .caller then some settled else w.answer }

def proceed (leased : LeasedTask) (owner : Owner) (beatAt : Nat) (step : Progress × Bank)
    (w : Workshop) : Workshop × Option Job :=
  let w := { w with bank := step.2 }
  match step.1 with
  | .asleep ms deeds => (w, some ⟨leased, owner, w.time + ms, deeds, beatAt⟩)
  | .ended result => (finish leased owner result w, none)

def begin (leased : LeasedTask) (owner : Owner) (w : Workshop) : Workshop :=
  let beatAt := 2 * w.time + beat w.bank.plan.worker.lease
  let (w, job) := proceed leased owner beatAt (handle leased.record.toTask w.bank) w
  { w with jobs := w.jobs ++ job.toList }

def heartbeat (job : Job) (w : Workshop) : Workshop × Option Job :=
  match w.bank.now.add? w.bank.plan.worker.lease with
  | none =>
      ({ w with answer := if job.owner = .caller then some (.error (.overflow .date)) else w.answer }, none)
  | some deadline =>
      let (extended, bank) := extendLease job.leased.lease deadline w.bank
      let lease := match extended with
        | .ok lease => lease
        | .error _ => job.leased.lease
      ({ w with bank },
        some { job with leased := { job.leased with lease }
                        beatAt := job.beatAt + beat w.bank.plan.worker.lease })

def tick (w : Workshop) (job : Job) : Workshop × Option Job :=
  if job.wakeAt ≤ w.time then
    proceed job.leased job.owner job.beatAt (perform job.deeds w.bank) w
  else if job.beatAt ≤ 2 * w.time then heartbeat job w
  else (w, some job)

def tickAll : List Job → (w : Workshop) → Workshop
  | [], w => w
  | job :: rest, w =>
      let (w, job) := tick w job
      tickAll rest { w with jobs := w.jobs ++ job.toList }

def gather : (places : Nat) → Workshop → List LeasedTask × Workshop
  | 0, w => ([], { w with loop := .waiting })
  | places + 1, w =>
      match leaseNext w.bank with
      | (.ok (some leased), bank) =>
          let (more, w) := gather places { w with bank }
          (leased :: more, w)
      | (.ok none, bank) | (.error (.failed _), bank) =>
          ([], { w with bank, loop := .sleeping (w.time + w.bank.plan.worker.poll) })
      | (.error (.overflow _), bank) => ([], { w with bank, loop := .stopped })

def runLoop : (fuel : Nat) → (turn : Nat) → Workshop → Workshop
  | 0, _, w => w
  | fuel + 1, leases, w =>
      let (leased, w) := gather (min leases (w.places - w.busy)) w
      let w := leased.foldl (fun w l => w.begin l .loop) w
      if w.loop = .waiting ∧ w.busy < w.places then runLoop fuel turn w else w

def nextTime (w : Workshop) : Option Nat :=
  let jobTimes := w.jobs.map fun j => min j.wakeAt ((j.beatAt + 1) / 2)
  let loopTimes := match w.loop with
    | .sleeping wakeAt => [wakeAt]
    | _ => []
  (jobTimes ++ loopTimes).min?

def loopIsDue (w : Workshop) : Bool :=
  match w.loop with
  | .waiting => w.busy < w.places
  | .sleeping wakeAt => wakeAt ≤ w.time
  | .stopped => false

def endless : Nat := 10000000

def leap (time : Nat) (w : Workshop) : Workshop :=
  let w := tickAll w.jobs { w with time, jobs := [] }
  if w.loopIsDue then runLoop endless (if w.loop = .waiting then turn else turn - 1) w else w

def passUntil (done : Workshop → Bool) (limit : Option Nat) : (fuel : Nat) → Workshop → Workshop
  | 0, w => w
  | fuel + 1, w =>
      if done w then w
      else match w.nextTime, limit with
        | some time, none => passUntil done limit fuel (w.leap time)
        | some time, some last =>
            if time ≤ last then passUntil done limit fuel (w.leap time) else { w with time := last }
        | none, some last => { w with time := last }
        | none, none => w

def sleep (ms : Nat) (w : Workshop) : Workshop :=
  passUntil (fun _ => false) (some (w.time + ms)) endless w

def execute (leased : LeasedTask) (w : Workshop) : Except (Stop BrokerError) Settled × Workshop :=
  let w := passUntil (·.answer.isSome) none endless ({ w with answer := none }.begin leased .caller)
  (w.answer.getD (.error (.failed .leaseLost)), { w with answer := none })

def processNext (w : Workshop) : Except (Stop BrokerError) (Option Settled) × Workshop :=
  match leaseNext w.bank with
  | (.error e, bank) => (.error e, { w with bank })
  | (.ok none, bank) => (.ok none, { w with bank })
  | (.ok (some leased), bank) =>
      let (settled, w) := execute leased { w with bank }
      (settled.map some, w)

def processUpTo : Nat → Workshop → List (Except (Stop BrokerError) (Option Settled)) × Workshop
  | 0, w => ([], w)
  | n + 1, w =>
      match w.processNext with
      | (.ok (some settled), w) =>
          let (more, w) := processUpTo n w
          (.ok (some settled) :: more, w)
      | (last, w) => ([last], w)

def disown (w : Workshop) : Workshop :=
  { w with loop := .stopped, jobs := w.jobs.map fun j =>
      if j.owner = .loop then { j with owner := .nobody } else j }

def runFor (ms : Nat) (w : Workshop) : Nat × Workshop :=
  let started :=
    if w.places ≤ mostPlaces then runLoop endless turn { w with loop := .waiting }
    else { w with loop := .stopped }
  let w := passUntil (fun _ => false) (some (w.time + ms)) endless started
  if w.loop = .stopped then (0, w.disown)
  else
    let asked := w.time
    let w := passUntil (fun w => w.busy + w.awaited ≤ w.places) (some (asked + w.bank.plan.worker.patience)) endless
      { w with loop := .stopped }
    (w.time - asked, w.disown)

def relayTicks (interval ms : Nat) : List Nat :=
  let interval := max interval 10
  (List.range ((ms + interval - 1) / interval)).map (· * interval)

def relayAt (grace : Span) (start : Nat) : List Nat → Workshop → Workshop
  | [], w => w
  | tick :: rest, w =>
      let w := w.sleep (start + tick - w.time)
      match relay grace w.bank with
      | (.error (.overflow _), bank) => { w with bank }
      | (_, bank) => relayAt grace start rest { w with bank }

def runRelay (grace : Span) (interval ms : Nat) (w : Workshop) : Workshop :=
  let start := w.time
  let w := relayAt grace start (relayTicks interval ms) w
  w.sleep (start + ms - w.time)

def reopen (w : Workshop) (accounts queues : Database) : Workshop :=
  { w with
    jobs := [], loop := .stopped, answer := none
    bank := { w.bank with
      accounts, queues, running := 0, outage := []
      scheduler := .ofWeights w.bank.plan.worker.queues } }

end Workshop
end Teller
