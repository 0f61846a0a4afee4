import Teller.Bank.Registration

/-! What a worker does with tasks: it leases the next one, has it handled, and settles it with the broker
by how the handler ended. -/
namespace Teller

inductive Settled where
  | acknowledged
  | retried (retried : UInt32) (runAt : Moment)
  | archived (reason : String)
  deriving DecidableEq

inductive Verdict where
  | acknowledge
  | archive (reason : String)
  | retry (reason : String)
  deriving DecidableEq

def LeasedTask.verdict (leased : LeasedTask) : Except TaskError Unit → Verdict
  | .ok () => .acknowledge
  | .error (.skip reason) => .archive reason
  | .error (.retry reason) => if leased.record.isExhausted then .archive reason else .retry reason

namespace Bank

def leaseFrom (now : Moment) : List String → Bank → Outcome BrokerError (Option LeasedTask)
  | [], b => (.ok none, b)
  | queue :: rest, b =>
      match lease queue now b.plan.worker.lease b with
      | (.ok none, b) => leaseFrom now rest b
      | found => found

def leaseNext (b : Bank) : Outcome BrokerError (Option LeasedTask) :=
  let (order, scheduler) := b.scheduler.pollOrder
  leaseFrom b.now order { b with scheduler }

def reschedule (leased : LeasedTask) (reason : String) (b : Bank) : Outcome BrokerError Settled :=
  let retried := leased.record.retried
  let (draw, b) := b.drawNumber
  let runAt := (b.now.add? (b.plan.worker.backoff.delay retried draw)).getD .latest
  let (done, b) := retry leased.lease runAt reason b
  (done.map fun () => .retried (retried + 1) runAt, b)

def giveUp (leased : LeasedTask) (reason : String) (b : Bank) : Outcome BrokerError Settled :=
  let (done, b) := archive leased.lease b.now reason b
  (done.map fun () => .archived reason, b)

def settle (leased : LeasedTask) (ended : Except TaskError Unit) (b : Bank) :
    Outcome BrokerError Settled :=
  match leased.verdict ended with
  | .acknowledge =>
      let (done, b) := acknowledge leased.lease b
      (done.map fun () => .acknowledged, b)
  | .archive reason => giveUp leased reason b
  | .retry reason => reschedule leased reason b

def verifyEmail (task : Task) (b : Bank) : Except TaskError Unit × Bank :=
  match Json.decode VerifyEmail.codec task.payload with
  | .error e => (.error (.skip ("failed to unmarshal payload: " ++ e.message)), b)
  | .ok mail =>
      match getUser mail.username b with
      | (.ok _, b) => (.ok (), b)
      | (.error (.failed .notFound), b) => (.error (.skip "user not found"), b)
      | (.error (.failed e), b) => (.error (.retry ("failed to get user: " ++ e.message)), b)
      | (.error (.overflow _), b) => (.error (.retry "handler panicked"), b)

inductive Progress where
  | asleep (ms : Nat) (rest : List Deed)
  | ended (result : Except TaskError Unit)

def perform : List Deed → Bank → Progress × Bank
  | [], b => (.ended (.ok ()), b)
  | .sleep 0 :: rest, b => perform rest b
  | .sleep ms :: rest, b => (.asleep ms rest, b)
  | .advance ms :: rest, b => perform rest { b with clock := b.clock.advance ms }
  | .fail error :: _, b => (.ended (.error error), b)
  | .crash :: _, b => (.ended (.error (.retry "handler panicked")), b)

def call (calls : List (List Deed)) (before : Nat) : List Deed :=
  (calls[before]?).getD (calls.getLast?.getD [])

def handle (task : Task) (b : Bank) : Progress × Bank :=
  match b.plan.handlers.lookup task.type with
  | none => (.ended (.error (.retry ("handler not found for task type " ++ task.type))), b)
  | some .verifyEmail =>
      let (result, b) := verifyEmail task b
      (.ended result, b)
  | some (.script calls) =>
      let before := (b.deliveries.filter (·.type = task.type)).length
      perform (call calls before) { b with deliveries := task :: b.deliveries }

end Bank
end Teller
