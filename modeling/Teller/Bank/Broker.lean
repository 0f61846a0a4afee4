import Teller.Bank

/-! The broker's requests, and handing in new tasks. -/
namespace Teller.Bank

abbrev Outcome (ε α : Type) := Except (Stop ε) α × Bank

def refused : BrokerError := .unavailable "connection refused"

def brokerRun {α : Type} (body : Broker.Body Empty Empty α) (b : Bank) : Outcome BrokerError α :=
  let (done, b) := transact queuesHost (fun e => .failed (.ofCommit e)) (fun _ => body) Broker.retries 0 b
  (done.result, b)

def ask {α : Type} (request : BrokerRequest) (body : Broker.Body Empty Empty α) (b : Bank) :
    Outcome BrokerError α :=
  if b.outage.contains request then (.error (.failed refused), b) else brokerRun body b

def enqueueRecord (r : TaskRecord) : Bank → Outcome BrokerError Unit :=
  ask .enqueue (Broker.enqueue r)

def lease (queue : String) (now : Moment) (duration : Span) (b : Bank) :
    Outcome BrokerError (Option LeasedTask) :=
  ask .lease (Broker.lease b.plan.archive queue now duration) { b with polls := b.polls + 1 }

def extendLease (lease : Lease) (deadline : Moment) : Bank → Outcome BrokerError Lease :=
  ask .extend (Broker.extend lease deadline)

def acknowledge (lease : Lease) : Bank → Outcome BrokerError Unit :=
  ask .acknowledge (Broker.acknowledge lease)

def retry (lease : Lease) (runAt : Moment) (error : String) : Bank → Outcome BrokerError Unit :=
  ask .retry (Broker.retry lease runAt error)

def archive (lease : Lease) (now : Moment) (error : String) (b : Bank) : Outcome BrokerError Unit :=
  ask .archive (Broker.archive b.plan.archive lease now error) b

def getTask (queue : String) (id : Uuid) : Bank → Outcome BrokerError (Option TaskRecord) :=
  ask .get (Broker.get queue id)

def archived (queue : String) : Bank → Outcome BrokerError (List TaskRecord) :=
  brokerRun (Broker.archived queue)

def enqueueTask (task : NewTask) (b : Bank) : Outcome EnqueueError TaskInfo :=
  match TaskRecord.pending task b.now with
  | .error cause => (.error (.overflow cause), b)
  | .ok record =>
      let (result, b) := enqueueRecord record b
      (match result with
        | .ok () => .ok record.info
        | .error e => .error (e.map .broker), b)

abbrev Payload := Except Json.Error (List UInt8)

def newTask (type : String) (payload : Payload) (options : TaskOptions) (b : Bank) :
    Except EnqueueError NewTask × Bank :=
  let (id, b) := b.drawId
  (match payload with
    | .ok payload => .ok ⟨id, type, payload, options⟩
    | .error reason => .error (.serialization reason.message), b)

def enqueue (type : String) (payload : Payload) (options : TaskOptions) (b : Bank) :
    Outcome EnqueueError TaskInfo :=
  match newTask type payload options b with
  | (.ok task, b) => enqueueTask task b
  | (.error e, b) => (.error (.failed e), b)

end Teller.Bank
