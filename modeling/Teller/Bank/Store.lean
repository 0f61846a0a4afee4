import Teller.Bank.Broker

/-! Units of work on the accounts. What a unit stages is handed to the broker once the unit has
committed; what the broker does not take stays in the outbox, for the relay to try again. -/
namespace Teller.Bank
variable {Event Answer α : Type}

abbrev Unitwork (α : Type) := Transacted (Stop StoreError) α

def runStaged (perform : Event → Bank → Answer × Bank) (body : Nat → Query Event Answer α) (b : Bank) :
    Unitwork (α × List OutboxEntry) × Bank :=
  if b.running < b.plan.store.room then
    let (done, after) := transact (accountsHost perform) (fun e => .failed (.ofCommit e))
      (fun before => (body before).run []) b.plan.store.retries 0 { b with running := b.running + 1 }
    (done, { after with running := b.running })
  else (⟨.error (.failed .crowded), []⟩, b)

def runQuery (query : Query Empty Empty α) (b : Bank) : Unitwork (α × List OutboxEntry) × Bank :=
  runStaged nofun (fun _ => query) b

def clearOutbox (id : Uuid) (b : Bank) : Outcome StoreError Unit :=
  let (done, b) := runQuery (Query.deleteOutbox id) b
  (done.result.map (·.1), b)

def handOver {σ : Type} (offer : NewTask → σ → Except (Stop EnqueueError) TaskInfo × σ)
    (clear : Uuid → σ → Except (Stop StoreError) Unit × σ) :
    (count : Nat) → List OutboxEntry → σ → Except Overflow Nat × σ
  | count, [], s => (.ok count, s)
  | count, e :: rest, s =>
      match offer e.task s with
      | (.error (.overflow cause), s) => (.error cause, s)
      | (.error (.failed _), s) => handOver offer clear count rest s
      | (.ok _, s) => match clear e.id s with
        | (.error (.overflow cause), s) => (.error cause, s)
        | (.error (.failed _), s) => handOver offer clear count rest s
        | (.ok (), s) => handOver offer clear (count + 1) rest s

def dispatch (entries : List OutboxEntry) (b : Bank) : Except Overflow Nat × Bank :=
  handOver enqueueTask clearOutbox 0 entries b

def run (perform : Event → Bank → Answer × Bank) (body : Nat → Query Event Answer α) (b : Bank) :
    Unitwork α × Bank :=
  let (done, b) := runStaged perform body b
  let runs := done.runs.map (·.map (·.1))
  match done.result with
  | .error e => (⟨.error e, runs⟩, b)
  | .ok (value, staged) =>
      if b.plan.dispatches then
        match dispatch staged b with
        | (.ok _, b) => (⟨.ok value, runs⟩, b)
        | (.error cause, b) => (⟨.error (.overflow cause), runs⟩, b)
      else (⟨.ok value, runs⟩, b)

def runAlone (body : Query Empty Empty α) (b : Bank) : Outcome StoreError α :=
  let (done, b) := run nofun (fun _ => body) b
  (done.result, b)

def getUser (username : String) : Bank → Outcome StoreError User := runAlone (Query.getUser username)

def createSession (new : NewSession) (b : Bank) : Outcome StoreError Session :=
  runAlone (Query.createSession b.now new) b

def getSession (id : Uuid) : Bank → Outcome StoreError Session := runAlone (Query.getSession id)

def setBlocked (id : Uuid) (blocked : Bool) : Bank → Outcome StoreError Session :=
  runAlone (Query.setBlocked id blocked)

def pendingOutbox : Bank → Outcome StoreError (List OutboxEntry) := runAlone Query.listOutbox

def grace : Span := ⟨5000, by decide⟩

def relay (grace : Span) (b : Bank) : Outcome StoreError Nat :=
  match b.now.sub? grace with
  | none => (.error (.overflow .date), b)
  | some cutoff =>
      let (done, b) := runQuery Query.listOutbox b
      match done.result with
      | .error e => (.error e, b)
      | .ok (entries, _) =>
          let (count, b) := dispatch (entries.filter (·.createdAt ≤ cutoff)) b
          (count.mapError .overflow, b)

end Teller.Bank
