import Teller.Bank.Store

/-! Registering a user: the account and the task to mail them are created together or not at all. -/
namespace Teller

structure VerifyEmail where
  username : String
  deriving DecidableEq

namespace VerifyEmail
open Json (Fields Codec)

def taskType : String := "task:send_verify_email"

def fields : Fields [String] := .cons "username" .string .nil

def codec : Codec VerifyEmail :=
  .ofFields "struct PayloadSendVerifyEmail" fields (fun (username, ()) => ⟨username⟩)
    fun v => (v.username, ())

def payload (v : VerifyEmail) : List UInt8 := codec.write v

def maxRetry : UInt32 := 10

def delay : Span := ⟨10000, by decide⟩

def options : TaskOptions :=
  { TaskOptions.standard with maxRetry, queue := TaskOptions.critical }.processIn delay

def task {Event Answer : Type} (user : User) : Query Event Answer (List NewTask) := do
  let id ← StateT.lift Work.newId
  return [⟨id, taskType, payload ⟨user.username⟩, options⟩]

end VerifyEmail

namespace Bank

def register (new : NewUser) (b : Bank) : Outcome StoreError User :=
  runAlone (do return (← Query.createUserWith b.now new VerifyEmail.task).1) b

def sendVerifyEmail (username : String) (options : TaskOptions) : Bank → Outcome EnqueueError TaskInfo :=
  enqueue VerifyEmail.taskType (.ok (VerifyEmail.payload ⟨username⟩)) options

end Bank
end Teller
