import Teller.Moment
import Teller.Stop

/-! Where a task is queued, how often it may be retried, and when it may be delivered at the earliest. -/
namespace Teller

structure TaskOptions where
  queue : String
  maxRetry : UInt32
  notBefore : Option Moment
  delay : Option Int64
  deriving DecidableEq

namespace TaskOptions

def critical : String := "critical"

def defaultQueue : String := "default"

def standardMaxRetry : UInt32 := 25

def standard : TaskOptions := ⟨defaultQueue, standardMaxRetry, none, none⟩

instance : Inhabited TaskOptions := ⟨standard⟩

def processIn (o : TaskOptions) (delay : Span) : TaskOptions :=
  { o with delay := some (Int64.ofInt delay.ms) }

/-- The moment that a delay leads to. A delay beyond the last moment counts as none; one that is no
span breaks off. -/
def delayed (delay : Option Int64) (now : Moment) : Except Overflow Moment :=
  match delay with
  | none => .ok now
  | some ms => match Span.ofMs? ms.toInt with
    | some span => .ok ((now.add? span).getD now)
    | none => .error .delay

def later (a b : Moment) : Moment := if a ≤ b then b else a

def resolve (o : TaskOptions) (now : Moment) : Except Overflow Moment :=
  (delayed o.delay now).map fun delayed =>
    match o.notBefore with
    | some moment => later moment delayed
    | none => delayed

open Json (Fields Codec)

def fields : Fields [String, UInt32, Option Moment, Option Int64] :=
  .cons "queue" .string <| .cons "max_retry" .uint32 <| .cons "not_before" Moment.optionCodec <|
    .cons "process_in_ms" Codec.int64.option .nil

def codec : Codec TaskOptions :=
  .ofFields "struct TaskOptions" fields
    (fun (queue, maxRetry, notBefore, delay, ()) => ⟨queue, maxRetry, notBefore, delay⟩)
    fun o => (o.queue, o.maxRetry, o.notBefore, o.delay, ())

end TaskOptions
end Teller
