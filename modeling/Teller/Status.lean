/-! What the outside is told of an error: a reason of its own for every kind, and a coarse code. -/
namespace Teller

inductive StatusCode where
  | invalidArgument
  | notFound
  | alreadyExists
  | permissionDenied
  | failedPrecondition
  | aborted
  | internal
  | unavailable
  | unauthenticated
  deriving DecidableEq, Repr

def StatusCode.number : StatusCode → Nat
  | invalidArgument => 3
  | notFound => 5
  | alreadyExists => 6
  | permissionDenied => 7
  | failedPrecondition => 9
  | aborted => 10
  | internal => 13
  | unavailable => 14
  | unauthenticated => 16

inductive Status where
  | malformedAuthorization
  | invalidToken
  | expiredToken
  | permissionDenied
  | sessionNotFound
  | sessionBlocked
  | sessionMismatch
  | sessionExpired
  | transactionConflict
  | transactionAborted
  | enqueueFailed
  | taskMalformed
  | taskTransientFailure
  | notFound
  | alreadyExists
  | unavailable
  | internal
  deriving DecidableEq, Repr

namespace Status

def all : List Status :=
  [malformedAuthorization, invalidToken, expiredToken, permissionDenied, sessionNotFound,
    sessionBlocked, sessionMismatch, sessionExpired, transactionConflict, transactionAborted,
    enqueueFailed, taskMalformed, taskTransientFailure, notFound, alreadyExists, unavailable, internal]

def code : Status → StatusCode
  | malformedAuthorization | invalidToken | expiredToken | sessionBlocked | sessionMismatch
  | sessionExpired => .unauthenticated
  | permissionDenied => .permissionDenied
  | sessionNotFound | notFound => .notFound
  | transactionConflict => .aborted
  | transactionAborted => .failedPrecondition
  | enqueueFailed | taskTransientFailure | unavailable => .unavailable
  | taskMalformed => .invalidArgument
  | alreadyExists => .alreadyExists
  | internal => .internal

def reason : Status → String
  | malformedAuthorization => "MALFORMED_AUTHORIZATION"
  | invalidToken => "INVALID_TOKEN"
  | expiredToken => "EXPIRED_TOKEN"
  | permissionDenied => "PERMISSION_DENIED"
  | sessionNotFound => "SESSION_NOT_FOUND"
  | sessionBlocked => "SESSION_BLOCKED"
  | sessionMismatch => "SESSION_MISMATCH"
  | sessionExpired => "SESSION_EXPIRED"
  | transactionConflict => "TRANSACTION_CONFLICT"
  | transactionAborted => "TRANSACTION_ABORTED"
  | enqueueFailed => "ENQUEUE_FAILED"
  | taskMalformed => "TASK_MALFORMED"
  | taskTransientFailure => "TASK_TRANSIENT_FAILURE"
  | notFound => "NOT_FOUND"
  | alreadyExists => "ALREADY_EXISTS"
  | unavailable => "UNAVAILABLE"
  | internal => "INTERNAL"

end Status
end Teller
