import Teller.Text.Blank
import Teller.Text.Decimal
import Teller.Token.Issuer

/-! The settings with which the bank is started, read from named texts. -/
namespace Teller

structure Duration where
  ms : Nat
  deriving DecidableEq, Repr

namespace Duration

def mostSeconds : Nat := UInt64.size - 1

def ofMs (n : Nat) : Duration := ⟨n⟩
def ofSeconds (n : Nat) : Duration := ⟨1000 * min n mostSeconds⟩

def seconds (d : Duration) : Nat := d.ms / 1000
def nanos (d : Duration) : Nat := d.ms % 1000 * 1000000

inductive Error where
  | noUnit
  | noNumber
  | unit (found : String)
  | zero
  deriving DecidableEq, Repr

def Error.message : Error → String
  | noUnit => "missing unit (ms, s, m or h)"
  | noNumber => "expected a whole number followed by a unit"
  | unit found => "unknown unit '" ++ found ++ "'"
  | zero => "must be greater than zero"

def ofUnit (n : Nat) (name : String) : Except Error Duration :=
  if name = "ms" then .ok (ofMs n)
  else if name = "s" then .ok (ofSeconds n)
  else if name = "m" then .ok (ofSeconds (n * 60))
  else if name = "h" then .ok (ofSeconds (n * 3600))
  else .error (.unit name)

def parse (s : String) : Except Error Duration := do
  let cs := Blank.trim s.toList
  let digits := cs.takeWhile Char.isDigit
  let name := cs.dropWhile Char.isDigit
  if name.isEmpty then .error .noUnit
  match Decimal.parse mostSeconds (String.ofList digits) with
  | .error _ => .error .noNumber
  | .ok n =>
      let d ← ofUnit n (String.ofList name)
      if d.ms = 0 then .error .zero
      return d

def toSpan? (d : Duration) : Option Span := Span.ofMs? d.ms

end Duration

inductive SettingsError where
  | missing (name : String)
  | invalid (name reason : String)
  deriving DecidableEq, Repr, Inhabited

namespace SettingsError

def message : SettingsError → String
  | missing name => "missing required environment variable: " ++ name
  | invalid name reason => "invalid value for " ++ name ++ ": " ++ reason

end SettingsError

structure Settings where
  key : String
  scheme : Scheme
  accessDuration : Span
  refreshDuration : Span
  directory : String
  poolSize : Nat
  poolTimeout : Duration
  txRetries : UInt32
  concurrency : Nat
  leaseDuration : Span
  relayInterval : Duration
  deriving DecidableEq

namespace Settings

def namePrefix : String := "SIMPLE_BANK_"

def fullName (name : String) : String := namePrefix ++ name

def directoryDefault : String := "./data"
def bankJournal : String := "bank.wal"
def queueJournal : String := "queue.wal"

def largestCount : Nat := UInt64.size - 1

variable (lookup : String → Option String)

def get (name : String) : Option String := lookup (fullName name)

def read {α : Type} (name default : String) (parse : String → Except String α) :
    Except SettingsError α :=
  let text := (get lookup name).getD default
  (parse text).mapError fun reason => .invalid (fullName name) ("'" ++ text ++ "': " ++ reason)

def required (name : String) : Except SettingsError String :=
  match get lookup name with
  | none => .error (.missing (fullName name))
  | some "" => .error (.invalid (fullName name) "must not be empty")
  | some text => .ok text

def checkKey (scheme : Scheme) (key : String) : Except SettingsError Unit :=
  let size := key.utf8ByteSize
  let refuse (rule : String) : Except SettingsError Unit :=
    .error (.invalid (fullName "TOKEN_SYMMETRIC_KEY") (rule ++ ", got " ++ toString size))
  match scheme with
  | .sealed => if size = 32 then .ok () else refuse "must be exactly 32 bytes"
  | .signed => if size < 32 then refuse "must be at least 32 bytes" else .ok ()

def parseDuration (s : String) : Except String Duration := (Duration.parse s).mapError (·.message)

def parseSpan (s : String) : Except String Span := do
  let d ← parseDuration s
  match d.toSpan? with
  | some span => return span
  | none => .error "Source duration value is out of range for the target type"

def parseCount (s : String) : Except String Nat :=
  match Decimal.parse largestCount s with
  | .ok 0 => .error "must be greater than zero"
  | .ok n => .ok n
  | .error e => .error e.message

def parseRetries (s : String) : Except String UInt32 :=
  match Decimal.parse (UInt32.size - 1) s with
  | .ok n => .ok n.toUInt32
  | .error e => .error e.message

def load : Except SettingsError Settings := do
  let scheme ← read lookup "TOKEN_SCHEME" "sealed" Scheme.parse
  let key ← required lookup "TOKEN_SYMMETRIC_KEY"
  checkKey scheme key
  let accessDuration ← read lookup "ACCESS_TOKEN_DURATION" "15m" parseSpan
  let refreshDuration ← read lookup "REFRESH_TOKEN_DURATION" "24h" parseSpan
  let directory := (get lookup "DATA_DIRECTORY").getD directoryDefault
  let poolSize ← read lookup "DB_POOL_SIZE" "10" parseCount
  let poolTimeout ← read lookup "DB_POOL_TIMEOUT" "5s" parseDuration
  let txRetries ← read lookup "TX_MAX_RETRIES" "3" parseRetries
  let concurrency ← read lookup "WORKER_CONCURRENCY" "10" parseCount
  let leaseDuration ← read lookup "TASK_LEASE_DURATION" "30s" parseSpan
  let relayInterval ← read lookup "RELAY_INTERVAL" "1s" parseDuration
  return { key, scheme, accessDuration, refreshDuration, directory, poolSize, poolTimeout, txRetries,
           concurrency, leaseDuration, relayInterval }

def join (directory file : String) : String :=
  if directory.isEmpty ∨ directory.endsWith "/" then directory ++ file else directory ++ "/" ++ file

def bankPath (s : Settings) : String := join s.directory bankJournal
def queuePath (s : Settings) : String := join s.directory queueJournal

end Settings
end Teller
