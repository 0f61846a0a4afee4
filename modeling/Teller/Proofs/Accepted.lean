import Teller.Proofs.Commit
import Teller.Proofs.Durations

/-! Settings that are accepted. They say what the texts say, every length of time and number of places in them is
positive, and tokens can be made under their key. Nothing else stands against accepting them: they are refused only
where the key does not suit the scheme or a text cannot be read. -/
namespace Teller

theorem mapErrorOk {ε ε' α : Type} {result : Except ε α} {f : ε → ε'} {a : α} :
    result.mapError f = .ok a ↔ result = .ok a := by
  cases result <;> simp [Except.mapError]

namespace Scheme

def name : Scheme → String
  | signed => "jwt"
  | sealed => "sealed"

def Takes : Scheme → (key : List UInt8) → Prop
  | signed, key => 32 ≤ key.length
  | sealed, key => key.length = 32

theorem parseIff {text : String} {scheme : Scheme} :
    parse text = .ok scheme ↔ text.map Char.toLower = scheme.name := by
  have apart : name signed ≠ name sealed := by decide
  unfold parse
  dsimp only
  split
  · rename_i here
    rw [here]
    cases scheme
    · exact iff_of_true rfl rfl
    · exact iff_of_false nofun apart
  · rename_i other
    split
    · rename_i here
      rw [here]
      cases scheme
      · exact iff_of_false nofun apart.symm
      · exact iff_of_true rfl rfl
    · rename_i neither
      cases scheme
      · exact iff_of_false nofun other
      · exact iff_of_false nofun neither

end Scheme

theorem Issuer.ofKeyIff {scheme : Scheme} {key : List UInt8} :
    (∃ issuer, Issuer.ofKey scheme key = .ok issuer) ↔ scheme.Takes key := by
  cases scheme with
  | signed =>
    show (∃ issuer, Issuer.ofSecret key = .ok issuer) ↔ Scheme.signed.Takes key
    unfold Issuer.ofSecret
    split
    · rename_i short
      exact iff_of_false nofun (Nat.not_le.mpr short)
    · rename_i enough
      exact iff_of_true ⟨_, rfl⟩ (Nat.le_of_not_lt enough)
  | «sealed» =>
    show (∃ issuer, Issuer.ofCipherKey key = .ok issuer) ↔ Scheme.sealed.Takes key
    unfold Issuer.ofCipherKey
    split
    · rename_i same
      exact iff_of_true ⟨_, rfl⟩ same
    · rename_i other
      exact iff_of_false nofun other

namespace Settings
variable {lookup : String → Option String} {s : Settings}

def shown (lookup : String → Option String) (name default : String) : String := (get lookup name).getD default

def Waits (text : String) (d : Duration) : Prop := Duration.parse text = .ok d
def Lasts (text : String) (span : Span) : Prop := ∃ d, Waits text d ∧ span.ms = d.ms
def Counts (text : String) (n : Nat) : Prop := Decimal.Denotes text n ∧ 0 < n ∧ n ≤ largestCount
def Retries (text : String) (n : UInt32) : Prop := Decimal.Denotes text n.toNat

theorem readIff {α : Type} {name default : String} {parse : String → Except String α} {a : α} :
    read lookup name default parse = .ok a ↔ parse (shown lookup name default) = .ok a := mapErrorOk

theorem keyIff {key : String} (given : key ≠ "") :
    required lookup "TOKEN_SYMMETRIC_KEY" = .ok key ↔ get lookup "TOKEN_SYMMETRIC_KEY" = some key := by
  unfold required
  split
  · rename_i missing
    simp [missing]
  · rename_i empty
    simp [empty, given.symm]
  · rename_i text _ set
    simp [set]

theorem checkKeyIff {scheme : Scheme} {key : String} :
    checkKey scheme key = .ok () ↔ scheme.Takes (Json.utf8 key) := by
  have size : (Json.utf8 key).length = key.utf8ByteSize := rfl
  cases scheme with
  | signed =>
    rw [checkKey, Scheme.Takes, size]
    split
    · rename_i short
      exact iff_of_false nofun (Nat.not_le.mpr short)
    · rename_i enough
      exact iff_of_true rfl (Nat.le_of_not_lt enough)
  | «sealed» =>
    rw [checkKey, Scheme.Takes, size]
    split
    · rename_i same
      exact iff_of_true rfl same
    · rename_i other
      exact iff_of_false nofun other

theorem notEmpty {scheme : Scheme} {key : String} (takes : scheme.Takes (Json.utf8 key)) : key ≠ "" := by
  rintro rfl
  cases scheme <;> simp [Scheme.Takes, Json.utf8] at takes

theorem parseDurationIff {text : String} {d : Duration} : parseDuration text = .ok d ↔ Waits text d := mapErrorOk

theorem spanIff {ms : Int} {span : Span} : Span.ofMs? ms = some span ↔ span.ms = ms := by
  obtain ⟨own, range⟩ := span
  unfold Span.ofMs?
  split
  · simp [eq_comm]
  · rename_i beyond
    simp only [reduceCtorEq, false_iff]
    exact fun same => beyond (same ▸ range)

theorem parseSpanIff {text : String} {span : Span} : parseSpan text = .ok span ↔ Lasts text span := by
  unfold parseSpan Lasts
  constructor
  · intro ok
    obtain ⟨d, read, ok⟩ := boundOk ok
    refine ⟨d, parseDurationIff.mp read, spanIff.mp ?_⟩
    split at ok
    · rename_i found here
      cases ok
      exact here
    · cases ok
  · rintro ⟨d, read, same⟩
    have here : d.toSpan? = some span := spanIff.mpr same
    rw [parseDurationIff.mpr read]
    simp only [bind, Except.bind, here]
    rfl

theorem parseCountIff {text : String} {n : Nat} : parseCount text = .ok n ↔ Counts text n := by
  have reads (n : Nat) : Decimal.parse largestCount text = .ok n ↔ _ := Decimal.parseIff
  unfold parseCount Counts
  cases read : Decimal.parse largestCount text with
  | error e =>
    simp only [read, reduceCtorEq, false_iff] at reads ⊢
    exact fun ⟨denotes, _, small⟩ => reads n ⟨denotes, small⟩
  | ok m =>
    simp only [read, Except.ok.injEq] at reads
    have here : m = n ∧ 0 < n ↔ Decimal.Denotes text n ∧ 0 < n ∧ n ≤ largestCount := by
      rw [reads n, and_assoc, and_comm (b := 0 < n)]
    rw [← here]
    cases m with
    | zero =>
      simp only [reduceCtorEq, false_iff]
      rintro ⟨rfl, pos⟩
      exact Nat.lt_irrefl 0 pos
    | succ m =>
      simp only [Except.ok.injEq]
      exact ⟨fun same => ⟨same, same ▸ Nat.succ_pos m⟩, And.left⟩

theorem parseRetriesIff {text : String} {n : UInt32} : parseRetries text = .ok n ↔ Retries text n := by
  have reads (n : Nat) : Decimal.parse (UInt32.size - 1) text = .ok n ↔ _ := Decimal.parseIff
  have range := n.toNat_lt
  unfold parseRetries Retries
  cases read : Decimal.parse (UInt32.size - 1) text with
  | error e =>
    simp only [read, reduceCtorEq, false_iff] at reads ⊢
    exact fun denotes => reads n.toNat ⟨denotes, Nat.le_pred_of_lt range⟩
  | ok m =>
    simp only [read, Except.ok.injEq] at reads ⊢
    have small := ((reads m).mp rfl).2
    rw [← UInt32.toNat_inj, Nat.toUInt32_eq, UInt32.toNat_ofNat_of_lt' (Nat.lt_succ_of_le small), reads]
    exact and_iff_left (Nat.le_pred_of_lt range)

structure Reflects (lookup : String → Option String) (s : Settings) : Prop where
  scheme : (shown lookup "TOKEN_SCHEME" "sealed").map Char.toLower = s.scheme.name
  key : get lookup "TOKEN_SYMMETRIC_KEY" = some s.key
  access : Lasts (shown lookup "ACCESS_TOKEN_DURATION" "15m") s.accessDuration
  refresh : Lasts (shown lookup "REFRESH_TOKEN_DURATION" "24h") s.refreshDuration
  directory : s.directory = shown lookup "DATA_DIRECTORY" "./data"
  poolSize : Counts (shown lookup "DB_POOL_SIZE" "10") s.poolSize
  poolTimeout : Waits (shown lookup "DB_POOL_TIMEOUT" "5s") s.poolTimeout
  retries : Retries (shown lookup "TX_MAX_RETRIES" "3") s.txRetries
  concurrency : Counts (shown lookup "WORKER_CONCURRENCY" "10") s.concurrency
  lease : Lasts (shown lookup "TASK_LEASE_DURATION" "30s") s.leaseDuration
  interval : Waits (shown lookup "RELAY_INTERVAL" "1s") s.relayInterval

theorem loadIff : load lookup = .ok s ↔ Reflects lookup s ∧ s.scheme.Takes (Json.utf8 s.key) := by
  constructor
  · intro ok
    unfold load at ok
    obtain ⟨scheme, scheme', ok⟩ := boundOk ok
    obtain ⟨key, key', ok⟩ := boundOk ok
    obtain ⟨⟨⟩, takes, ok⟩ := boundOk ok
    obtain ⟨access, access', ok⟩ := boundOk ok
    obtain ⟨refresh, refresh', ok⟩ := boundOk ok
    obtain ⟨poolSize, poolSize', ok⟩ := boundOk ok
    obtain ⟨poolTimeout, poolTimeout', ok⟩ := boundOk ok
    obtain ⟨retries, retries', ok⟩ := boundOk ok
    obtain ⟨concurrency, concurrency', ok⟩ := boundOk ok
    obtain ⟨lease, lease', ok⟩ := boundOk ok
    obtain ⟨interval, interval', ok⟩ := boundOk ok
    cases ok
    have takes := checkKeyIff.mp takes
    exact ⟨{
      scheme := Scheme.parseIff.mp (readIff.mp scheme')
      key := (keyIff (notEmpty takes)).mp key'
      access := parseSpanIff.mp (readIff.mp access')
      refresh := parseSpanIff.mp (readIff.mp refresh')
      directory := rfl
      poolSize := parseCountIff.mp (readIff.mp poolSize')
      poolTimeout := parseDurationIff.mp (readIff.mp poolTimeout')
      retries := parseRetriesIff.mp (readIff.mp retries')
      concurrency := parseCountIff.mp (readIff.mp concurrency')
      lease := parseSpanIff.mp (readIff.mp lease')
      interval := parseDurationIff.mp (readIff.mp interval') }, takes⟩
  · rintro ⟨reflected, takes⟩
    obtain ⟨key, scheme, access, refresh, directory, poolSize, poolTimeout, retries, concurrency, lease, interval⟩ := s
    obtain rfl := reflected.directory
    unfold load
    rw [readIff.mpr (Scheme.parseIff.mpr reflected.scheme), (keyIff (notEmpty takes)).mpr reflected.key]
    simp only [bind, Except.bind]
    rw [checkKeyIff.mpr takes, readIff.mpr (parseSpanIff.mpr reflected.access),
      readIff.mpr (parseSpanIff.mpr reflected.refresh), readIff.mpr (parseCountIff.mpr reflected.poolSize),
      readIff.mpr (parseDurationIff.mpr reflected.poolTimeout), readIff.mpr (parseRetriesIff.mpr reflected.retries),
      readIff.mpr (parseCountIff.mpr reflected.concurrency), readIff.mpr (parseSpanIff.mpr reflected.lease),
      readIff.mpr (parseDurationIff.mpr reflected.interval)]
    rfl

structure Positive (s : Settings) : Prop where
  access : 0 < s.accessDuration.ms
  refresh : 0 < s.refreshDuration.ms
  lease : 0 < s.leaseDuration.ms
  poolTimeout : 0 < s.poolTimeout.ms
  interval : 0 < s.relayInterval.ms
  poolSize : 1 ≤ s.poolSize
  concurrency : 1 ≤ s.concurrency

theorem lastsPositive {text : String} {span : Span} (lasts : Lasts text span) : 0 < span.ms := by
  obtain ⟨d, read, same⟩ := lasts
  have positive := Duration.parsePositive read
  omega

theorem reflectsPositive (reflected : Reflects lookup s) : s.Positive where
  access := lastsPositive reflected.access
  refresh := lastsPositive reflected.refresh
  lease := lastsPositive reflected.lease
  poolTimeout := Duration.parsePositive reflected.poolTimeout
  interval := Duration.parsePositive reflected.interval
  poolSize := reflected.poolSize.2.1
  concurrency := reflected.concurrency.2.1

theorem leasePositive (accepted : load lookup = .ok s) : 0 < s.leaseDuration.ms :=
  lastsPositive (loadIff.mp accepted).1.lease

def KeySuits (lookup : String → Option String) : Prop := ∃ scheme key,
  (shown lookup "TOKEN_SCHEME" "sealed").map Char.toLower = scheme.name ∧
    get lookup "TOKEN_SYMMETRIC_KEY" = some key ∧ ∃ issuer, Issuer.ofKey scheme (Json.utf8 key) = .ok issuer

def Readable {α : Type} (lookup : String → Option String) (reads : String → α → Prop) (name : String) : Prop :=
  ∀ text, get lookup name = some text → ∃ a, reads text a

structure Legible (lookup : String → Option String) : Prop where
  access : Readable lookup Lasts "ACCESS_TOKEN_DURATION"
  refresh : Readable lookup Lasts "REFRESH_TOKEN_DURATION"
  poolSize : Readable lookup Counts "DB_POOL_SIZE"
  poolTimeout : Readable lookup Waits "DB_POOL_TIMEOUT"
  retries : Readable lookup Retries "TX_MAX_RETRIES"
  concurrency : Readable lookup Counts "WORKER_CONCURRENCY"
  lease : Readable lookup Lasts "TASK_LEASE_DURATION"
  interval : Readable lookup Waits "RELAY_INTERVAL"

section
variable {α : Type} {reads : String → α → Prop} {name default : String} {a : α}

theorem shownReads (set : Readable lookup reads name) (standard : reads default a) :
    ∃ a, reads (shown lookup name default) a := by
  unfold shown
  cases found : get lookup name with
  | none => exact ⟨a, standard⟩
  | some text => exact set text found

theorem setReads (read : reads (shown lookup name default) a) : Readable lookup reads name := by
  intro text set
  rw [shown, set] at read
  exact ⟨a, read⟩

end

theorem reflectsLegible (reflected : Reflects lookup s) : Legible lookup where
  access := setReads reflected.access
  refresh := setReads reflected.refresh
  poolSize := setReads reflected.poolSize
  poolTimeout := setReads reflected.poolTimeout
  retries := setReads reflected.retries
  concurrency := setReads reflected.concurrency
  lease := setReads reflected.lease
  interval := setReads reflected.interval

theorem legibleLoads (legible : Legible lookup) (suits : KeySuits lookup) : ∃ s, load lookup = .ok s := by
  have quarter : Lasts "15m" ⟨900000, by decide⟩ := parseSpanIff.mp (by decide +kernel)
  have day : Lasts "24h" ⟨86400000, by decide⟩ := parseSpanIff.mp (by decide +kernel)
  have half : Lasts "30s" ⟨30000, by decide⟩ := parseSpanIff.mp (by decide +kernel)
  have ten : Counts "10" 10 := parseCountIff.mp (by decide +kernel)
  have three : Retries "3" 3 := parseRetriesIff.mp (by decide +kernel)
  have five : Waits "5s" ⟨5000⟩ := parseDurationIff.mp (by decide +kernel)
  have one : Waits "1s" ⟨1000⟩ := parseDurationIff.mp (by decide +kernel)
  obtain ⟨scheme, key, named, given, takes⟩ := suits
  obtain ⟨access, access'⟩ := shownReads legible.access quarter
  obtain ⟨refresh, refresh'⟩ := shownReads legible.refresh day
  obtain ⟨poolSize, poolSize'⟩ := shownReads legible.poolSize ten
  obtain ⟨poolTimeout, poolTimeout'⟩ := shownReads legible.poolTimeout five
  obtain ⟨retries, retries'⟩ := shownReads legible.retries three
  obtain ⟨concurrency, concurrency'⟩ := shownReads legible.concurrency ten
  obtain ⟨lease, lease'⟩ := shownReads legible.lease half
  obtain ⟨interval, interval'⟩ := shownReads legible.interval one
  let s : Settings := {
    key, scheme, accessDuration := access, refreshDuration := refresh
    directory := shown lookup "DATA_DIRECTORY" "./data", poolSize, poolTimeout, txRetries := retries, concurrency
    leaseDuration := lease, relayInterval := interval }
  have reflected : Reflects lookup s := {
    scheme := named, key := given, access := access', refresh := refresh', directory := rfl, poolSize := poolSize'
    poolTimeout := poolTimeout', retries := retries', concurrency := concurrency', lease := lease'
    interval := interval' }
  exact ⟨s, loadIff.mpr ⟨reflected, Issuer.ofKeyIff.mp takes⟩⟩

/-- Whether a key suits a scheme is judged alike when the settings are read and when tokens are made under it. The
settings are accepted exactly if their key suits their scheme and every other text that is set can be read; they then
hold what the texts say, nothing in them is zero that must not be, and there is an issuer for their scheme and key. -/
theorem acceptedStarts (lookup : String → Option String) :
    (∀ scheme key, (checkKey scheme key = .ok () ↔ scheme.Takes (Json.utf8 key)) ∧
      ((∃ issuer, Issuer.ofKey scheme (Json.utf8 key) = .ok issuer) ↔ scheme.Takes (Json.utf8 key))) ∧
    ((∃ s, load lookup = .ok s) ↔ KeySuits lookup ∧ Legible lookup) ∧
    ∀ s, load lookup = .ok s → Reflects lookup s ∧ s.Positive ∧
      ∃ issuer, Issuer.ofKey s.scheme (Json.utf8 s.key) = .ok issuer := by
  refine ⟨fun scheme key => ⟨checkKeyIff, Issuer.ofKeyIff⟩,
    ⟨?_, fun ⟨suits, legible⟩ => legibleLoads legible suits⟩, ?_⟩
  · rintro ⟨s, accepted⟩
    obtain ⟨reflected, takes⟩ := loadIff.mp accepted
    exact ⟨⟨s.scheme, s.key, reflected.scheme, reflected.key, Issuer.ofKeyIff.mpr takes⟩, reflectsLegible reflected⟩
  · intro s accepted
    obtain ⟨reflected, takes⟩ := loadIff.mp accepted
    exact ⟨reflected, reflectsPositive reflected, Issuer.ofKeyIff.mpr takes⟩

end Settings
end Teller
