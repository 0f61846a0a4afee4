import Mathlib.Algebra.Group.Nat.Defs
import Teller.Proofs.Fields
import Teller.Proofs.Numerals
import Teller.Settings

/-! Texts that are read as lengths of time. They say a whole number, in digits alone, and the name of a measure right
behind it; nothing else is accepted but white space around them. What is refused is refused for the first thing that is
missing or wrong, and no length of time is zero. -/
namespace Teller.Duration
open Blank (Blanks Inside)
open Decimal (denoted)

inductive Measure where
  | milliseconds
  | seconds
  | minutes
  | hours
  deriving DecidableEq

namespace Measure

def name : Measure → String
  | milliseconds => "ms"
  | seconds => "s"
  | minutes => "m"
  | hours => "h"

def ms : Measure → Nat → Nat
  | milliseconds, n => n
  | seconds, n => 1000 * n
  | minutes, n => 1000 * min (60 * n) (2 ^ 64 - 1)
  | hours, n => 1000 * min (3600 * n) (2 ^ 64 - 1)

theorem named (m : Measure) : m.name.toList ≠ [] := by cases m <;> decide

theorem nameStops (m : Measure) : Stops Char.isDigit m.name.toList ∧ Stops Blank.isBlank m.name.toList.reverse := by
  cases m <;> constructor <;> rintro _ ⟨⟩ <;> rfl

theorem msPos {n : Nat} (m : Measure) (counted : 1 ≤ n) : 0 < m.ms n := by
  cases m <;> simp only [ms] <;> omega

theorem msRoom {n : Nat} (m : Measure) (small : n < 2 ^ 64) : m.ms n / 1000 < 2 ^ 64 := by
  cases m <;> simp only [ms] <;> omega

end Measure

def Says (text : String) (n : Nat) (m : Measure) : Prop := ∃ before digits behind,
  text.toList = before ++ digits ++ m.name.toList ++ behind ∧ Blanks before ∧ Blanks behind ∧
    digits ≠ [] ∧ (∀ c ∈ digits, c.isDigit) ∧ denoted 0 digits = n

structure Parts (text : String) (digits name : List Char) : Prop where
  inside : Inside text.toList (digits ++ name)
  digits : ∀ c ∈ digits, c.isDigit
  name : Stops Char.isDigit name

inductive Reads (digits name : List Char) : Except Error Duration → Prop where
  | noUnit (missing : name = []) : Reads digits name (.error .noUnit)
  | noNumber (follows : name ≠ []) (missing : digits = [] ∨ 2 ^ 64 ≤ denoted 0 digits) :
      Reads digits name (.error .noNumber)
  | unit {found} (follows : name ≠ []) (numbered : digits ≠ []) (small : denoted 0 digits < 2 ^ 64)
      (here : found.toList = name) (unknown : ∀ m : Measure, m.name ≠ found) :
      Reads digits name (.error (.unit found))
  | zero (m : Measure) (numbered : digits ≠ []) (zero : denoted 0 digits = 0) (here : m.name.toList = name) :
      Reads digits name (.error .zero)
  | length {d} (m : Measure) (numbered : digits ≠ []) (positive : 1 ≤ denoted 0 digits)
      (small : denoted 0 digits < 2 ^ 64) (here : m.name.toList = name)
      (long : d.ms = m.ms (denoted 0 digits)) : Reads digits name (.ok d)

variable {text : String} {digits name : List Char} {n : Nat} {m : Measure} {d : Duration}

theorem parseParts (parts : Parts text digits name) : parse text =
    if name = [] then .error .noUnit
    else match Decimal.parse mostSeconds (String.ofList digits) with
      | .error _ => .error .noNumber
      | .ok n => ofUnit n (String.ofList name) >>= fun d => (if d.ms = 0 then .error .zero else .ok d) := by
  have trimmed := Blank.trimInside parts.inside
  unfold parse
  dsimp only
  rw [trimmed, runTaken parts.digits parts.name, runDropped parts.digits parts.name]
  simp only [List.isEmpty_iff]
  split
  · rfl
  · cases Decimal.parse mostSeconds (String.ofList digits) with
    | error _ => rfl
    | ok n =>
      cases ofUnit n (String.ofList name) with
      | error _ => rfl
      | ok d =>
        simp only [bind, Except.bind]
        split <;> rfl

theorem hasParts (text : String) : ∃ digits name, Parts text digits name := by
  obtain ⟨body, inside⟩ := Blank.insideTrim text.toList
  obtain ⟨digits, name, rfl, all, stops⟩ := runStops Char.isDigit body
  exact ⟨digits, name, inside, all, stops⟩

theorem numberIff (all : ∀ c ∈ digits, c.isDigit) :
    Decimal.parse mostSeconds (String.ofList digits) = .ok n ↔ digits ≠ [] ∧ denoted 0 digits = n ∧ n < 2 ^ 64 := by
  rw [Decimal.parseIff, Decimal.Denotes, String.toList_ofList]
  constructor
  · rintro ⟨⟨ds, numbered, _, same, rfl | rfl⟩, small⟩
    · exact ⟨numbered, same, Nat.lt_succ_of_le small⟩
    · exact absurd all Decimal.noSign
  · rintro ⟨numbered, same, small⟩
    exact ⟨⟨digits, numbered, all, same, .inl rfl⟩, Nat.le_of_lt_succ small⟩

theorem ofUnitNamed (m : Measure) (small : n < 2 ^ 64) : ofUnit n m.name = .ok ⟨m.ms n⟩ := by
  have most : mostSeconds = 2 ^ 64 - 1 := rfl
  cases m with
  | milliseconds => rfl
  | seconds =>
    have same : min n mostSeconds = n := Nat.min_eq_left (Nat.le_of_lt_succ small)
    show Except.ok (ofSeconds n) = _
    rw [ofSeconds, same]
    rfl
  | minutes =>
    show Except.ok (ofSeconds (n * 60)) = _
    rw [ofSeconds, most, Nat.mul_comm n]
    rfl
  | hours =>
    show Except.ok (ofSeconds (n * 3600)) = _
    rw [ofSeconds, most, Nat.mul_comm n]
    rfl

theorem ofUnitUnknown {found : String} (unknown : ∀ m : Measure, m.name ≠ found) :
    ofUnit n found = .error (.unit found) := by
  have other (m : Measure) : found ≠ m.name := (unknown m).symm
  exact (if_neg (other .milliseconds)).trans <| (if_neg (other .seconds)).trans <|
    (if_neg (other .minutes)).trans (if_neg (other .hours))

theorem parseReads (parts : Parts text digits name) {outcome : Except Error Duration}
    (reads : Reads digits name outcome) : parse text = outcome := by
  rw [parseParts parts]
  have number := numberIff (n := denoted 0 digits) parts.digits
  cases reads with
  | noUnit missing => exact if_pos missing
  | noNumber follows missing =>
    rw [if_neg follows]
    cases read : Decimal.parse mostSeconds (String.ofList digits) with
    | error _ => rfl
    | ok n =>
      obtain ⟨numbered, rfl, small⟩ := (numberIff parts.digits).mp read
      rcases missing with bare | large
      · exact absurd bare numbered
      · exact absurd small (Nat.not_lt.mpr large)
  | unit follows numbered small here unknown =>
    subst here
    rw [if_neg follows, number.mpr ⟨numbered, rfl, small⟩, String.ofList_toList]
    exact congrArg (· >>= _) (ofUnitUnknown unknown)
  | zero m numbered zero here =>
    have follows : name ≠ [] := here ▸ m.named
    have small : denoted 0 digits < 2 ^ 64 := by omega
    rw [if_neg follows, number.mpr ⟨numbered, rfl, small⟩, ← here, String.ofList_toList, zero]
    cases m <;> rfl
  | @length d m numbered positive small here long =>
    have follows : name ≠ [] := here ▸ m.named
    have something : d.ms ≠ 0 := by
      rw [long]
      exact Nat.ne_of_gt (m.msPos positive)
    obtain rfl : d = ⟨m.ms (denoted 0 digits)⟩ := congrArg Duration.mk long
    rw [if_neg follows, number.mpr ⟨numbered, rfl, small⟩, ← here, String.ofList_toList]
    exact (congrArg (· >>= _) (ofUnitNamed m small)).trans (if_neg something)

theorem hasReading (digits name : List Char) : ∃ outcome, Reads digits name outcome := by
  by_cases missing : name = []
  · exact ⟨_, .noUnit missing⟩
  by_cases unread : digits = [] ∨ 2 ^ 64 ≤ denoted 0 digits
  · exact ⟨_, .noNumber missing unread⟩
  obtain ⟨numbered, small⟩ := not_or.mp unread
  rw [Nat.not_le] at small
  by_cases known : ∃ m : Measure, m.name.toList = name
  · obtain ⟨m, here⟩ := known
    rcases Nat.eq_zero_or_pos (denoted 0 digits) with zero | positive
    · exact ⟨_, .zero m numbered zero here⟩
    · exact ⟨_, .length m numbered positive small here rfl⟩
  · refine ⟨_, .unit missing numbered small (String.toList_ofList : (String.ofList name).toList = name) fun m same => ?_⟩
    exact known ⟨m, by rw [same, String.toList_ofList]⟩

theorem parseIff {outcome : Except Error Duration} :
    parse text = outcome ↔ ∃ digits name, Parts text digits name ∧ Reads digits name outcome := by
  constructor
  · rintro rfl
    obtain ⟨digits, name, parts⟩ := hasParts text
    obtain ⟨outcome, reads⟩ := hasReading digits name
    exact ⟨digits, name, parts, by rwa [parseReads parts reads]⟩
  · rintro ⟨digits, name, parts, reads⟩
    exact parseReads parts reads

theorem digitSolid {c : Char} (digit : c.isDigit) : Blank.isBlank c = false := by
  obtain ⟨low, high⟩ : 48 ≤ c.toNat ∧ c.toNat ≤ 57 := by
    simpa [Char.isDigit, UInt32.le_iff_toNat_le] using digit
  exact Blank.solidVisible (by omega) (by omega)

theorem saysParts :
    Says text n m ↔ ∃ digits, Parts text digits m.name.toList ∧ digits ≠ [] ∧ denoted 0 digits = n := by
  obtain ⟨stops, ends⟩ := m.nameStops
  constructor
  · rintro ⟨before, digits, behind, laid, all, all', numbered, numerals, same⟩
    refine ⟨digits, ⟨⟨⟨before, behind, by rw [laid, List.append_assoc before], all, all'⟩, ?_, ?_⟩, numerals, stops⟩,
      numbered, same⟩
    · obtain ⟨c, digits, rfl⟩ := List.exists_cons_of_ne_nil numbered
      rintro _ ⟨⟩
      exact digitSolid (numerals c List.mem_cons_self)
    · rw [List.reverse_append]
      exact (stopsAppend (List.reverse_ne_nil_iff.mpr m.named)).mpr ends
  · rintro ⟨digits, parts, numbered, same⟩
    obtain ⟨before, behind, laid, all, all'⟩ := parts.inside.around
    exact ⟨before, digits, behind, by rw [laid, ← List.append_assoc before], all, all', numbered, parts.digits, same⟩

theorem parsePositive (ok : parse text = .ok d) : 0 < d.ms := by
  obtain ⟨digits, name, -, reads⟩ := parseIff.mp ok
  cases reads with
  | length m _ positive _ _ long =>
    rw [long]
    exact m.msPos positive

theorem durationGrammar (text : String) :
    (∀ d, parse text = .ok d ↔ ∃ n m, Says text n m ∧ 1 ≤ n ∧ n < 2 ^ 64 ∧ d.ms = m.ms n) ∧
    (∀ d, parse text = .ok d → 0 < d.ms ∧ d.seconds < 2 ^ 64) ∧
    ∀ outcome, parse text = outcome ↔ ∃ digits name, Parts text digits name ∧ Reads digits name outcome := by
  refine ⟨fun d => ?_, fun d ok => ⟨parsePositive ok, ?_⟩, fun outcome => parseIff⟩
  · rw [parseIff]
    constructor
    · rintro ⟨digits, name, parts, reads⟩
      cases reads with
      | length m numbered positive small here long =>
        subst here
        exact ⟨_, m, saysParts.mpr ⟨digits, parts, numbered, rfl⟩, positive, small, long⟩
    · rintro ⟨n, m, said, positive, small, long⟩
      obtain ⟨digits, parts, numbered, rfl⟩ := saysParts.mp said
      exact ⟨digits, _, parts, .length m numbered positive small rfl long⟩
  · obtain ⟨digits, name, -, reads⟩ := parseIff.mp ok
    cases reads with
    | length m _ _ small _ long =>
      rw [seconds, long]
      exact m.msRoom small

example : parse "\t007h " = .ok ⟨25200000⟩ ∧ parse "7 h" = .error (.unit " h") ∧ parse "+7h" = .error .noNumber := by
  decide +kernel

end Teller.Duration
