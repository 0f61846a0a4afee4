import Mathlib.Algebra.GroupWithZero.Nat
import Teller.Proofs.Journal.Recovery

/-! Seen from outside, the journal at one path is a list of records. It is opened, written to and closed any number
of times, and whatever it answers is what the list would answer. -/
namespace Teller.Journal

inductive Event where
  | open
  | append (r : Record)
  | replace (rs : List Record)
  | close
  | block (on : Bool)

inductive Reply where
  | found (replay : Replay) (size : Nat)
  | ended (outcome : Except JournalError Unit) (size : Nat)
  | nothing

inductive Lifecycle where
  | closed (disk : Disk)
  | opened (journal : Journal)

namespace Lifecycle

def start : Lifecycle := closed {}

def disk : Lifecycle → Disk
  | closed disk => disk
  | opened j => j.disk

def size? : Lifecycle → Option Nat
  | closed _ => none
  | opened j => some j.size

def withDisk (disk : Disk) : Lifecycle → Lifecycle
  | closed _ => closed disk
  | opened j => opened { j with disk }

def attempt (d : Lifecycle) (act : Journal → Except JournalError Journal) : Reply × Lifecycle :=
  match d with
  | closed _ => (.nothing, d)
  | opened j => match act j with
    | .ok after => (.ended (.ok ()) after.size, opened after)
    | .error cause => (.ended (.error cause) j.size, d)

def step (d : Lifecycle) : Event → Reply × Lifecycle
  | .open => let (j, found) := openAt d.disk; (.found found j.size, opened j)
  | .append r => d.attempt (Journal.append · r)
  | .replace rs => d.attempt (Journal.replace · rs)
  | .close => (.nothing, closed d.disk)
  | .block on => (.nothing, d.withDisk { d.disk with blocked := on })

def run (d : Lifecycle) : List Event → List Reply × Lifecycle
  | [] => ([], d)
  | e :: events =>
      let (reply, d) := d.step e
      let (replies, d) := d.run events
      (reply :: replies, d)

end Lifecycle

structure Ledger where
  records : List Record := []
  isOpen : Bool := false
  blocked : Bool := false

def refusal? (rs : List Record) : Option JournalError :=
  (rs.find? fun r => !decide r.Fits).map fun r => .tooLarge r.size

def obstacle? (blocked : Bool) (rs : List Record) : Option JournalError :=
  if blocked then some (.io "Is a directory (os error 21)") else refusal? rs

namespace Ledger

def length (l : Ledger) : Nat := (l.records.map Record.size).sum

def attempt (l : Ledger) (cause? : Option JournalError) (records : List Record) : Reply × Ledger :=
  if l.isOpen then
    match cause? with
    | some cause => (.ended (.error cause) l.length, l)
    | none => let after := { l with records }; (.ended (.ok ()) after.length, after)
  else (.nothing, l)

def step (l : Ledger) : Event → Reply × Ledger
  | .open => (.found ⟨l.records, 0⟩ l.length, { l with isOpen := true })
  | .append r => l.attempt (refusal? [r]) (l.records ++ [r])
  | .replace rs => l.attempt (obstacle? l.blocked rs) rs
  | .close => (.nothing, { l with isOpen := false })
  | .block on => (.nothing, { l with blocked := on })

def run (l : Ledger) : List Event → List Reply × Ledger
  | [] => ([], l)
  | e :: events =>
      let (reply, l) := l.step e
      let (replies, l) := l.run events
      (reply :: replies, l)

end Ledger

def Event.NamesFit : Event → Prop
  | .append r => r.NamesFit
  | .replace rs => ∀ r ∈ rs, r.NamesFit
  | _ => True

variable {rs : List Record} {r : Record} {d : Lifecycle} {l : Ledger}

theorem encodeAllSize {all : Bytes} (ok : encodeAll rs = .ok all) : all.size = (rs.map Record.size).sum := by
  induction rs generalizing all with
  | nil => cases ok; rfl
  | cons r rs ih =>
    obtain ⟨first, later, head, tail, rfl⟩ := encodeAllCons ok
    obtain ⟨_, size, _⟩ := Record.encodeParts head
    rw [ByteArray.size_append, ih tail, size]
    rfl

def FailsFor {α : Type} (cause? : Option JournalError) (done : Except JournalError α) : Prop :=
  (∃ cause, cause? = some cause ∧ done = .error cause) ∨ cause? = none ∧ ∃ a, done = .ok a

theorem encodeAllFails (rs : List Record) : FailsFor (refusal? rs) (encodeAll rs) := by
  induction rs with
  | nil => exact .inr ⟨rfl, .empty, rfl⟩
  | cons r rs ih =>
    by_cases fits : r.Fits
    · have later : refusal? (r :: rs) = refusal? rs := by simp [refusal?, fits]
      obtain ⟨first, head, _⟩ := Record.encodeFits fits
      rw [later]
      rcases ih with ⟨cause, refused, failed⟩ | ⟨accepted, all, tail⟩
      · refine .inl ⟨cause, refused, ?_⟩
        rw [encodeAll, head, failed]
        rfl
      · exact .inr ⟨accepted, _, encodeAllJoins head tail⟩
    · refine .inl ⟨.tooLarge r.size, by simp [refusal?, fits], ?_⟩
      rw [encodeAll, Record.encodeTooLarge fits]
      rfl

theorem refusalFitting (fits : ∀ r ∈ rs, r.Fits) : refusal? rs = none := by
  simpa [refusal?] using fits

theorem appendFails (j : Journal) (r : Record) : FailsFor (refusal? [r]) (j.append r) := by
  by_cases fits : r.Fits
  · obtain ⟨bytes, coded, _⟩ := Record.encodeFits fits
    refine .inr ⟨by simp [refusal?, fits], ?_⟩
    rw [append, coded]
    exact ⟨_, rfl⟩
  · refine .inl ⟨.tooLarge r.size, by simp [refusal?, fits], ?_⟩
    rw [append, Record.encodeTooLarge fits]
    rfl

theorem replaceFails (j : Journal) (rs : List Record) : FailsFor (obstacle? j.disk.blocked rs) (j.replace rs) := by
  unfold obstacle? replace
  cases j.disk.blocked with
  | true => exact .inl ⟨_, rfl, rfl⟩
  | false =>
    rcases encodeAllFails rs with ⟨cause, refused, failed⟩ | ⟨accepted, all, coded⟩
    · refine .inl ⟨cause, refused, ?_⟩
      rw [failed]
      rfl
    · refine .inr ⟨accepted, ?_⟩
      rw [coded]
      exact ⟨_, rfl⟩

structure Lifecycle.Keeps (d : Lifecycle) (l : Ledger) : Prop where
  held : d.disk.Holds l.records
  blocked : d.disk.blocked = l.blocked
  handle : d.size? = if l.isOpen then some d.disk.content.size else none

theorem keptLength (h : d.Keeps l) : l.length = d.disk.content.size := (encodeAllSize h.held.written).symm

theorem keptOpened {j : Journal} (h : (Lifecycle.opened j).Keeps l) : l.isOpen = true ∧ j.Holds l.records := by
  have handle := h.handle
  split at handle
  · rename_i isOpen
    exact ⟨isOpen, h.held, Option.some.inj handle⟩
  · cases handle

theorem keptClosed {disk : Disk} (h : (Lifecycle.closed disk).Keeps l) : l.isOpen = false := by
  have handle := h.handle
  split at handle
  · cases handle
  · simp_all

theorem keptAttempt {act : Journal → Except JournalError Journal} {cause? : Option JournalError}
    {records : List Record} (h : d.Keeps l) (fails : ∀ j, d = .opened j → FailsFor cause? (act j))
    (holds : ∀ j after, d = .opened j → act j = .ok after →
      after.Holds records ∧ after.disk.blocked = j.disk.blocked) :
    (d.attempt act).1 = (l.attempt cause? records).1 ∧ (d.attempt act).2.Keeps (l.attempt cause? records).2 := by
  cases d with
  | closed disk =>
    have shut := keptClosed h
    simp only [Lifecycle.attempt, Ledger.attempt, shut, Bool.false_eq_true, if_false, true_and]
    exact h
  | opened j =>
    obtain ⟨isOpen, held⟩ := keptOpened h
    simp only [Lifecycle.attempt, Ledger.attempt]
    rw [if_pos isOpen]
    rcases fails j rfl with ⟨cause, refused, failed⟩ | ⟨accepted, after, ok⟩
    · simp only [refused, failed]
      exact ⟨by rw [keptLength h, held.size]; rfl, h⟩
    · obtain ⟨holds, blocked⟩ := holds j after rfl ok
      have keeps : (Lifecycle.opened after).Keeps { l with records } := by
        refine ⟨holds.disk, blocked.trans h.blocked, ?_⟩
        simp only [isOpen, if_true]
        exact congrArg some holds.size
      simp only [accepted, ok]
      exact ⟨by rw [keptLength keeps, holds.size]; rfl, keeps⟩

theorem keptStep (h : d.Keeps l) {e : Event} (fits : e.NamesFit) :
    (d.step e).1 = (l.step e).1 ∧ (d.step e).2.Keeps (l.step e).2 := by
  cases e with
  | «open» =>
    simp only [Lifecycle.step, Ledger.step, openHeld h.held]
    refine ⟨by rw [keptLength h], ⟨h.held.written, h.held.fits⟩, h.blocked, ?_⟩
    rfl
  | append r =>
    refine keptAttempt h (fun j _ => appendFails j r) fun j after here ok => ?_
    subst here
    have held := (keptOpened h).2
    obtain ⟨_, _, _, _, blocked⟩ := appended held.size ok
    exact ⟨appendHolds held ok fits, blocked⟩
  | replace rs =>
    refine keptAttempt h (fun j here => ?_) fun j after _ ok => ⟨replaceHolds ok fits, (replaced ok).2.2⟩
    subst here
    exact h.blocked ▸ replaceFails j rs
  | close => exact ⟨rfl, h.held, h.blocked, rfl⟩
  | block on =>
    refine ⟨rfl, ?_⟩
    cases d with
    | closed disk => exact ⟨⟨h.held.written, h.held.fits⟩, rfl, h.handle⟩
    | opened j => exact ⟨⟨h.held.written, h.held.fits⟩, rfl, h.handle⟩

theorem keptRun (h : d.Keeps l) {events : List Event} (fits : ∀ e ∈ events, e.NamesFit) :
    (d.run events).1 = (l.run events).1 ∧ (d.run events).2.Keeps (l.run events).2 := by
  induction events generalizing d l with
  | nil => exact ⟨rfl, h⟩
  | cons e events ih =>
    obtain ⟨reply, keeps⟩ := keptStep h (fits e List.mem_cons_self)
    obtain ⟨replies, kept⟩ := ih keeps fun x mem => fits x (List.mem_cons_of_mem _ mem)
    simp only [Lifecycle.run, Ledger.run]
    exact ⟨by rw [reply, replies], kept⟩

theorem keptStart : Lifecycle.start.Keeps {} := ⟨⟨rfl, nofun⟩, rfl, rfl⟩

theorem failedStays {d : Lifecycle} {e : Event} {cause : JournalError} {size : Nat}
    (failed : (d.step e).1 = .ended (.error cause) size) : (d.step e).2 = d := by
  have attempted (act : Journal → Except JournalError Journal)
      (failed : (d.attempt act).1 = .ended (.error cause) size) : (d.attempt act).2 = d := by
    cases d with
    | closed disk => rfl
    | opened j =>
      simp only [Lifecycle.attempt] at failed ⊢
      split at failed
      · cases failed
      · rfl
  cases e with
  | «open» => cases failed
  | append r => exact attempted _ failed
  | replace rs => exact attempted _ failed
  | close => cases failed
  | block on => cases failed

/-- From a path without a file on, every answer is the one the list of records would give, the file is always the
records of the list one after the other, an open journal knows its length, and what fails changes nothing. -/
theorem fileRefinesLedger {events : List Event} (fits : ∀ e ∈ events, e.NamesFit) :
    let d := (Lifecycle.start.run events).2
    let l := (Ledger.run {} events).2
    (Lifecycle.start.run events).1 = (Ledger.run {} events).1 ∧
      encodeAll l.records = .ok d.disk.content ∧ d.disk.content.size = l.length ∧
      d.size? = (if l.isOpen then some d.disk.content.size else none) ∧
      ∀ e cause size, (d.step e).1 = .ended (.error cause) size → (d.step e).2 = d := by
  obtain ⟨replies, keeps⟩ := keptRun keptStart fits
  exact ⟨replies, keeps.held.written, (keptLength keeps).symm, keeps.handle, fun _ _ _ => failedStays⟩

def failing (small large : Record) : List Event :=
  [.open, .append small, .append large, .block true, .replace [], .block false, .replace [small, large],
    .append small, .close, .open]

theorem valueOfSize (n : Nat) : ∃ value : Bytes, value.size = n := ⟨⟨Array.replicate n 0⟩, Array.size_replicate⟩

theorem fileRefinesLedgerThroughFailures :
    ∃ small large : Record, ¬ large.Fits ∧ (∀ e ∈ failing small large, e.NamesFit) ∧
      (Lifecycle.start.run (failing small large)).1 =
        [.found ⟨[], 0⟩ 0, .ended (.ok ()) 33, .ended (.error (.tooLarge large.size)) 33, .nothing,
          .ended (.error (.io "Is a directory (os error 21)")) 33, .nothing,
          .ended (.error (.tooLarge large.size)) 33, .ended (.ok ()) 66, .nothing, .found ⟨[small, small], 0⟩ 66] := by
  let small : Record := ⟨7, [.put "t" .empty ⟨#[1]⟩]⟩
  obtain ⟨value, bytes⟩ := valueOfSize maxRecordSize
  let large : Record := ⟨8, [.put "t" .empty value]⟩
  have tooLarge : ¬ large.Fits := by
    simp only [large, Record.Fits, Record.size, Record.writesSize, Write.sizeEncoded, Write.encodedSize, bytes]
    omega
  have short : "t".utf8ByteSize ≤ 65535 := by decide
  have fits : ∀ e ∈ failing small large, e.NamesFit := by
    simp [failing, Event.NamesFit, small, large, Record.NamesFit, Write.NameFits, Write.table, short]
  have replies := (fileRefinesLedger fits).1
  have fitting : small.Fits := by decide
  have length : small.size = 33 := rfl
  refine ⟨small, large, tooLarge, fits, replies.trans ?_⟩
  simp [failing, Ledger.run, Ledger.step, Ledger.attempt, Ledger.length, obstacle?, refusal?, tooLarge, fitting,
    length]

end Teller.Journal
