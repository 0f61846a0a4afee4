import Teller.Proofs.DatabaseLifecycle

/-! A journal that loses its end. Between two snapshots the file only grows, by one record for each commit
that writes something. Cut anywhere, it is opened as it was before the first commit that is not whole, and
what is committed from then on stands behind that. -/
namespace Teller
open Journal (Write Record)

theorem Bytes.extractWithin {a b more : Bytes} {k : Nat} (low : a.size ≤ k) (high : k ≤ a.size + b.size) :
    (a ++ b ++ more).extract 0 k = a ++ b.extract 0 (k - a.size) := by
  have first : a.extract 0 k = a := by
    rw [← Nat.max_eq_left low]
    exact ByteArray.extract_zero_max_size
  have behind : more.extract (0 - a.size - b.size) (k - a.size - b.size) = .empty := by
    rw [ByteArray.extract_eq_empty_iff]
    omega
  rw [ByteArray.append_assoc, ByteArray.extract_append, ByteArray.extract_append, first, behind,
    ByteArray.append_empty, Nat.zero_sub]

namespace Database
variable {db : Database} {t : Transaction} {top : Nat}

def content (db : Database) : Bytes := (db.disk?.getD {}).content

theorem contentOf {log : Log} (here : db.log = some log) : db.content = log.journal.disk.content := by
  simp only [content, disk?, here, Option.map_some, Option.getD_some]

theorem commitGrows (h : db.Durable top) (kept : db.replacesOn t = false) :
    (db.commit t).2.content = db.content ∨ ∃ r bytes, Record.encode r = .ok bytes ∧
      (db.commit t).2.content = db.content ++ bytes := by
  obtain ⟨log, rs, here, size, tells⟩ := h.log
  rcases commitFiled here with ⟨same, _⟩ | ⟨grown, next, grew, after, filed⟩
  · exact .inl (by rw [same])
  · rcases filed with ⟨rfl, _⟩ | ⟨replaced, _⟩
    · obtain ⟨bytes, coded, content, -⟩ := Journal.appended size grew
      refine .inr ⟨_, bytes, coded, ?_⟩
      rw [after, contentOf here, ← content]
      exact contentOf rfl
    · rw [kept] at replaced
      cases replaced

theorem checkpointKeeps (h : db.Durable top) (kept : db.checkpoint.1.isOk = false) : db.checkpoint.2 = db := by
  obtain ⟨log, rs, here, _⟩ := h.log
  rcases checkpointFiled here with ⟨same, _⟩ | ⟨_, _, done, _⟩
  · exact same
  · rw [kept] at done
    cases done

theorem blockContent (db : Database) (on : Bool) : (db.block on).content = db.content := by
  cases here : db.log with
  | none => simp [block, disk?, here]
  | some log => simp [block, disk?, here, withDisk, content, Disk.content]

end Database

namespace DatabaseLifecycle
variable {v : DatabaseLifecycle} {top k : Nat} {e : Event} {events : List Event}

def size (v : DatabaseLifecycle) : Nat := v.disk.content.size

def replaces (v : DatabaseLifecycle) : Event → Bool
  | .use .checkpoint => match v with
    | opened shared => shared.db.checkpoint.1.isOk
    | closed .. => false
  | .use (.commit who) => match v with
    | opened shared => (shared.underway who).any fun current => shared.db.replacesOn current.txn
    | closed .. => false
  | _ => false

def onlyAppends (v : DatabaseLifecycle) : List Event → Bool
  | [] => true
  | e :: events => !v.replaces e && (v.step e).onlyAppends events

theorem sharedGrows {shared : SharedDatabase} (h : shared.Durable top) {e : SharedDatabase.Event}
    (kept : (opened shared).replaces (.use e) = false) :
    (shared.step e).db.content = shared.db.content ∨ ∃ r bytes, Record.encode r = .ok bytes ∧
      (shared.step e).db.content = shared.db.content ++ bytes := by
  cases e with
  | begin who => exact .inl rfl
  | act who op =>
    simp only [SharedDatabase.step]
    split <;> exact .inl rfl
  | commit who =>
    simp only [replaces] at kept
    simp only [SharedDatabase.step]
    split
    · rename_i current here
      rw [here] at kept
      exact Database.commitGrows h.db kept
    · exact .inl rfl
  | leave who => exact .inl rfl
  | checkpoint => exact .inl (congrArg Database.content (Database.checkpointKeeps h.db kept))
  | block on => exact .inl (Database.blockContent shared.db on)

theorem stepGrows (h : v.Sound top) (kept : v.replaces e = false) :
    (v.step e).disk.content = v.disk.content ∨ ∃ r bytes, Record.encode r = .ok bytes ∧
      (v.step e).disk.content = v.disk.content ++ bytes := by
  cases e with
  | reopen policy =>
    refine .inl ?_
    obtain ⟨rs, tells⟩ := soundTells h
    obtain ⟨file, outcome⟩ := Database.openedTells (Journal.openHeld tells.held) tells policy
    rcases result : Database.openAt v.disk policy with ⟨found, disk⟩
    rw [result] at file outcome
    simp only [step, result]
    rcases outcome with ⟨db, rfl, held, _⟩ | ⟨rfl, _⟩
    · show (db.disk?.getD {}).content = _
      rw [held, Option.getD_some, file]
      rfl
    · cases file
      rfl
  | close => exact .inl rfl
  | use e =>
    cases v with
    | closed disk left => exact .inl rfl
    | opened shared => exact sharedGrows h kept

theorem runAppend (v : DatabaseLifecycle) (events later : List Event) :
    v.run (events ++ later) = (v.run events).run later :=
  List.foldl_append

theorem appendsSplit {later : List Event} (only : v.onlyAppends (events ++ later) = true) :
    v.onlyAppends events = true ∧ (v.run events).onlyAppends later = true := by
  induction events generalizing v with
  | nil => exact ⟨rfl, only⟩
  | cons e events ih =>
    simp only [List.cons_append, onlyAppends, Bool.and_eq_true] at only ⊢
    obtain ⟨kept, only⟩ := only
    exact ⟨⟨kept, (ih only).1⟩, (ih only).2⟩

theorem runGrows (h : v.Sound top) (fits : ∀ e ∈ events, e.NamesFit) (only : v.onlyAppends events = true) :
    ∃ more, (v.run events).disk.content = v.disk.content ++ more := by
  induction events generalizing v top with
  | nil => exact ⟨.empty, ByteArray.append_empty.symm⟩
  | cons e events ih =>
    simp only [onlyAppends, Bool.and_eq_true, Bool.not_eq_true'] at only
    obtain ⟨more, later⟩ := ih (soundStep h (fits e List.mem_cons_self))
      (fun x mem => fits x (List.mem_cons_of_mem _ mem)) only.2
    rcases stepGrows h only.1 with same | ⟨r, bytes, _, grown⟩
    · exact ⟨more, by rw [← same]; exact later⟩
    · exact ⟨bytes ++ more, by rw [← ByteArray.append_assoc, ← grown]; exact later⟩

theorem runWithin (low : v.size ≤ k) (events : List Event) : ∃ before after, events = before ++ after ∧
    (v.run before).size ≤ k ∧ ∀ e rest, after = e :: rest → k < ((v.run before).step e).size := by
  induction events generalizing v with
  | nil => exact ⟨[], [], rfl, low, nofun⟩
  | cons e events ih =>
    by_cases within : (v.step e).size ≤ k
    · obtain ⟨before, after, rfl, least, beyond⟩ := ih within
      exact ⟨e :: before, after, rfl, least, beyond⟩
    · refine ⟨[], e :: events, rfl, low, fun _ _ same => ?_⟩
      cases same
      exact Nat.lt_of_not_le within

theorem growsBeyond {before after more rest : List Event} (h : v.Sound top)
    (fits : ∀ e ∈ before ++ after, e.NamesFit) (only : v.onlyAppends (before ++ after) = true)
    (beyond : ∀ e rest, after = e :: rest → k < ((v.run before).step e).size) (split : after = more ++ rest)
    (goesOn : more ≠ []) : k < (v.run (before ++ more)).size := by
  cases more with
  | nil => exact absurd rfl goesOn
  | cons e more =>
    subst split
    obtain ⟨_, onlyLater⟩ := appendsSplit only
    have fitsLater : ∀ x ∈ e :: (more ++ rest), x.NamesFit := fun x mem => fits x (List.mem_append_right _ mem)
    simp only [List.cons_append, onlyAppends, Bool.and_eq_true] at onlyLater
    have sound := soundRun h fun x mem => fits x (List.mem_append_left _ mem)
    obtain ⟨grown, same⟩ := runGrows (soundStep sound (fitsLater e List.mem_cons_self))
      (fun x mem => fitsLater x (List.mem_cons_of_mem _ (List.mem_append_left _ mem))) (appendsSplit onlyLater.2).1
    have past := beyond e (more ++ rest) rfl
    have last : (v.run (before ++ e :: more)).size = ((v.run before).step e).size + grown.size := by
      rw [runAppend, size, size, ← ByteArray.size_append, ← same]
      rfl
    omega

theorem openShortened {whole : Disk} {before after : List Event} (h : v.Sound top)
    (fits : ∀ e ∈ before ++ after, e.NamesFit) (only : v.onlyAppends (before ++ after) = true)
    (content : whole.content = (v.run (before ++ after)).disk.content) (low : (v.run before).size ≤ k)
    (high : k ≤ whole.content.size) (beyond : ∀ e rest, after = e :: rest → k < ((v.run before).step e).size) :
    ∃ rs back, (v.run before).disk.Tells (v.run before).rows (top + begun before) rs ∧
      Journal.openAt (whole.suffer (.shorten k)) =
        (⟨{ whole.suffer (.shorten k) with file := some (v.run before).disk.content },
          (v.run before).disk.content.size⟩, ⟨rs, back⟩) := by
  have sound := soundRun h fun x mem => fits x (List.mem_append_left _ mem)
  obtain ⟨rs, tells⟩ := soundTells sound
  have left := Disk.contentShortened whole k
  refine ⟨rs, k - (v.run before).size, tells, ?_⟩
  cases after with
  | nil =>
    rw [List.append_nil] at content
    obtain rfl : k = (v.run before).size := Nat.le_antisymm (by rw [size, ← content]; exact high) low
    have all : (whole.suffer (.shorten (v.run before).size)).content = (v.run before).disk.content ++ .empty := by
      rw [left, content, size, ByteArray.extract_zero_size, ByteArray.append_empty]
    rw [Journal.openWritten tells.held.written tells.held.fits all (.inl rfl), Nat.sub_self]
    rfl
  | cons e rest =>
    obtain ⟨_, onlyLater⟩ := appendsSplit only
    simp only [onlyAppends, Bool.and_eq_true, Bool.not_eq_true'] at onlyLater
    have past := beyond e rest rfl
    obtain ⟨more, grown⟩ := runGrows (soundStep sound (fits e (List.mem_append_right _ List.mem_cons_self)))
      (fun x mem => fits x (List.mem_append_right _ (List.mem_cons_of_mem _ mem))) onlyLater.2
    rcases stepGrows sound onlyLater.1 with same | ⟨r, bytes, coded, added⟩
    · rw [size, same] at past
      exact absurd past (Nat.not_lt_of_le low)
    · have full : whole.content = (v.run before).disk.content ++ bytes ++ more := by
        rw [content, runAppend, ← added]
        exact grown
      rw [size, added, ByteArray.size_append] at past
      have torn : k - (v.run before).disk.content.size < bytes.size := by
        rw [size] at low
        omega
      refine Journal.openTorn tells.held coded torn ?_
      rw [left, full]
      exact Bytes.extractWithin low (Nat.le_of_lt past)

/-- A file that is cut anywhere behind the last snapshot is opened as it was at the last point that lies
within what is left of it, and cut back to that point; what follows is recovered with it. -/
theorem shortenedLosesWhole {earlier later : List Event} {k : Nat} (fits : ∀ e ∈ earlier ++ later, e.NamesFit)
    (only : (start.run earlier).onlyAppends later = true) (low : (start.run earlier).size ≤ k)
    (high : k ≤ (start.run (earlier ++ later)).size) :
    ∃ before after, later = before ++ after ∧
      let point := start.run (earlier ++ before)
      let whole := (start.run (earlier ++ later)).disk
      point.size ≤ k ∧ point.disk.content = whole.content.extract 0 point.size ∧
      (∀ more rest, after = more ++ rest → more ≠ [] → k < (start.run (earlier ++ before ++ more)).size) ∧
      ∀ policy, (Database.openAt (whole.suffer (.shorten k)) policy).2.content = point.disk.content ∧
        (whole.suffer (.shorten k)).Reopens point.rows (begun (earlier ++ before)) policy ∧
        ∀ db, (Database.openAt (whole.suffer (.shorten k)) policy).1 = .ok db →
          ∀ next, (∀ e ∈ next, e.NamesFit) →
            let v := (opened (.start db)).run next
            (Journal.openAt v.disk).2.truncated = 0 ∧
              ∀ again, v.disk.Reopens v.rows (begun (earlier ++ before) + begun next) again := by
  have fitsEarlier : ∀ e ∈ earlier, e.NamesFit := fun x mem => fits x (List.mem_append_left _ mem)
  have fitsLater : ∀ e ∈ later, e.NamesFit := fun x mem => fits x (List.mem_append_right _ mem)
  have sound := soundRun soundStart fitsEarlier
  have apart (events : List Event) : start.run (earlier ++ events) = (start.run earlier).run events := runAppend ..
  have count (events : List Event) : begun (earlier ++ events) = begun earlier + begun events := List.countP_append
  obtain ⟨before, after, rfl, least, beyond⟩ := runWithin low later
  refine ⟨before, after, rfl, ?_⟩
  simp only [List.append_assoc, apart, count] at high ⊢
  rw [Nat.zero_add] at sound
  obtain ⟨rs, back, tells, opened⟩ := openShortened sound fitsLater only rfl least high beyond
  obtain ⟨more, grown⟩ := runGrows (soundRun sound fun x mem => fitsLater x (List.mem_append_left _ mem))
    (fun x mem => fitsLater x (List.mem_append_right _ mem)) (appendsSplit only).2
  refine ⟨least, ?_, fun _ _ split goesOn => growsBeyond sound fitsLater only beyond split goesOn, fun policy => ?_⟩
  · rw [runAppend, grown]
    exact (ByteArray.extract_append_eq_left rfl).symm
  · obtain ⟨file, outcome⟩ := Database.openedTells opened tells policy
    refine ⟨by rw [file]; rfl, Database.reopens opened tells policy, fun db ok next fitsNext => ?_⟩
    rcases outcome with ⟨found, same, _, durable, _⟩ | ⟨spent, _⟩
    · cases ok.symm.trans same
      have started : Sound _ (.opened (.start db)) := SharedDatabase.durableStart durable
      have soundNext := soundRun started fitsNext
      exact ⟨(reopensSound soundNext .never).1, fun again => (reopensSound soundNext again).2⟩
    · cases ok.symm.trans spent

def writing (row : RowId) (value : String) : List Event :=
  [.use (.begin 0), .use (.act 0 (.put row (Bytes.ofText value))), .use (.commit 0)]

theorem shortenedLosesLastRecord :
    let row : RowId := ⟨"t", Bytes.ofText "k"⟩
    let earlier := .reopen .never :: writing row "u" ++ [.use .checkpoint]
    let later := writing row "v" ++ writing row "w"
    (∀ e ∈ earlier ++ later, e.NamesFit) ∧ (start.run earlier).onlyAppends later = true ∧
      (start.run earlier).size ≤ 90 ∧ 90 ≤ (start.run (earlier ++ later)).size ∧
      ∃ db, (Database.openAt ((start.run (earlier ++ later)).disk.suffer (.shorten 90)) .never).1 = .ok db ∧
        (db.state.table "t").entries = [(Bytes.ofText "k", Bytes.ofText "v")] := by
  intro row earlier later
  have fits : ∀ e ∈ earlier ++ later, e.NamesFit := by decide
  have only : (start.run earlier).onlyAppends later = true := by decide +kernel
  have low : (start.run earlier).size ≤ 90 := by decide +kernel
  have high : 90 ≤ (start.run (earlier ++ later)).size := by decide +kernel
  have points : ∀ n ≤ later.length, (start.run (earlier ++ later.take n)).size ≤ 90 →
      (n < later.length → 90 < (start.run (earlier ++ later.take (n + 1))).size) →
      ((start.run (earlier ++ later.take n)).rows.table "t").entries = [(Bytes.ofText "k", Bytes.ofText "v")] ∧
        begun (earlier ++ later.take n) ≤ 3 := by
    decide +kernel
  obtain ⟨before, after, split, least, _, beyond, cut⟩ := shortenedLosesWhole fits only low high
  have taken : before = later.take before.length := by rw [split, List.take_left]
  obtain ⟨left, few⟩ := points before.length (by rw [split, List.length_append]; omega)
    (by rw [← taken]; exact least) fun inside => by
      cases after with
      | nil => rw [split, List.append_nil] at inside; exact absurd inside (Nat.lt_irrefl _)
      | cons e rest =>
        have next : later.take (before.length + 1) = before ++ [e] := by
          rw [split, List.take_length_add_append]
          rfl
        rw [next, ← List.append_assoc]
        exact beyond [e] rest rfl (by simp)
  rw [← taken] at left few
  refine ⟨fits, only, low, high, ?_⟩
  rcases (cut .never).2.1 with ⟨db, ok, same⟩ | ⟨_, spent⟩
  · exact ⟨db, ok, by rw [same, left]⟩
  · omega

end DatabaseLifecycle
end Teller
