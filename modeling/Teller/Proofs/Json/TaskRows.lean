import Teller.Proofs.Json.Rows
import Teller.Task

/-! A queue's rows are read back as they were written. The state of a task is an object that says of what
kind it is, and its other members are kept as values until that is known. -/
namespace Teller

namespace Json
open Decimal (isDigit)
variable {τ : Type}

structure Keepable (c : Codec τ) (item : τ → Json) : Prop where
  reads : ∀ v {steps depth rest}, Closed rest →
    readValue (steps + 1) depth (c.write v ++ rest) = .ok (item v, rest)
  back : ∀ v, c.ofValue (item v) = .ok v

theorem keepableText {expected : String} {write : τ → String} {check : String → Except Misfit τ}
    (back : ∀ v, check (write v) = .ok v) :
    Keepable (Codec.ofText expected write check) fun v => .string (write v) where
  reads v steps depth rest _ := by
    have text : (Codec.ofText expected write check).write v ++ rest =
        34 :: ((utf8 (write v)).flatMap writeByte ++ 34 :: rest) := by
      simp [Codec.ofText, writeString]
    rw [text]
    simp only [readValue, skipNone (show isSpace 34 = false by decide), readStringWritten]
    rfl
  back := back

def wholeOf : Int → Number
  | .ofNat n => whole true n
  | .negSucc n => whole false (n + 1)

theorem seenWholeOf {i : Int} (low : -0x8000000000000000 ≤ i) (high : i ≤ maxNatural) :
    (wholeOf i).seen = .integer i := by
  cases i with
  | ofNat n => exact seenWhole (Int.ofNat_le.mp high)
  | negSucc n => exact seenNegative (by omega)

theorem keepableInteger {expected : String} {write : τ → Int} {check : Number → Except Misfit τ}
    (fits : ∀ v, -0x8000000000000000 ≤ write v ∧ write v ≤ maxNatural)
    (back : ∀ v n, n.seen = .integer (write v) → check n = .ok v) :
    Keepable (Codec.ofInteger expected write check) fun v => .number (wholeOf (write v)) where
  reads v steps depth rest closed := by
    obtain ⟨low, high⟩ := fits v
    show readValue (steps + 1) depth (Decimal.ofInt (write v) ++ rest) = _
    generalize write v = i at low high
    cases i with
    | ofNat n =>
      have fits : n ≤ maxNatural := Int.ofNat_le.mp high
      obtain ⟨b, ds, same, digit, _⟩ := Decimal.headOfNat n
      obtain ⟨space, _, minus, null⟩ := digitPlain digit
      have notTrue : b ≠ 116 := by rintro rfl; cases digit
      have notFalse : b ≠ 102 := by rintro rfl; cases digit
      have read := readWrittenNat fits true closed
      rw [same] at read
      simp only [Decimal.ofInt, same, List.cons_append, readValue, skipNone space, null, notTrue, notFalse, minus,
        if_false, digit, if_true] at read ⊢
      rw [read]
      rfl
    | negSucc n =>
      have read := readWrittenNat (show n + 1 ≤ maxNatural by unfold maxNatural UInt64.size; omega) false closed
      simp only [Decimal.ofInt, List.cons_append, readValue, skipNone (show isSpace 45 = false by decide),
        show ¬ (45 : UInt8) = 110 by decide, show ¬ (45 : UInt8) = 116 by decide,
        show ¬ (45 : UInt8) = 102 by decide, if_false, if_true]
      rw [read]
      rfl
  back v := back v _ (seenWholeOf (fits v).1 (fits v).2)

end Json

theorem Moment.keepable : Json.Keepable codec fun m => .number (Json.wholeOf m.ms) :=
  Json.keepableInteger fits ofSeen

theorem Uuid.keepable : Json.Keepable Json.Codec.uuid fun u => .string u.toText :=
  Json.keepableText fun u => by rw [Uuid.parseText]; rfl

namespace TaskState
open Json (Closed trail writeString)

theorem readNameWritten {name : String} {kind : Kind} (known : names.lookup name = some kind) (rest : List UInt8) :
    Json.Codec.readName names (writeString name ++ rest) = .ok (kind, rest) := by
  have text : writeString name ++ rest = 34 :: ((Json.utf8 name).flatMap Json.writeByte ++ 34 :: rest) := by
    simp [writeString]
  rw [text]
  simp only [Json.Codec.readName, Json.skipNone (show Json.isSpace 34 = false by decide), Json.readStringWritten]
  simp [Json.judge, Json.Codec.choose, known, bind, Except.bind, pure, Except.pure]

theorem readColonWritten (rest : List UInt8) : Json.readColon (58 :: rest) = .ok rest := by
  simp [Json.readColon, Json.skipNone (show Json.isSpace 58 = false by decide)]

theorem readTagWritten {name : String} {kind : Kind} (known : names.lookup name = some kind)
    (depth steps : Nat) (rest : List UInt8) :
    readMembers depth (steps + 1) true none [] (writeString tag ++ 58 :: (writeString name ++ rest)) =
      readMembers depth steps false (some kind) [] rest := by
  rw [readMembers, (Json.Fields.nextKeyWritten tag _).2]
  simp only [bind, Except.bind, if_true, Option.isSome_none, Bool.false_eq_true, if_false, readColonWritten,
    readNameWritten known]

theorem readMemberWritten {τ : Type} {c : Json.Codec τ} {item : τ → Json} (keep : Json.Keepable c item) (v : τ)
    (name : String) (other : name ≠ tag) (depth steps : Nat) (kind : Kind) (held : List (String × Json))
    {rest : List UInt8} (closed : Closed rest) :
    readMembers depth (steps + 1) false (some kind) held
        (44 :: (writeString name ++ 58 :: (c.write v ++ rest))) =
      readMembers depth steps false (some kind) ((name, item v) :: held) rest := by
  have next : Json.nextKey false (44 :: (writeString name ++ 58 :: (c.write v ++ rest))) =
      .ok (some name, 58 :: (c.write v ++ rest)) := (Json.Fields.nextKeyWritten name _).1
  have enough : Json.stepsFor (c.write v ++ rest) = (2 * (c.write v ++ rest).length + 1) + 1 := rfl
  rw [readMembers, next]
  simp only [bind, Except.bind, other, if_false, readColonWritten, enough, keep.reads v closed]

theorem readEnd (depth steps : Nat) (kind : Kind) (held : List (String × Json)) (rest : List UInt8) :
    readMembers depth (steps + 1) false (some kind) held (125 :: rest) =
      .ok ((kind, .members held.reverse), 125 :: rest) := by
  simp [readMembers, Json.nextKey, Json.nextMember, Json.skipNone (show Json.isSpace 125 = false by decide),
    bind, Except.bind, pure, Except.pure]

theorem readObject {s : TaskState} {name : String} {members : List (List UInt8)} (kind : Kind)
    (held : List (String × Json)) (text : s.write = written name members)
    (inside : ∀ depth steps rest, readMembers depth (steps + 4) true none []
      (writeString tag ++ 58 :: (writeString name ++ (trail members ++ 125 :: rest))) =
        .ok ((kind, .members held), 125 :: rest)) (fit : ofRest kind (.members held) = .ok s)
    {depth : Nat} (deep : 1 < depth) (rest : List UInt8) : codec.read depth (s.write ++ rest) = .ok (s, rest) := by
  have whole : s.write ++ rest =
      123 :: (writeString tag ++ 58 :: (writeString name ++ (trail members ++ 125 :: rest))) := by
    rw [text, written, Json.separateTrail]
    simp
  obtain ⟨steps, enough⟩ : ∃ steps, (writeString tag ++ 58 :: (writeString name ++ (trail members ++
      125 :: rest))).length + 1 = steps + 4 := by
    refine ⟨_, (Nat.sub_add_cancel ?_).symm⟩
    simp only [writeString, List.length_append, List.length_cons]
    omega
  rw [whole, show codec.read = TaskState.read from rfl]
  simp only [TaskState.read, Json.skipNone (show Json.isSpace 123 = false by decide), if_neg (show ¬ depth ≤ 1 by omega),
    enough, inside]
  simp [Json.Codec.closeWith, Json.endObject, Json.skipNone (show Json.isSpace 125 = false by decide),
    Except.map, judge, bind, Except.bind, fit, pure, Except.pure]

theorem lossless : Json.Lossless 1 codec where
  starts s := by cases s <;> exact ⟨123, _, rfl, by decide, by decide⟩
  reads s depth rest deep _ := by
    cases s with
    | pending =>
      refine readObject (s := .pending) .pending [] rfl (fun depth steps rest => ?_) rfl deep rest
      rw [readTagWritten rfl]
      exact readEnd ..
    | active leaseId expiresAt =>
      refine readObject (s := .active leaseId expiresAt) .active [("lease_id", .string leaseId.toText),
        ("expires_at", .number (Json.wholeOf expiresAt.ms))] rfl (fun depth steps rest => ?_) ?_ deep rest
      · have behind : Closed (44 :: (writeString "expires_at" ++ 58 :: (Moment.codec.write expiresAt ++
            125 :: rest))) := .inl rfl
        have last : Closed (125 :: rest) := .inr (.inr rfl)
        simp only [activeFields, Json.Fields.write, trail, List.cons_append, List.append_assoc, List.nil_append]
        rw [readTagWritten rfl, readMemberWritten Uuid.keepable leaseId "lease_id" (by decide) _ _ _ _ behind,
          readMemberWritten Moment.keepable expiresAt "expires_at" (by decide) _ _ _ _ last]
        exact readEnd ..
      · have id := Uuid.keepable.back leaseId
        have date := Moment.keepable.back expiresAt
        have first : activeFields.assignValue "lease_id" (.string leaseId.toText) activeFields.blank =
            .ok (some leaseId, none, ()) := by
          simp [activeFields, Json.Fields.blank, Json.Fields.assignValue, id, bind, Except.bind, pure, Except.pure]
          rfl
        have second : activeFields.assignValue "expires_at" (.number (Json.wholeOf expiresAt.ms))
            (some leaseId, none, ()) = .ok (some leaseId, some expiresAt, ()) := by
          simp [activeFields, Json.Fields.assignValue, date, bind, Except.bind, pure, Except.pure]
          rfl
        simp only [ofRest, Rest.fit, Json.Fields.ofMembers, List.foldlM_cons, List.foldlM_nil, first]
        simp only [bind, Except.bind, second]
        rfl
    | archived archivedAt =>
      refine readObject (s := .archived archivedAt) .archived [("archived_at",
        .number (Json.wholeOf archivedAt.ms))] rfl (fun depth steps rest => ?_) ?_ deep rest
      · have last : Closed (125 :: rest) := .inr (.inr rfl)
        simp only [archivedFields, Json.Fields.write, trail, List.cons_append, List.append_assoc, List.nil_append]
        rw [readTagWritten rfl,
          readMemberWritten Moment.keepable archivedAt "archived_at" (by decide) _ _ _ _ last]
        exact readEnd ..
      · have date := Moment.keepable.back archivedAt
        have only : archivedFields.assignValue "archived_at" (.number (Json.wholeOf archivedAt.ms))
            archivedFields.blank = .ok (some archivedAt, ()) := by
          simp [archivedFields, Json.Fields.blank, Json.Fields.assignValue, date, bind, Except.bind, pure, Except.pure]
          rfl
        simp only [ofRest, Rest.fit, Json.Fields.ofMembers, List.foldlM_cons, List.foldlM_nil, only]
        rfl

end TaskState

namespace TaskRecord

theorem lossless : Json.Lossless 2 codec := by
  refine Json.losslessFields ?_ fun _ => rfl
  have text : Json.Lossless 0 Json.Codec.string.option :=
    Json.losslessOption Json.losslessString fun v b rest same => by cases same; decide
  exact ⟨Uuid.lossless.mono (by decide), by decide, Json.losslessString.mono (by decide), by decide,
    Json.losslessList Json.losslessUint8, by decide, Json.losslessString.mono (by decide), by decide,
    Json.losslessUint32.mono (by decide), by decide, Moment.lossless.mono (by decide), by decide,
    Json.losslessUint32.mono (by decide), by decide, TaskState.lossless, by decide, text.mono (by decide), by decide,
    Moment.lossless.mono (by decide), by decide, trivial⟩

theorem decodeEncode (r : TaskRecord) :
    Json.decode codec (Json.encode codec r).data.toList = .ok r :=
  Json.decodeEncode lossless (by decide) r

end TaskRecord
end Teller
