import Teller.Json.Codec
import Teller.Proofs.Json.Numbers
import Teller.Proofs.Json.Strings

/-! Codecs that read back what they write, whatever follows a value in a text. `nested` is how many lists
and objects are open inside a value at most. -/
namespace Teller.Json
open Decimal (isDigit)
variable {τ : Type}

structure Lossless (nested : Nat) (c : Codec τ) : Prop where
  starts : ∀ v, ∃ b rest, c.write v = b :: rest ∧ isSpace b = false ∧ b ≠ 93
  reads : ∀ v {depth rest}, nested < depth → Closed rest → c.read depth (c.write v ++ rest) = .ok (v, rest)

theorem skipNone {b : UInt8} (h : isSpace b = false) (rest : List UInt8) : skipSpace (b :: rest) = b :: rest := by
  simp [skipSpace, h]

theorem losslessText {expected : String} {write : τ → String} {check : String → Except Misfit τ}
    (back : ∀ v, check (write v) = .ok v) : Lossless 0 (Codec.ofText expected write check) where
  starts v := ⟨34, _, rfl, by decide, by decide⟩
  reads v depth rest _ _ := by
    have text : (Codec.ofText expected write check).write v ++ rest =
        34 :: ((utf8 (write v)).flatMap writeByte ++ 34 :: rest) := by
      simp [Codec.ofText, writeString]
    rw [text]
    simp only [Codec.ofText, skipNone (show isSpace 34 = false by decide)]
    rw [readStringWritten]
    simp [judge, bind, Except.bind, pure, Except.pure, back]

theorem seenWhole {n : Nat} (fits : n ≤ maxNatural) : (whole true n).seen = .integer n := by
  have small : n < UInt64.size := by unfold maxNatural UInt64.size at *; omega
  simp only [whole, if_true, Number.seen, Nat.toUInt64_eq, UInt64.toNat_ofNat', Seen.integer.injEq]
  rw [Nat.mod_eq_of_lt small]

theorem seenNegative {n : Nat} (fits : n + 1 ≤ 0x8000000000000000) :
    (whole false (n + 1)).seen = .integer (.negSucc n) := by
  have inside : 0 < n + 1 ∧ n + 1 ≤ 0x8000000000000000 := ⟨Nat.succ_pos n, fits⟩
  simp only [whole, Bool.false_eq_true, if_false, inside, and_self, if_true, Number.seen]
  rw [Int64.toInt_ofInt_of_le (by omega) (by omega)]
  rfl

theorem digitPlain {b : UInt8} (h : isDigit b = true) :
    isSpace b = false ∧ b ≠ 93 ∧ b ≠ 45 ∧ b ≠ 110 := by
  simp only [isDigit, Bool.and_eq_true, decide_eq_true_eq, UInt8.le_iff_toNat_le, UInt8.reduceToNat] at h
  refine ⟨?_, ?_, ?_, ?_⟩
  · simp only [isSpace, Bool.or_eq_false_iff, decide_eq_false_iff_not]
    refine ⟨⟨⟨?_, ?_⟩, ?_⟩, ?_⟩ <;> rintro rfl <;> simp at h
  all_goals rintro rfl; simp at h

theorem ofIntHead (i : Int) : ∃ b ds, Decimal.ofInt i = b :: ds ∧ (b = 45 ∨ isDigit b = true) := by
  cases i with
  | negSucc n => exact ⟨45, _, rfl, .inl rfl⟩
  | ofNat n =>
    obtain ⟨b, ds, same, digit, _⟩ := Decimal.headOfNat n
    exact ⟨b, ds, same, .inr digit⟩

theorem losslessInteger {expected : String} {write : τ → Int} {check : Number → Except Misfit τ}
    (fits : ∀ v, -0x8000000000000000 ≤ write v ∧ write v ≤ maxNatural)
    (back : ∀ v n, n.seen = .integer (write v) → check n = .ok v) :
    Lossless 0 (Codec.ofInteger expected write check) where
  starts v := by
    obtain ⟨b, ds, same, head⟩ := ofIntHead (write v)
    refine ⟨b, ds, same, ?_⟩
    rcases head with rfl | digit
    · decide
    · exact ⟨(digitPlain digit).1, (digitPlain digit).2.1⟩
  reads v depth rest _ closed := by
    obtain ⟨low, high⟩ := fits v
    have back := back v
    show (Codec.ofInteger expected write check).read depth (Decimal.ofInt (write v) ++ rest) = _
    generalize write v = i at low high back
    cases i with
    | ofNat n =>
      have fits : n ≤ maxNatural := Int.ofNat_le.mp high
      obtain ⟨b, ds, same, digit, _⟩ := Decimal.headOfNat n
      obtain ⟨space, _, minus, _⟩ := digitPlain digit
      have read := readWrittenNat fits true closed
      rw [same] at read
      simp only [Decimal.ofInt, same, List.cons_append, Codec.ofInteger, skipNone space, minus, if_false, digit,
        if_true] at read ⊢
      rw [read]
      simp [judge, bind, Except.bind, pure, Except.pure, back _ (seenWhole fits)]
    | negSucc n =>
      have fits : n + 1 ≤ 0x8000000000000000 := by omega
      have read := readWrittenNat (show n + 1 ≤ maxNatural by unfold maxNatural UInt64.size; omega) false closed
      simp only [Decimal.ofInt, List.cons_append, Codec.ofInteger,
        skipNone (show isSpace 45 = false by decide), if_true]
      rw [read]
      simp [judge, bind, Except.bind, pure, Except.pure, back _ (seenNegative fits)]

theorem losslessRequired {nested : Nat} {c : Codec τ} (h : Lossless nested c) : Lossless nested c.required :=
  ⟨h.starts, h.reads⟩

theorem Lossless.mono {m n : Nat} {c : Codec τ} (h : Lossless m c) (le : m ≤ n) : Lossless n c :=
  ⟨h.starts, fun v _ _ deep closed => h.reads v (Nat.lt_of_le_of_lt le deep) closed⟩

theorem losslessOption {nested : Nat} {c : Codec τ} (h : Lossless nested c)
    (apart : ∀ v b rest, c.write v = b :: rest → b ≠ 110) : Lossless nested c.option where
  starts
    | none => ⟨110, _, rfl, by decide, by decide⟩
    | some v => h.starts v
  reads v depth rest deep closed := by
    cases v with
    | none =>
      show c.option.read depth (110 :: 117 :: 108 :: 108 :: rest) = _
      simp [Codec.option, skipNone (show isSpace 110 = false by decide), readWord, Except.map]
    | some v =>
      have read := h.reads v deep closed
      obtain ⟨b, ds, same, space, _⟩ := h.starts v
      show c.option.read depth (c.write v ++ rest) = _
      rw [same] at read ⊢
      simp only [Codec.option, List.cons_append, skipNone space]
      split
      · rename_i clash
        cases clash
        exact absurd rfl (apart v 110 ds same)
      · rw [← List.cons_append, read]
        rfl

theorem losslessOptionInteger {expected : String} {write : τ → Int} {check : Number → Except Misfit τ}
    (h : Lossless 0 (Codec.ofInteger expected write check)) :
    Lossless 0 (Codec.ofInteger expected write check).option := by
  refine losslessOption h fun v b rest same => ?_
  obtain ⟨b', ds, same', head⟩ := ofIntHead (write v)
  cases same'.symm.trans same
  rcases head with rfl | digit
  · decide
  · exact (digitPlain digit).2.2.2

def trail : List (List UInt8) → List UInt8
  | [] => []
  | a :: rest => 44 :: a ++ trail rest

theorem separateTrail (a : List UInt8) (rest : List (List UInt8)) : separate (a :: rest) = a ++ trail rest := by
  induction rest generalizing a with
  | nil => simp [separate, trail]
  | cons b rest ih => rw [separate.eq_3 _ _ (by simp), ih]; simp [trail]

theorem closedTrail (items : List (List UInt8)) {b : UInt8} (close : b = 93 ∨ b = 125) (rest : List UInt8) :
    Closed (trail items ++ b :: rest) := by
  cases items with
  | nil => exact .inr close
  | cons a items => exact .inl rfl

theorem nextWritten {nested : Nat} {c : Codec τ} (h : Lossless nested c) (v : τ) (rest : List UInt8) :
    nextElement false (44 :: (c.write v ++ rest)) = .ok (true, c.write v ++ rest) ∧
      nextElement true (c.write v ++ rest) = .ok (true, c.write v ++ rest) := by
  obtain ⟨b, ds, same, space, close⟩ := h.starts v
  constructor
  all_goals
    simp [nextElement, same, skipNone space, skipNone (show isSpace 44 = false by decide), close]

theorem elementsWritten {nested : Nat} {c : Codec τ} (h : Lossless nested c) (items : List τ)
    {depth steps : Nat} (deep : nested < depth) (enough : items.length < steps) (rest : List UInt8) :
    c.elements depth steps false (trail (items.map c.write) ++ 93 :: rest) = .ok (items, 93 :: rest) := by
  induction items generalizing steps with
  | nil =>
    cases steps with
    | zero => cases enough
    | succ steps => rfl
  | cons v items ih =>
    cases steps with
    | zero => cases enough
    | succ steps =>
      have read := h.reads v deep (closedTrail (items.map c.write) (.inl rfl) rest)
      rw [List.map_cons, trail, List.cons_append, List.cons_append, List.append_assoc, Codec.elements,
        (nextWritten h v _).1]
      simp only [bind, Except.bind, read, ih (Nat.lt_of_succ_lt_succ enough)]
      rfl

theorem trailLength (items : List (List UInt8)) : items.length ≤ (trail items).length := by
  induction items with
  | nil => exact Nat.le_refl 0
  | cons a items ih =>
    simp only [trail, List.cons_append, List.length_cons, List.length_append]
    omega

theorem separateLength {items : List (List UInt8)} (full : ∀ a ∈ items, a ≠ []) :
    items.length ≤ (separate items).length := by
  cases items with
  | nil => exact Nat.le_refl 0
  | cons a items =>
    have := trailLength items
    have := List.length_pos_iff.mpr (full a List.mem_cons_self)
    rw [separateTrail, List.length_cons, List.length_append]
    omega

theorem losslessList {nested : Nat} {c : Codec τ} (h : Lossless nested c) : Lossless (nested + 1) c.list where
  starts _ := ⟨91, _, rfl, by decide, by decide⟩
  reads items depth rest deep _ := by
    have text : c.list.write items ++ rest = 91 :: (separate (items.map c.write) ++ 93 :: rest) := by
      simp [Codec.list]
    have enough : items.length < (separate (items.map c.write) ++ 93 :: rest).length + 1 := by
      have : (items.map c.write).length ≤ (separate (items.map c.write)).length := separateLength fun a mem => by
        obtain ⟨v, _, rfl⟩ := List.mem_map.mp mem
        obtain ⟨b, ds, same, _⟩ := h.starts v
        simp [same]
      simp only [List.length_map, List.length_append, List.length_cons] at this ⊢
      omega
    have found : c.elements (depth - 1) ((separate (items.map c.write) ++ 93 :: rest).length + 1) true
        (separate (items.map c.write) ++ 93 :: rest) = .ok (items, 93 :: rest) := by
      generalize (separate (items.map c.write) ++ 93 :: rest).length + 1 = steps at enough
      cases items with
      | nil =>
        cases steps with
        | zero => cases enough
        | succ steps => rfl
      | cons v items =>
        have written := elementsWritten h (v :: items) (show nested < depth - 1 by omega) enough rest
        cases steps with
        | zero => cases enough
        | succ steps =>
          rw [List.map_cons, trail, List.cons_append, List.cons_append, List.append_assoc, Codec.elements,
            (nextWritten h v _).1] at written
          rw [List.map_cons, separateTrail, List.append_assoc, Codec.elements, (nextWritten h v _).2]
          exact written
    rw [text]
    simp only [Codec.list, skipNone (show isSpace 91 = false by decide), if_neg (show ¬ depth ≤ 1 by omega), found]
    rfl

namespace Fields
variable {ts : List Type}

def Lossless (nested : Nat) : {ts : List Type} → Fields ts → Prop
  | _, nil => True
  | _, cons name codec rest => Json.Lossless nested codec ∧ name ∉ rest.names ∧ rest.Lossless nested

def draft {τ : Type} {ts : List Type} (held : Option τ) (more : Draft ts) : Draft (τ :: ts) := (held, more)

def filled : {ts : List Type} → Fields ts → Values ts → Draft ts
  | _, nil, () => ()
  | _, cons _ _ rest, (v, more) => (some v, rest.filled more)

theorem finishFilled (fields : Fields ts) (values : Values ts) :
    fields.finish (fields.filled values) = .ok values := by
  induction fields with
  | nil => rfl
  | cons name codec rest ih =>
    obtain ⟨v, more⟩ := values
    simp only [filled, finish, Option.some_or, ih, bind, Except.bind]
    rfl

theorem writeLength (fields : Fields ts) (values : Values ts) : (fields.write values).length = ts.length := by
  induction fields with
  | nil => rfl
  | cons name codec rest ih =>
    obtain ⟨v, more⟩ := values
    rw [write, List.length_cons, ih, List.length_cons]

theorem writeFull (fields : Fields ts) (values : Values ts) : ∀ a ∈ fields.write values, a ≠ [] := by
  induction fields with
  | nil => exact fun a mem => by cases mem
  | cons name codec rest ih =>
    obtain ⟨v, more⟩ := values
    intro a mem
    rcases List.mem_cons.mp mem with rfl | mem
    · simp [writeString]
    · exact ih more a mem

theorem nextKeyWritten (name : String) (rest : List UInt8) :
    nextKey false (44 :: writeString name ++ rest) = .ok (some name, rest) ∧
      nextKey true (writeString name ++ rest) = .ok (some name, rest) := by
  have read := readStringWritten name rest
  have text : writeString name ++ rest = 34 :: ((utf8 name).flatMap writeByte ++ 34 :: rest) := by
    simp [writeString]
  rw [List.cons_append, text]
  constructor
  all_goals
    simp [nextKey, nextMember, skipNone (show isSpace 44 = false by decide),
      skipNone (show isSpace 34 = false by decide), bind, Except.bind, pure, Except.pure, read]

theorem membersWritten {us : List Type} (whole : Fields us) {nested depth : Nat} (deep : nested < depth)
    (fields : Fields ts) (lossless : fields.Lossless nested) (values : Values ts) (lift : Draft ts → Draft us)
    (inside : ∀ key ∈ fields.names, ∀ draft text, whole.assign depth key (lift draft) text =
      (fields.assign depth key draft text).map fun r => (lift r.1, r.2))
    {steps : Nat} (enough : ts.length < steps) (rest : List UInt8) :
    whole.readMembers depth steps false (lift fields.blank) (trail (fields.write values) ++ 125 :: rest) =
      .ok (lift (fields.filled values), 125 :: rest) := by
  induction fields generalizing steps with
  | nil =>
    cases steps with
    | zero => cases enough
    | succ steps => rfl
  | cons name codec more ih =>
    obtain ⟨v, values⟩ := values
    obtain ⟨codec', apart, lossless⟩ := lossless
    cases steps with
    | zero => cases enough
    | succ steps =>
      have text : trail ((cons name codec more).write (v, values)) ++ 125 :: rest =
          44 :: writeString name ++ (58 :: codec.write v ++ (trail (more.write values) ++ 125 :: rest)) := by
        simp [write, trail]
      have read := codec'.reads v deep (closedTrail (more.write values) (.inr rfl) rest)
      have assigned : whole.assign depth name (lift (draft none more.blank))
          (58 :: codec.write v ++ (trail (more.write values) ++ 125 :: rest)) =
            .ok (lift (draft (some v) more.blank), trail (more.write values) ++ 125 :: rest) := by
        rw [inside name List.mem_cons_self]
        simp only [assign, draft, if_true, Option.isSome_none, Bool.false_eq_true, if_false, List.cons_append,
          readColon, skipNone (show isSpace 58 = false by decide), bind, Except.bind, read]
        rfl
      have later := ih lossless values (fun found => lift (draft (some v) found)) (by
        intro key mem found text
        have other : name ≠ key := fun same => apart (same ▸ mem)
        rw [inside key (List.mem_cons_of_mem _ mem)]
        simp only [assign, draft, if_neg other]
        cases more.assign depth key found text <;> rfl) (Nat.lt_of_succ_lt_succ enough)
      rw [text, readMembers, (nextKeyWritten name _).1]
      have start : (cons name codec more).blank = draft none more.blank := rfl
      simp only [bind, Except.bind, start, assigned, later]
      rfl

theorem readObjectWritten {nested depth : Nat} (deep : nested < depth) (fields : Fields ts)
    (lossless : fields.Lossless nested) (values : Values ts) (rest : List UInt8) :
    fields.readObject depth (separate (fields.write values) ++ 125 :: rest) = .ok (values, 125 :: rest) := by
  have enough : ts.length < (separate (fields.write values) ++ 125 :: rest).length + 1 := by
    have := separateLength (writeFull fields values)
    rw [writeLength] at this
    rw [List.length_append]
    omega
  have found : fields.readMembers depth ((separate (fields.write values) ++ 125 :: rest).length + 1) true
      fields.blank (separate (fields.write values) ++ 125 :: rest) =
        .ok (fields.filled values, 125 :: rest) := by
    generalize (separate (fields.write values) ++ 125 :: rest).length + 1 = steps at enough
    have written := membersWritten fields deep fields lossless values id
      (fun key _ found text => by
        show fields.assign depth key found text = _
        cases fields.assign depth key found text <;> rfl) enough rest
    cases steps with
    | zero => cases enough
    | succ steps =>
      cases fields with
      | nil => exact written
      | cons name codec more =>
        obtain ⟨v, values⟩ := values
        have text (tail : List UInt8) : (writeString name ++ 58 :: codec.write v) ++ tail =
            writeString name ++ (58 :: codec.write v ++ tail) := by simp
        rw [write, trail, List.cons_append, List.cons_append, List.append_assoc, text, ← List.cons_append,
          readMembers, (nextKeyWritten name _).1] at written
        rw [write, separateTrail, List.append_assoc, text, readMembers, (nextKeyWritten name _).2]
        exact written
  rw [readObject, found]
  simp only [bind, Except.bind, finishFilled]
  rfl

end Fields

theorem losslessFields {ts : List Type} {title : String} {fields : Fields ts} {make : Values ts → τ}
    {parts : τ → Values ts} {nested : Nat} (lossless : fields.Lossless nested)
    (back : ∀ v, make (parts v) = v) : Lossless (nested + 1) (Codec.ofFields title fields make parts) where
  starts _ := ⟨123, _, rfl, by decide, by decide⟩
  reads v depth rest deep _ := by
    have text : (Codec.ofFields title fields make parts).write v ++ rest =
        123 :: (separate (fields.write (parts v)) ++ 125 :: rest) := by
      simp [Codec.ofFields, Fields.writeObject]
    rw [text]
    simp only [Codec.ofFields, skipNone (show isSpace 123 = false by decide),
      if_neg (show ¬ depth ≤ 1 by omega),
      Fields.readObjectWritten (show nested < depth - 1 by omega) fields lossless (parts v) rest]
    simp [Codec.closeWith, endObject, skipNone (show isSpace 125 = false by decide), Except.map, back]

theorem decodeEncode {nested : Nat} {c : Codec τ} (h : Lossless nested c) (deep : nested < depthLimit) (v : τ) :
    decode c (encode c v).data.toList = .ok v := by
  have read := h.reads v deep (show Closed [] from trivial)
  rw [List.append_nil] at read
  rw [encode, List.toList_toArray, decode, read]
  rfl

theorem losslessString : Lossless 0 Codec.string := losslessText fun _ => rfl

theorem losslessUint8 : Lossless 0 Codec.uint8 := by
  refine losslessInteger (fun v => ?_) fun v n seen => ?_
  · have := v.toNat_lt
    unfold maxNatural UInt64.size
    omega
  · have := v.toNat_lt
    simp only [Codec.bounded, seen]
    rw [if_pos (by omega)]
    simp

theorem losslessUint32 : Lossless 0 Codec.uint32 := by
  refine losslessInteger (fun v => ?_) fun v n seen => ?_
  · have := v.toNat_lt
    unfold maxNatural UInt64.size
    omega
  · have := v.toNat_lt
    simp only [Codec.bounded, seen]
    rw [if_pos (by omega)]
    simp

theorem losslessInt64 : Lossless 0 Codec.int64 := by
  refine losslessInteger (fun v => ?_) fun v n seen => ?_
  · have := v.le_toInt
    have := v.toInt_lt
    unfold maxNatural UInt64.size
    omega
  · have := v.le_toInt
    have := v.toInt_lt
    simp only [Codec.bounded, seen]
    rw [if_pos (by omega)]
    simp

end Teller.Json
