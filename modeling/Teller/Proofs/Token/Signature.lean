import Teller.Proofs.Json.Skipping
import Teller.Proofs.Token.Base64
import Teller.Token.Signed

/-! What was signed is opened again, and nothing else is: the parts of a token are told apart by its last two dots,
its header names the algorithm, and nothing in written claims has a registered name. -/
namespace Teller

namespace Json

theorem nextKeyEnd (rest : List UInt8) : nextKey false (125 :: rest) = .ok (none, 125 :: rest) := by
  simp [nextKey, nextMember, skipNone (show isSpace 125 = false by decide), bind, Except.bind, pure, Except.pure]

def Fields.Skipped : {ts : List Type} → Fields ts → Prop
  | _, nil => True
  | _, cons _ codec rest => Json.Skipped codec ∧ rest.Skipped

end Json

namespace Signed
open Json (Fields Closed trail writeString)

theorem splitLast {front back : List Char} (noDot : '.' ∉ back) :
    splitLast? (front ++ '.' :: back) = some (front, back) := by
  have letters : ∀ c ∈ back.reverse, decide (c ≠ '.') = true := fun c mem => by
    have inside := List.mem_reverse.mp mem
    exact decide_eq_true fun same => noDot (same ▸ inside)
  have reversed : (front ++ '.' :: back).reverse = back.reverse ++ '.' :: front.reverse := by simp
  have dropped : (back.reverse ++ '.' :: front.reverse).dropWhile (· ≠ '.') = '.' :: front.reverse := by
    rw [List.dropWhile_append_of_pos letters, List.dropWhile_cons_of_neg (by decide)]
  have taken : (back.reverse ++ '.' :: front.reverse).takeWhile (· ≠ '.') = back.reverse := by
    rw [List.takeWhile_append_of_pos letters, List.takeWhile_cons_of_neg (by decide), List.append_nil]
  simp only [splitLast?, reversed, dropped, taken, List.reverse_reverse]

theorem headerFits : isHeader (Json.utf8 header) = true := by decide +kernel

def NamesAlgorithm (head : List UInt8) : Prop :=
  ∃ members, readWhole head = .ok (.object members) ∧ (∃ item, ("alg", item) ∈ members) ∧
    ∀ item, ("alg", item) ∈ members → item.name? = some algorithm

def Authentic (key : List UInt8) (token : String) (claims : List UInt8) : Prop :=
  ∃ head, isHeader head = true ∧ NamesAlgorithm head ∧
    token.toList.splitOn '.' = [Base64Url.encodeList head, Base64Url.encodeList claims, Base64Url.encodeList
      (Hmac.sign key (Json.utf8 (Base64Url.encode head ++ "." ++ Base64Url.encode claims)))]

variable {key head claims : List UInt8} {token : String}

theorem headerNames (accepted : isHeader head = true) : NamesAlgorithm head := by
  unfold isHeader at accepted
  split at accepted
  · rename_i members read
    simp only [headerAccepts, Bool.and_eq_true, List.all_eq_true, List.any_eq_true, decide_eq_true_eq] at accepted
    obtain ⟨⟨_, fits⟩, ⟨name, item⟩, mem, rfl⟩ := accepted
    refine ⟨members, read, ⟨item, mem⟩, fun item mem => ?_⟩
    have fits : HeaderKind.algorithm.fits item = true := fits _ mem
    simpa [HeaderKind.fits] using fits
  · cases accepted

theorem splitLastIff {cs front back : List Char} :
    splitLast? cs = some (front, back) ↔ cs = front ++ '.' :: back ∧ '.' ∉ back := by
  constructor
  · intro split
    have whole := List.takeWhile_append_dropWhile (p := (· ≠ '.')) (l := cs.reverse)
    unfold splitLast? at split
    simp only at split
    split at split
    · rename_i c rest dropped
      cases split
      have dot : c = '.' := by
        have head := List.head?_dropWhile_not (fun c : Char => decide (c ≠ '.')) cs.reverse
        rw [dropped] at head
        simpa using head
      refine ⟨?_, fun mem => ?_⟩
      · rw [dropped, dot] at whole
        have whole := congrArg List.reverse whole
        rw [List.reverse_reverse, List.reverse_append, List.reverse_cons, List.append_assoc] at whole
        exact whole.symm
      · have letter := List.all_eq_true.mp List.all_takeWhile _ (List.mem_reverse.mp mem)
        simp at letter
    · cases split
  · rintro ⟨rfl, noDot⟩
    exact splitLast noDot

theorem splitTwice {first second third : List Char} (one : '.' ∉ first) (two : '.' ∉ second) (three : '.' ∉ third) :
    token.toList.splitOn '.' = [first, second, third] ↔
      token.toList = (first ++ '.' :: second) ++ '.' :: third := by
  have text : ['.'].intercalate [first, second, third] = (first ++ '.' :: second) ++ '.' :: third := by
    simp [List.intercalate]
  constructor
  · intro segments
    rw [← text, ← segments, List.intercalate_splitOn]
  · intro whole
    rw [whole, ← text, List.splitOn_intercalate]
    · intro segment mem
      simp only [List.mem_cons, List.not_mem_nil, or_false] at mem
      rcases mem with rfl | rfl | rfl <;> assumption
    · exact List.cons_ne_nil _ _

theorem openIff : open? key token = some claims ↔ Authentic key token claims := by
  have message (head : List UInt8) : String.ofList (Base64Url.encodeList head ++ '.' :: Base64Url.encodeList claims) =
      Base64Url.encode head ++ "." ++ Base64Url.encode claims := by
    apply String.toList_inj.mp
    simp [Base64Url.encode]
  unfold open? Authentic
  constructor
  · intro opened
    simp only [bind, Option.bind_eq_some_iff] at opened
    obtain ⟨⟨front, check⟩, last, ⟨first, second⟩, before, head, read, opened⟩ := opened
    obtain ⟨whole, three⟩ := splitLastIff.mp last
    obtain ⟨rfl, two⟩ := splitLastIff.mp before
    obtain rfl := Base64Url.encodeDecoded read
    by_cases accepted : isHeader head = true
    · simp only [accepted, Bool.not_true, Bool.false_eq_true, if_false, ne_eq, ite_not] at opened
      split at opened
      · rename_i signed
        obtain rfl := Base64Url.encodeDecoded opened
        rw [message] at signed
        obtain rfl : check = _ := (String.toList_ofList.symm.trans (congrArg String.toList signed)).trans String.toList_ofList
        exact ⟨head, accepted, headerNames accepted, (splitTwice (Base64Url.encodeNoDot _) two three).mpr whole⟩
      · cases opened
    · simp [accepted] at opened
  · rintro ⟨head, accepted, -, segments⟩
    have noDot := Base64Url.encodeNoDot
    rw [splitTwice (noDot _) (noDot _) (noDot _)] at segments
    rw [segments, splitLast (noDot _)]
    simp only [bind, Option.bind, splitLast (noDot _), Base64Url.decodeEncode, accepted, signature, message]
    simp [Base64Url.encode]
theorem openMake (key claims : List UInt8) : open? key (make key claims) = some claims := by
  refine openIff.mpr ⟨Json.utf8 header, headerFits, headerNames headerFits, ?_⟩
  have noDot := Base64Url.encodeNoDot
  apply (splitTwice (noDot _) (noDot _) (noDot _)).mpr
  simp [make, message, signature, Base64Url.encode]

section
variable {ts : List Type}

theorem memberPassed {τ : Type} {codec : Json.Codec τ} (skipped : Json.Skipped codec) {name : String}
    (other : registered.lookup name = none) (v : τ) {first : Bool} {text rest : List UInt8} (closed : Closed rest)
    (next : Json.nextKey first text = .ok (some name, 58 :: (codec.write v ++ rest))) (steps : Nat)
    (seen : List String) : readsMembers (steps + 1) first seen text = readsMembers steps false seen rest := by
  have colon : Json.readColon (58 :: (codec.write v ++ rest)) = .ok (codec.write v ++ rest) := by
    simp [Json.readColon, Json.skipNone (show Json.isSpace 58 = false by decide)]
  rw [readsMembers, next]
  simp only [other, colon, skipped v closed]

theorem membersPassed (fields : Fields ts) (skipped : fields.Skipped)
    (other : ∀ name ∈ fields.names, registered.lookup name = none) (values : Json.Values ts) {steps : Nat}
    (enough : ts.length < steps) (seen : List String) (rest : List UInt8) :
    readsMembers steps false seen (trail (fields.write values) ++ 125 :: rest) =
      isOver (Json.endObject (125 :: rest)) := by
  induction fields generalizing steps with
  | nil =>
    cases steps with
    | zero => cases enough
    | succ steps =>
      show readsMembers (steps + 1) false seen (125 :: rest) = _
      rw [readsMembers, Json.nextKeyEnd]
  | cons name codec more ih =>
    obtain ⟨v, values⟩ := values
    obtain ⟨own, skipped⟩ := skipped
    cases steps with
    | zero => cases enough
    | succ steps =>
      have text : trail ((Fields.cons name codec more).write (v, values)) ++ 125 :: rest =
          44 :: writeString name ++ (58 :: (codec.write v ++ (trail (more.write values) ++ 125 :: rest))) := by
        simp [Fields.write, trail]
      rw [memberPassed own (other name List.mem_cons_self) v (Json.closedTrail (more.write values) (.inr rfl) rest)
        (by rw [text, (Json.Fields.nextKeyWritten name _).1])]
      exact ih skipped (fun name mem => other name (List.mem_cons_of_mem _ mem)) values (Nat.lt_of_succ_lt_succ enough)

theorem objectPassed (fields : Fields ts) (skipped : fields.Skipped)
    (other : ∀ name ∈ fields.names, registered.lookup name = none) (values : Json.Values ts) :
    readsRegistered (fields.writeObject values) = true := by
  have enough : ts.length < (Json.separate (fields.write values) ++ [125]).length := by
    have long := Json.separateLength (fields.writeFull values)
    rw [Fields.writeLength] at long
    rw [List.length_append, List.length_singleton]
    omega
  rw [Fields.writeObject, readsRegistered, Json.skipNone (show Json.isSpace 123 = false by decide)]
  show readsMembers ((Json.separate (fields.write values) ++ [125]).length + 1) true [] _ = true
  generalize (Json.separate (fields.write values) ++ [125]).length = steps at enough
  cases fields with
  | nil => rfl
  | cons name codec more =>
    obtain ⟨v, values⟩ := values
    have text : Json.separate ((Fields.cons name codec more).write (v, values)) ++ [125] =
        writeString name ++ (58 :: (codec.write v ++ (trail (more.write values) ++ 125 :: []))) := by
      rw [Fields.write, Json.separateTrail]
      simp
    rw [text, memberPassed skipped.1 (other name List.mem_cons_self) v
      (Json.closedTrail (more.write values) (.inr rfl) []) (Json.Fields.nextKeyWritten name _).2]
    exact membersPassed more skipped.2 (fun name mem => other name (List.mem_cons_of_mem _ mem)) values
      (Nat.lt_of_succ_lt enough) [] []

end
end Signed
end Teller
