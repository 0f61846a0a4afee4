import Teller.Proofs.Json.Rows
import Teller.Proofs.Json.Skipping
import Teller.Session
import Teller.Token.Claims

/-! Rows of sessions and the claims of tokens are read back as they were written. -/
namespace Teller
open Json (Codec Lossless)

namespace Json

theorem losslessVariant {τ : Type} {names : List (String × τ)} {write : τ → String}
    (known : ∀ v, names.lookup (write v) = some v) : Lossless 0 (Codec.variant names write) where
  starts v := ⟨34, _, rfl, by decide, by decide⟩
  reads v depth rest _ _ := by
    have text : (Codec.variant names write).write v ++ rest =
        34 :: ((utf8 (write v)).flatMap writeByte ++ 34 :: rest) := by
      simp [Codec.variant, writeString]
    rw [text]
    simp only [Codec.variant, skipNone (show isSpace 34 = false by decide)]
    rw [readStringWritten]
    simp [judge, Codec.choose, known, bind, Except.bind, pure, Except.pure]

theorem losslessBool : Lossless 0 Codec.bool where
  starts v := by cases v <;> exact ⟨_, _, rfl, by decide, by decide⟩
  reads v depth rest _ _ := by
    cases v with
    | true =>
      show Codec.bool.read depth (116 :: 114 :: 117 :: 101 :: rest) = _
      simp [Codec.bool, skipNone (show isSpace 116 = false by decide), readWord, Except.map]
    | false =>
      show Codec.bool.read depth (102 :: 97 :: 108 :: 115 :: 101 :: rest) = _
      simp [Codec.bool, skipNone (show isSpace 102 = false by decide), readWord, Except.map]

end Json

theorem Role.lossless : Lossless 0 Role.codec := Json.losslessVariant fun r => by cases r <;> rfl

theorem Session.lossless : Lossless 1 Session.codec := by
  refine Json.losslessFields ?_ fun _ => rfl
  exact ⟨Uuid.lossless, by decide, Json.losslessString, by decide, Json.losslessString, by decide,
    Json.losslessString, by decide, Json.losslessString, by decide, Json.losslessBool, by decide,
    Moment.lossless, by decide, Moment.lossless, by decide, trivial⟩

theorem Session.decodeEncode (s : Session) :
    Json.decode codec (Json.encode codec s).data.toList = .ok s :=
  Json.decodeEncode lossless (by decide) s

namespace Claims

theorem lossless : Lossless 1 codec := by
  refine Json.losslessFields ?_ fun _ => rfl
  exact ⟨Uuid.lossless, by decide, Json.losslessString, by decide, Role.lossless, by decide,
    Moment.lossless, by decide, Moment.lossless, by decide, trivial⟩

theorem ofToBytes (c : Claims) : ofBytes? c.toBytes = some c := by
  have read := Json.decodeEncode lossless (by decide) c
  rw [Json.encode, List.toList_toArray] at read
  rw [ofBytes?, toBytes, read]
  rfl

end Claims
end Teller
