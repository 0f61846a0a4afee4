import Teller.Proofs.Identifiers
import Teller.Proofs.Json.Lossless
import Teller.Query

/-! The codecs of rows of the outbox read back what they write. -/
namespace Teller
open Json (Codec Lossless)

namespace Moment

theorem fits (m : Moment) : -0x8000000000000000 ≤ m.ms ∧ m.ms ≤ Json.maxNatural := by
  have := m.inRange
  unfold Json.maxNatural UInt64.size
  simp only [first, last] at this
  omega

theorem ofSeen (m : Moment) (n : Json.Number) (seen : n.seen = .integer m.ms) : ofNumber n = .ok m := by
  simp [ofNumber, seen, ofMs?_ms]

theorem lossless : Lossless 0 codec := Json.losslessInteger fits ofSeen

theorem losslessOption : Lossless 0 optionCodec :=
  Json.losslessRequired (Json.losslessOptionInteger lossless)

end Moment

theorem Uuid.lossless : Lossless 0 Codec.uuid :=
  Json.losslessText fun u => by rw [Uuid.parseText]; rfl

theorem TaskOptions.lossless : Lossless 1 TaskOptions.codec := by
  refine Json.losslessFields ?_ fun _ => rfl
  exact ⟨Json.losslessString, by decide, Json.losslessUint32, by decide, Moment.losslessOption, by decide,
    Json.losslessOptionInteger Json.losslessInt64, by decide, trivial⟩

theorem NewTask.lossless : Lossless 2 NewTask.codec := by
  refine Json.losslessFields ?_ fun _ => rfl
  exact ⟨Uuid.lossless.mono (by decide), by decide, Json.losslessString.mono (by decide), by decide,
    Json.losslessList Json.losslessUint8, by decide, TaskOptions.lossless, by decide, trivial⟩

theorem OutboxEntry.lossless : Lossless 3 OutboxEntry.codec := by
  refine Json.losslessFields ?_ fun _ => rfl
  exact ⟨Uuid.lossless.mono (by decide), by decide, NewTask.lossless, by decide,
    Moment.lossless.mono (by decide), by decide, trivial⟩

theorem OutboxEntry.decodeEncode (e : OutboxEntry) :
    Json.decode OutboxEntry.codec (Json.encode OutboxEntry.codec e).data.toList = .ok e :=
  Json.decodeEncode lossless (by decide) e

end Teller
