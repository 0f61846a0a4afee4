import Teller.Proofs.Json.SessionRows
import Teller.Proofs.Json.TaskRows
import Teller.User

/-! No row changes on its way through its text, whether it is kept in a table, staged as part of another row or
carried by a token. -/
namespace Teller

namespace Json
variable {τ : Type} {c : Codec τ}

structure Faithful (c : Codec τ) : Prop where
  back : ∀ v, decode c (encode c v).data.toList = .ok v
  /-- A text may be another than the one that is written; what was read of it once is read ever after. -/
  again : ∀ text, ((decode c text).bind fun v => decode c (encode c v).data.toList) = decode c text

theorem Lossless.faithful {nested : Nat} (h : Lossless nested c) (deep : nested < depthLimit) : Faithful c where
  back := decodeEncode h deep
  again text := by
    cases decode c text with
    | error e => rfl
    | ok v => exact decodeEncode h deep v

end Json

theorem User.lossless : Json.Lossless 1 User.codec := by
  refine Json.losslessFields ?_ fun _ => rfl
  exact ⟨Json.losslessString, by decide, Role.lossless, by decide, Json.losslessString, by decide,
    Json.losslessString, by decide, Json.losslessString, by decide, Json.losslessBool, by decide,
    Moment.lossless, by decide, Moment.lossless, by decide, trivial⟩

theorem User.decodeEncode (u : User) : Json.decode codec (Json.encode codec u).data.toList = .ok u :=
  Json.decodeEncode lossless (by decide) u

theorem rowsReadBack :
    Json.Faithful TaskRecord.codec ∧ Json.Faithful NewTask.codec ∧ Json.Faithful TaskOptions.codec ∧
    Json.Faithful OutboxEntry.codec ∧ Json.Faithful User.codec ∧ Json.Faithful Session.codec ∧
    Json.Faithful Claims.codec :=
  ⟨TaskRecord.lossless.faithful (by decide), NewTask.lossless.faithful (by decide),
    TaskOptions.lossless.faithful (by decide), OutboxEntry.lossless.faithful (by decide),
    User.lossless.faithful (by decide), Session.lossless.faithful (by decide), Claims.lossless.faithful (by decide)⟩

end Teller
