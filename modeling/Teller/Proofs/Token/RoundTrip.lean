import Teller.Bank.Sessions
import Teller.Proofs.Json.SessionRows
import Teller.Proofs.Token.Seal
import Teller.Proofs.Token.Signature

/-! A token says to the one who verifies it what the one who made it said, until it expires. -/
namespace Teller

namespace Claims

theorem passed (c : Claims) : Signed.readsRegistered c.toBytes = true :=
  Signed.objectPassed fields ⟨Json.skippedText, Json.skippedText, Json.skippedVariant, Json.skippedInteger,
    Json.skippedInteger, trivial⟩ (by decide) _

theorem issueFits (id : Uuid) (username : String) (role : Role) {duration : Span} {now expires : Moment}
    (fits : now.add? duration = some expires) :
    issue id username role duration now = .ok ⟨id, username, role, now, expires⟩ := by
  rw [issue, fits]

theorem checkUntil (c : Claims) (now : Moment) :
    c.check now = if now < c.expiresAt then .ok c else .error .expired := by
  unfold check
  by_cases early : now < c.expiresAt
  · rw [if_pos early, if_neg (show ¬ c.expiresAt ≤ now from Int.not_le.mpr early)]
  · rw [if_neg early, if_pos (show c.expiresAt ≤ now from Int.not_lt.mp early)]

end Claims

namespace Issuer
variable (issuer : Issuer)

theorem claimsToken (nonce : Nonce) (claims : Claims) : issuer.claims? (issuer.token nonce claims) = some claims := by
  unfold claims? token
  cases issuer.scheme with
  | signed => simp [Signed.openMake, Claims.ofToBytes, Claims.passed, bind, Option.bind]
  | sealed => simp [Sealed.openMake, Claims.ofToBytes]

theorem verifyToken (nonce : Nonce) (claims : Claims) (now : Moment) :
    issuer.verify now (issuer.token nonce claims) = if now < claims.expiresAt then .ok claims else .error .expired := by
  rw [verify, claimsToken]
  exact claims.checkUntil now

end Issuer

namespace Moment

theorem addFits {now : Moment} {duration : Span} (fits : first ≤ now.ms + duration.ms ∧ now.ms + duration.ms ≤ last) :
    now.add? duration = some ⟨now.ms + duration.ms, fits⟩ := dif_pos fits

end Moment

namespace Bank

theorem mintFits (issuer : Issuer) (username : String) (role : Role) {duration : Span} {b : Bank} {expires : Moment}
    (fits : b.now.add? duration = some expires) :
    (mint issuer username role duration b).1 = .ok
      ⟨issuer.token b.drawId.2.drawNonce.1 ⟨b.drawId.1, username, role, b.now, expires⟩,
        ⟨b.drawId.1, username, role, b.now, expires⟩⟩ := by
  show (Claims.issue b.drawId.1 username role duration b.now).map _ = _
  rw [Claims.issueFits _ _ _ fits]
  rfl

theorem mintedVerifies (issuer : Issuer) (username : String) (role : Role) (duration : Span) (b : Bank)
    (fits : Moment.first ≤ b.now.ms + duration.ms ∧ b.now.ms + duration.ms ≤ Moment.last) :
    ∃ minted, (mint issuer username role duration b).1 = .ok minted ∧
      minted.claims = ⟨b.drawId.1, username, role, b.now, ⟨b.now.ms + duration.ms, fits⟩⟩ ∧
      ∀ t : Moment, issuer.verify t minted.token =
        if t.ms < b.now.ms + duration.ms then .ok minted.claims else .error .expired := by
  exact ⟨_, mintFits issuer username role (Moment.addFits fits), rfl, issuer.verifyToken _ _⟩

def sealer : Issuer := ⟨.sealed, List.replicate 32 7, by decide⟩

theorem mintedVerifiesToTheMillisecond :
    let b : Bank := { plan := {} }
    (Moment.first ≤ b.now.ms + 60000 ∧ b.now.ms + 60000 ≤ Moment.last) ∧
    ∃ minted, (mint sealer "Zoë \"\n" .banker ⟨60000, by decide⟩ b).1 = .ok minted ∧
      sealer.verify ⟨1700000059999, by decide⟩ minted.token = .ok minted.claims ∧
      sealer.verify ⟨1700000060000, by decide⟩ minted.token = .error .expired := by
  intro b
  have fits : Moment.first ≤ b.now.ms + 60000 ∧ b.now.ms + 60000 ≤ Moment.last := by decide
  obtain ⟨minted, made, -, verifies⟩ := mintedVerifies sealer "Zoë \"\n" .banker ⟨60000, by decide⟩ b fits
  exact ⟨fits, minted, made, (verifies _).trans (if_pos (by decide)), (verifies _).trans (if_neg (by decide))⟩

end Bank
end Teller
