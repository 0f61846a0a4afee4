import Teller.Proofs.Token.RoundTrip

/-! Whoever verifies a token believes it only if it was made with the same key. A token has one text, and none is
good for both forms. -/
namespace Teller

namespace Sealed
variable {token : String} {body : List UInt8}

theorem segments (read : body? token = some body) :
    token.toList.splitOn '.' = ["v1".toList, "sealed".toList, Base64Url.encodeList body] := by
  have letters : header.toList = "v1".toList ++ '.' :: ("sealed".toList ++ ['.']) := by decide
  apply (Signed.splitTwice (by decide) (by decide) (Base64Url.encodeNoDot body)).mpr
  rw [bodyIff.mp read, String.toList_append, Base64Url.encode, String.toList_ofList, letters]
  simp

theorem authenticBody {key plaintext : List UInt8} (h : Authentic key token plaintext) :
    ∃ body, body? token = some body := by
  obtain ⟨nonce, ciphertext, made, -⟩ := h
  exact ⟨_, bodyIff.mpr made⟩

end Sealed

namespace Issuer
variable {issuer : Issuer} {token : String} {claims : Claims}

def Vouches (issuer : Issuer) (token : String) (claims : Claims) : Prop :=
  ∃ text, Claims.ofBytes? text = some claims ∧ match issuer.scheme with
    | .sealed => Sealed.Authentic issuer.key token text
    | .signed => Signed.Authentic issuer.key token text ∧ Signed.readsRegistered text = true

theorem claimsIff : issuer.claims? token = some claims ↔ issuer.Vouches token claims := by
  unfold claims? Vouches
  cases issuer.scheme with
  | sealed =>
    simp only [Option.bind_eq_some_iff, Sealed.openIff]
    exact exists_congr fun text => and_comm
  | signed =>
    simp only [bind, Option.bind_eq_some_iff, Signed.openIff]
    constructor
    · rintro ⟨text, authentic, found, read, passed⟩
      split at passed
      · rename_i registered
        cases passed
        exact ⟨text, read, authentic, registered⟩
      · cases passed
    · rintro ⟨text, read, authentic, registered⟩
      exact ⟨text, authentic, claims, read, if_pos registered⟩

theorem verifyCases (issuer : Issuer) (now : Moment) (token : String) :
    (issuer.verify now token = .error .invalid ∧ ∀ claims, ¬ issuer.Vouches token claims) ∨
    ∃ claims, issuer.Vouches token claims ∧
      issuer.verify now token = if now < claims.expiresAt then .ok claims else .error .expired := by
  unfold verify
  cases read : issuer.claims? token with
  | none =>
    refine .inl ⟨rfl, fun claims vouches => ?_⟩
    cases read.symm.trans (claimsIff.mpr vouches)
  | some claims => exact .inr ⟨claims, claimsIff.mp read, claims.checkUntil now⟩

theorem schemesApart {sealer signer : Issuer} {found : Claims} (seals : sealer.scheme = .sealed)
    (signs : signer.scheme = .signed) (vouches : sealer.Vouches token claims) : ¬ signer.Vouches token found := by
  rintro ⟨_, -, own⟩
  rw [signs] at own
  obtain ⟨⟨head, -, -, parts⟩, -⟩ := own
  obtain ⟨_, -, foreign⟩ := vouches
  rw [seals] at foreign
  obtain ⟨body, read⟩ := Sealed.authenticBody foreign
  rw [Sealed.segments read] at parts
  have first : "v1".toList = Base64Url.encodeList head := (List.cons.inj parts).1
  have decoded := Base64Url.decodeEncode head
  rw [← first] at decoded
  cases decoded

/-- Verifying a token ends in one of three ways, and in one of the two that let its claims be known only if the
token is authentic. No two sealed tokens have the same body, and none is believed as a signed one as well. -/
theorem onlyAuthenticBelieved :
    (∀ (issuer : Issuer) (now : Moment) (token : String),
      (issuer.verify now token = .error .invalid ∧ ∀ claims, ¬ issuer.Vouches token claims) ∨
      ∃ claims, issuer.Vouches token claims ∧
        issuer.verify now token = if now < claims.expiresAt then .ok claims else .error .expired) ∧
    (∀ token other body, Sealed.body? token = some body → Sealed.body? other = some body → token = other) ∧
    ∀ sealer signer : Issuer, sealer.scheme = .sealed → signer.scheme = .signed → ∀ token now later,
      sealer.verify now token = .error .invalid ∨ signer.verify later token = .error .invalid := by
  refine ⟨verifyCases, fun _ _ _ => Sealed.bodyInjective, fun sealer signer seals signs token now later => ?_⟩
  rcases verifyCases sealer now token with ⟨invalid, -⟩ | ⟨claims, vouches, -⟩
  · exact .inl invalid
  rcases verifyCases signer later token with ⟨invalid, -⟩ | ⟨found, believes, -⟩
  · exact .inr invalid
  · exact absurd believes (schemesApart seals signs vouches)

def notary : Issuer := ⟨.signed, List.replicate 40 1, by decide⟩

def visitor : Claims := ⟨.versionFour 3, "Zoë", .depositor, .epoch, ⟨62000, by decide⟩⟩

theorem onlyAuthenticBelievedAbroad :
    let token := Bank.sealer.token (.ofNat 5) visitor
    (∃ body, Sealed.body? token = some body ∧ ∀ other, Sealed.body? other = some body → other = token) ∧
    Bank.sealer.scheme = .sealed ∧ notary.scheme = .signed ∧
    Bank.sealer.Vouches token visitor ∧ Bank.sealer.verify .epoch token = .ok visitor ∧
    notary.verify .epoch token = .error .invalid := by
  intro token
  obtain ⟨verdicts, single, apart⟩ := onlyAuthenticBelieved
  have believed : Bank.sealer.verify .epoch token = .ok visitor :=
    (Bank.sealer.verifyToken _ _ _).trans (if_pos (by decide))
  have vouches : Bank.sealer.Vouches token visitor := by
    rcases verdicts Bank.sealer .epoch token with ⟨invalid, -⟩ | ⟨claims, vouches, verdict⟩
    · cases believed.symm.trans invalid
    · have same := believed.symm.trans verdict
      split at same
      · cases same
        exact vouches
      · cases same
  refine ⟨?_, rfl, rfl, vouches, believed, ?_⟩
  · obtain ⟨text, -, authentic⟩ := vouches
    obtain ⟨body, read⟩ := Sealed.authenticBody authentic
    exact ⟨body, read, fun other again => single other token body again read⟩
  · rcases apart Bank.sealer notary rfl rfl token .epoch .epoch with invalid | invalid
    · cases believed.symm.trans invalid
    · exact invalid

end Issuer
end Teller
