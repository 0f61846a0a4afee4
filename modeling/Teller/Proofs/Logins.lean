import Teller.Proofs.Token.RoundTrip
import Teller.Proofs.UnitsAlone

/-! Logging in and renewing with nobody else about: what is answered, as a function of the rows, and what
becomes of the rows. -/
namespace Teller

structure Minted.Of (issuer : Issuer) (username : String) (role : Role) (m : Minted) : Prop where
  token : ∃ nonce, m.token = issuer.token nonce m.claims
  username : m.claims.username = username
  role : m.claims.role = role

namespace Bank
variable {issuer : Issuer} {b c : Bank}

theorem issuedOf {id : Uuid} {username : String} {role : Role} {duration : Span} {now : Moment} {nonce : Nonce}
    {m : Minted} (ok : (Claims.issue id username role duration now).map
      (fun claims => (⟨issuer.token nonce claims, claims⟩ : Minted)) = .ok m) :
    m.Of issuer username role ∧ now.add? duration = some m.claims.expiresAt := by
  unfold Claims.issue at ok
  cases fits : now.add? duration with
  | none => rw [fits] at ok; cases ok
  | some expires =>
    rw [fits] at ok
    cases ok
    exact ⟨⟨⟨nonce, rfl⟩, rfl, rfl⟩, rfl⟩

def renewal (issuer : Issuer) (s : State) (now : Moment) (access : Span) (id : Uuid) (nonce : Nonce)
    (token : String) : Except (Stop SessionError) Minted :=
  match issuer.verify now token with
  | .error e => .error (.failed (.token e))
  | .ok claims => match Query.rowAt Session.codec s (Query.sessionRow claims.id) with
    | .error e => .error (sessionFailure e)
    | .ok session => match judge session claims token now with
      | .error e => .error (.failed e)
      | .ok () =>
          ((Claims.issue id claims.username claims.role access now).map fun claims =>
            (⟨issuer.token nonce claims, claims⟩ : Minted)).mapError fun e => .failed (.token e)

theorem mintAlone (issuer : Issuer) (username : String) (role : Role) (duration : Span) (b : Bank) :
    ∃ id nonce supply, mint issuer username role duration b =
      ((Claims.issue id username role duration b.now).map fun claims => ⟨issuer.token nonce claims, claims⟩,
        { b with supply }) :=
  ⟨b.drawId.1, b.drawId.2.drawNonce.1, b.drawId.2.drawNonce.2.supply, rfl⟩

theorem mintCases {username : String} {role : Role} {duration : Span} {result}
    (ran : mint issuer username role duration b = (result, c)) :
    (∃ supply, c = { b with supply }) ∧
      ((∃ e, result = .error e) ∨ ∃ m, result = .ok m ∧ m.Of issuer username role) := by
  obtain ⟨id, nonce, supply, minted⟩ := mintAlone issuer username role duration b
  cases minted.symm.trans ran
  refine ⟨⟨supply, rfl⟩, ?_⟩
  cases ok : (Claims.issue id username role duration b.now).map
    fun claims => (⟨issuer.token nonce claims, claims⟩ : Minted) with
  | error e => exact .inl ⟨e, rfl⟩
  | ok m => exact .inr ⟨m, rfl, (issuedOf ok).1⟩

theorem renewAlone (room : b.HasRoom) {token : String} {result c} (ran : renew issuer token b = (result, c)) :
    (∃ id nonce, result = renewal issuer b.accounts.state b.now b.plan.sessions.access id nonce token) ∧
      ∃ supply accounts, c = { b with supply, accounts } ∧ accounts.state = b.accounts.state := by
  unfold renew at ran
  unfold renewal
  cases known : issuer.verify b.now token with
  | error e =>
    rw [known] at ran
    cases ran
    exact ⟨⟨b.drawId.1, b.drawNonce.1, rfl⟩, b.supply, b.accounts, rfl, rfl⟩
  | ok claims =>
    rw [known] at ran
    dsimp only at ran
    rcases found : getSession claims.id b with ⟨session, after⟩
    rw [found] at ran
    obtain ⟨rfl, supply, accounts, rfl, state⟩ := loadAlone room found
    cases read : Query.rowAt Session.codec b.accounts.state (Query.sessionRow claims.id) with
    | error e =>
      rw [read] at ran
      cases ran
      exact ⟨⟨b.drawId.1, b.drawNonce.1, by simp only [read]⟩, supply, accounts, rfl, state⟩
    | ok session =>
      have now : Bank.now { b with supply, accounts } = b.now := rfl
      rw [read] at ran
      simp only [read]
      dsimp only at ran
      rw [now] at ran
      cases judged : judge session claims token b.now with
      | error e =>
        rw [judged] at ran
        cases ran
        exact ⟨⟨b.drawId.1, b.drawNonce.1, rfl⟩, supply, accounts, rfl, state⟩
      | ok fine =>
        rw [judged] at ran
        obtain ⟨id, nonce, supply, minted⟩ :=
          mintAlone issuer claims.username claims.role b.plan.sessions.access { b with supply, accounts }
        dsimp only at ran
        rw [minted] at ran
        cases ran
        exact ⟨⟨id, nonce, rfl⟩, supply, accounts, rfl, state⟩

theorem renewalOf {s : State} {now : Moment} {access : Span} {id : Uuid} {nonce : Nonce} {token : String} {m : Minted}
    (ok : renewal issuer s now access id nonce token = .ok m) : ∃ username role, m.Of issuer username role := by
  unfold renewal at ok
  split at ok
  · cases ok
  · rename_i claims _
    split at ok
    · cases ok
    · split at ok
      · cases ok
      · cases made : (Claims.issue id claims.username claims.role access now).map
          fun claims => (⟨issuer.token nonce claims, claims⟩ : Minted) with
        | error e => rw [made] at ok; cases ok
        | ok m' => rw [made] at ok; cases ok; exact ⟨_, _, (issuedOf made).1⟩

abbrev sessionOf (user : User) (refresh : Minted) (agent ip : String) : NewSession where
  id := refresh.claims.id
  username := user.username
  refreshToken := refresh.token
  userAgent := agent
  clientIp := ip
  isBlocked := false
  expiresAt := refresh.claims.expiresAt

theorem refreshAlone (room : b.HasRoom) {user : User} {access : Minted} {agent ip : String} {result c}
    (ran : refresh issuer user access agent ip b = (result, c)) :
    ∃ supply accounts, c = { b with supply, accounts } ∧
      ((∃ e, result = .error e) ∧ accounts.state = b.accounts.state ∨
        ∃ m : Minted, m.Of issuer user.username user.role ∧ result = .ok ⟨user, m.claims.id, access, m⟩ ∧
          b.accounts.state.value? (Query.sessionRow m.claims.id) = none ∧
          b.accounts.state.Puts (Query.sessionRow m.claims.id)
            (Json.encode Session.codec (.create (sessionOf user m agent ip) b.now)) accounts.state) := by
  unfold refresh at ran
  rcases minted : mint issuer user.username user.role b.plan.sessions.refresh b with ⟨made, after⟩
  rw [minted] at ran
  obtain ⟨⟨supply, rfl⟩, ⟨e, rfl⟩ | ⟨m, rfl, own⟩⟩ := mintCases minted
  · cases ran
    exact ⟨supply, b.accounts, rfl, .inl ⟨⟨_, rfl⟩, rfl⟩⟩
  · dsimp only at ran
    rcases stored : createSession (sessionOf user m agent ip) { b with supply } with ⟨session, after⟩
    rw [stored] at ran
    obtain ⟨supply', accounts, rfl, ⟨⟨e, rfl⟩, state⟩ | ⟨session, rfl, created, puts⟩⟩ :=
      createSessionAlone (b := { b with supply }) room stored
    · cases ran
      exact ⟨supply', accounts, rfl, .inl ⟨⟨_, rfl⟩, state⟩⟩
    · cases ran
      obtain ⟨new, rfl⟩ := Query.createdNew created
      exact ⟨supply', accounts, rfl, .inr ⟨m, own, rfl, new, puts⟩⟩

theorem loginAlone (room : b.HasRoom) {username agent ip : String} {result c}
    (ran : login issuer username agent ip b = (result, c)) :
    ∃ supply accounts, c = { b with supply, accounts } ∧
      ((∃ e, result = .error e) ∧ accounts.state = b.accounts.state ∨
        ∃ x : Login, result = .ok x ∧ x.access.Of issuer x.user.username x.user.role ∧
          x.refresh.Of issuer x.user.username x.user.role ∧ x.sessionId = x.refresh.claims.id ∧
          b.accounts.state.value? (Query.sessionRow x.sessionId) = none ∧
          b.accounts.state.Puts (Query.sessionRow x.sessionId)
            (Json.encode Session.codec (.create (sessionOf x.user x.refresh agent ip) b.now)) accounts.state) := by
  unfold login at ran
  rcases found : getUser username b with ⟨user, after⟩
  rw [found] at ran
  obtain ⟨-, supply, accounts, rfl, state⟩ := loadAlone room found
  cases user with
  | error e =>
    cases ran
    exact ⟨supply, accounts, rfl, .inl ⟨⟨_, rfl⟩, state⟩⟩
  | ok user =>
    dsimp only at ran
    rcases minted : mint issuer user.username user.role b.plan.sessions.access { b with supply, accounts } with
      ⟨made, after⟩
    rw [minted] at ran
    obtain ⟨⟨supply', rfl⟩, ⟨e, rfl⟩ | ⟨access, rfl, own⟩⟩ := mintCases minted
    · cases ran
      exact ⟨supply', accounts, rfl, .inl ⟨⟨_, rfl⟩, state⟩⟩
    · obtain ⟨supply'', accounts', rfl, ⟨⟨e, rfl⟩, same⟩ | ⟨m, refreshes, rfl, new, puts⟩⟩ :=
        refreshAlone (b := { b with supply := supply', accounts }) room ran
      · exact ⟨supply'', accounts', rfl, .inl ⟨⟨e, rfl⟩, same.trans state⟩⟩
      · exact ⟨supply'', accounts', rfl, .inr ⟨_, rfl, own, refreshes, rfl, state ▸ new, state ▸ puts⟩⟩

end Bank
end Teller
