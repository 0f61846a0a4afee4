import Teller.Proofs.Logins

/-! People log in and come back with what they were given. A refresh token is good for new access tokens until
it expires, but not while its session is blocked; an access token is good for none. -/
namespace Teller

namespace SessionHistory

inductive Step where
  | login (username agent ip : String)
  | block (id : Uuid) (on : Bool)
  | renew (token : String)
  | clock (clock : Clock)

inductive Event where
  | login (result : Except (Stop SessionError) Login)
  | block (id : Uuid) (on : Bool) (result : Except (Stop StoreError) Session)
  | renew (result : Except (Stop SessionError) Minted)

end SessionHistory

structure SessionHistory where
  bank : Bank
  log : List SessionHistory.Event := []

namespace SessionHistory
open Query (sessionRow rowAt)

def step (issuer : Issuer) (l : SessionHistory) : Step → SessionHistory
  | .login username agent ip =>
      let (result, bank) := l.bank.login issuer username agent ip
      ⟨bank, .login result :: l.log⟩
  | .block id on =>
      let (result, bank) := l.bank.setBlocked id on
      ⟨bank, .block id on result :: l.log⟩
  | .renew token =>
      let (result, bank) := l.bank.renew issuer token
      ⟨bank, .renew result :: l.log⟩
  | .clock clock => { l with bank := { l.bank with clock } }

def run (issuer : Issuer) (l : SessionHistory) (steps : List Step) : SessionHistory := steps.foldl (step issuer) l

def logins (log : List Event) : List Login := log.filterMap fun
  | .login (.ok x) => some x
  | _ => none

def accesses (log : List Event) : List Minted := log.filterMap fun
  | .login (.ok x) => some x.access
  | .renew (.ok m) => some m
  | _ => none

def issued (log : List Event) : List Minted := accesses log ++ (logins log).map (·.refresh)

def isBlocked (id : Uuid) : List Event → Bool
  | [] => false
  | .block id' on (.ok _) :: log => if id' = id then on else isBlocked id log
  | _ :: log => isBlocked id log

structure Distinct (start : Bank) (log : List Event) : Prop where
  once : ((issued log).map (·.claims.id)).Nodup
  unused : ∀ m ∈ issued log, start.accounts.state.value? (sessionRow m.claims.id) = none

structure Backed (issuer : Issuer) (l : SessionHistory) (x : Login) : Prop where
  own : x.refresh.Of issuer x.user.username x.user.role
  id : x.sessionId = x.refresh.claims.id
  session : ∃ session, rowAt Session.codec l.bank.accounts.state (sessionRow x.sessionId) = .ok session ∧
    session.username = x.user.username ∧ session.refreshToken = x.refresh.token ∧
    session.expiresAt = x.refresh.claims.expiresAt ∧ session.isBlocked = isBlocked x.sessionId l.log

structure Sound (issuer : Issuer) (start : Bank) (l : SessionHistory) : Prop where
  plan : l.bank.plan = start.plan
  running : l.bank.running = start.running
  accesses : ∀ m ∈ accesses l.log, ∃ username role, m.Of issuer username role
  logins : ∀ x ∈ logins l.log, Backed issuer l x
  others : ∀ id, start.accounts.state.value? (sessionRow id) = none →
    (∀ x ∈ SessionHistory.logins l.log, x.sessionId ≠ id) →
    l.bank.accounts.state.value? (sessionRow id) = none
  untouched : ∀ id, l.bank.accounts.state.value? (sessionRow id) = none → isBlocked id l.log = false

theorem accessGiven {log : List Event} {x : Login} (mem : x ∈ logins log) : x.access ∈ accesses log := by
  obtain ⟨e, mem, login⟩ := List.mem_filterMap.mp mem
  refine List.mem_filterMap.mpr ⟨e, mem, ?_⟩
  split at login
  · cases login; rfl
  · cases login

variable {issuer : Issuer} {start : Bank} {l : SessionHistory}

theorem soundStart : Sound issuer start ⟨start, []⟩ :=
  ⟨rfl, rfl, by simp [SessionHistory.accesses], by simp [SessionHistory.logins], fun _ absent _ => absent, fun _ _ => rfl⟩

theorem soundHasRoom (h : l.Sound issuer start) (room : start.HasRoom) : l.bank.HasRoom := by
  rw [Bank.HasRoom, h.running, h.plan]
  exact room

theorem soundAside (h : l.Sound issuer start) {bank : Bank} {log : List Event}
    (plan : bank.plan = l.bank.plan) (running : bank.running = l.bank.running)
    (state : bank.accounts.state = l.bank.accounts.state)
    (given : ∀ m ∈ SessionHistory.accesses log,
      m ∈ SessionHistory.accesses l.log ∨ ∃ username role, m.Of issuer username role)
    (logins : SessionHistory.logins log = SessionHistory.logins l.log)
    (blocked : ∀ id, isBlocked id log = isBlocked id l.log) :
    Sound issuer start ⟨bank, log⟩ where
  plan := plan.trans h.plan
  running := running.trans h.running
  accesses m mem := (given m mem).elim (h.accesses m) id
  logins x mem := by
    obtain ⟨own, same, session⟩ := h.logins x (logins ▸ mem)
    exact ⟨own, same, by dsimp only; rw [state, blocked]; exact session⟩
  others id absent unseen := by
    dsimp only at unseen ⊢
    rw [state]
    exact h.others id absent (logins ▸ unseen)
  untouched id unseen := by
    dsimp only at unseen ⊢
    rw [blocked]
    exact h.untouched id (state ▸ unseen)

theorem soundRenew (h : l.Sound issuer start) (room : start.HasRoom) (token : String) :
    (l.step issuer (.renew token)).Sound issuer start := by
  rcases ran : l.bank.renew issuer token with ⟨result, bank⟩
  obtain ⟨⟨id, nonce, answer⟩, supply, accounts, rfl, state⟩ := Bank.renewAlone (soundHasRoom h room) ran
  simp only [step, ran]
  cases result with
  | error e => exact soundAside h rfl rfl state (fun m mem => .inl mem) rfl fun _ => rfl
  | ok minted =>
    refine soundAside h rfl rfl state (fun m mem => ?_) rfl fun _ => rfl
    rcases List.mem_cons.mp mem with rfl | mem
    · exact .inr (Bank.renewalOf answer.symm)
    · exact .inl mem

theorem rowAtPut {s s' : State} {row : RowId} {session : Session}
    (puts : s.Puts row (Json.encode Session.codec session) s') : rowAt Session.codec s' row = .ok session := by
  rw [rowAt, puts, if_pos rfl]
  dsimp only
  rw [Query.decoded, Session.decodeEncode]
  rfl

theorem rowAtOther {s s' : State} {row other : RowId} {value : Bytes} (puts : s.Puts row value s')
    (apart : other ≠ row) : rowAt Session.codec s' other = rowAt Session.codec s other := by
  rw [rowAt, puts, if_neg apart, rowAt]

theorem sessionRowInjective {id id' : Uuid} (same : sessionRow id = sessionRow id') : id = id' :=
  Uuid.keyInjective (congrArg RowId.key same)

theorem putsApart {s s' : State} {row other : RowId} {value : Bytes} (puts : s.Puts row value s')
    (absent : s'.value? other = none) : other ≠ row ∧ s.value? other = none := by
  rw [puts] at absent
  split at absent
  · cases absent
  · exact ⟨‹_›, absent⟩

theorem rowAtMissing {s : State} {row : RowId} (absent : s.value? row = none) :
    rowAt Session.codec s row = .error (.failed .notFound) := by
  rw [rowAt, absent]

theorem soundBlock (h : l.Sound issuer start) (room : start.HasRoom) (id : Uuid) (on : Bool) :
    (l.step issuer (.block id on)).Sound issuer start := by
  rcases ran : l.bank.setBlocked id on with ⟨result, bank⟩
  obtain ⟨supply, accounts, rfl, ⟨⟨e, rfl⟩, state⟩ | ⟨session, rfl, blocked, puts⟩⟩ :=
    Bank.setBlockedAlone (soundHasRoom h room) ran
  · simp only [step, ran]
    exact soundAside h rfl rfl state (fun _ mem => .inl mem) rfl fun _ => rfl
  · simp only [step, ran]
    refine ⟨h.plan, h.running, h.accesses, fun x mem => ?_, fun id' absent unseen => ?_, fun id' unseen => ?_⟩
    · obtain ⟨own, same, held, found, fields⟩ := h.logins x mem
      refine ⟨own, same, ?_⟩
      by_cases here : id = x.sessionId
      · subst here
        rw [Query.blocked, found] at blocked
        cases blocked
        exact ⟨_, rowAtPut puts, fields.1, fields.2.1, fields.2.2.1, by simp [isBlocked]⟩
      · refine ⟨held, ?_, fields.1, fields.2.1, fields.2.2.1, by simp [isBlocked, here, fields.2.2.2]⟩
        rw [rowAtOther puts fun same => here (sessionRowInjective same).symm]
        exact found
    · have missing := h.others id' absent unseen
      rw [puts, if_neg ?_]
      · exact missing
      · intro same
        rw [Query.blocked, ← same, rowAtMissing missing] at blocked
        cases blocked
    · obtain ⟨apart, missing⟩ := putsApart puts unseen
      rw [isBlocked, if_neg fun same => apart (congrArg sessionRow same.symm)]
      exact h.untouched id' missing

theorem soundLogin (h : l.Sound issuer start) (room : start.HasRoom) (username agent ip : String) :
    (l.step issuer (.login username agent ip)).Sound issuer start := by
  rcases ran : l.bank.login issuer username agent ip with ⟨result, bank⟩
  obtain ⟨supply, accounts, rfl, ⟨⟨e, rfl⟩, state⟩ | ⟨x, rfl, access, refresh, same, new, puts⟩⟩ :=
    Bank.loginAlone (soundHasRoom h room) ran
  · simp only [step, ran]
    exact soundAside h rfl rfl state (fun _ mem => .inl mem) rfl fun _ => rfl
  · simp only [step, ran]
    refine ⟨h.plan, h.running, fun m mem => ?_, fun y mem => ?_, fun id absent unseen => ?_, fun id unseen => ?_⟩
    · rcases List.mem_cons.mp mem with rfl | mem
      · exact ⟨_, _, access⟩
      · exact h.accesses m mem
    · rcases List.mem_cons.mp mem with rfl | mem
      · exact ⟨refresh, same, _, rowAtPut puts, rfl, rfl, rfl, (h.untouched _ new).symm⟩
      · obtain ⟨own, id, session, found, fields⟩ := h.logins y mem
        refine ⟨own, id, session, ?_, fields⟩
        rw [rowAtOther puts ?_]
        · exact found
        · intro here
          rw [here, rowAtMissing new] at found
          cases found
    · rw [puts, if_neg fun here => unseen x List.mem_cons_self (sessionRowInjective here).symm]
      exact h.others id absent fun y mem => unseen y (List.mem_cons_of_mem x mem)
    · exact h.untouched id (putsApart puts unseen).2

theorem soundStep (h : l.Sound issuer start) (room : start.HasRoom) (s : Step) :
    (l.step issuer s).Sound issuer start := by
  cases s with
  | login username agent ip => exact soundLogin h room username agent ip
  | block id on => exact soundBlock h room id on
  | renew token => exact soundRenew h room token
  | clock clock => exact soundAside h rfl rfl rfl (fun _ mem => .inl mem) rfl fun _ => rfl

theorem soundRun (h : l.Sound issuer start) (room : start.HasRoom) (steps : List Step) :
    (run issuer l steps).Sound issuer start := by
  induction steps generalizing l with
  | nil => exact h
  | cons s steps ih => exact ih (soundStep h room s)

theorem judgeBacked {session : Session} {claims : Claims} {token : String} {now : Moment}
    (username : session.username = claims.username) (same : session.refreshToken = token)
    (expires : session.expiresAt = claims.expiresAt) (early : now < claims.expiresAt) :
    Bank.judge session claims token now = if session.isBlocked then .error .blocked else .ok () := by
  have late : ¬ session.expiresAt < now := by
    rw [expires]
    exact Int.not_lt.mpr (Int.le_of_lt early)
  unfold Bank.judge Session.state SessionState.of
  cases session.isBlocked <;> simp [late, username, same]

theorem refreshAnswer (h : l.Sound issuer start) (room : start.HasRoom) {x : Login} (mem : x ∈ logins l.log) :
    ∃ id nonce, (l.bank.renew issuer x.refresh.token).1 =
      if l.bank.now < x.refresh.claims.expiresAt then
        if isBlocked x.sessionId l.log then .error (.failed .blocked)
        else ((Claims.issue id x.user.username x.user.role start.plan.sessions.access l.bank.now).map fun claims =>
          (⟨issuer.token nonce claims, claims⟩ : Minted)).mapError fun e => .failed (.token e)
      else .error (.failed (.token .expired)) := by
  obtain ⟨own, id, session, found, username, token, expires, blocked⟩ := h.logins x mem
  obtain ⟨made, user, role⟩ := own
  obtain ⟨nonce, made⟩ := made
  rcases ran : l.bank.renew issuer x.refresh.token with ⟨result, bank⟩
  obtain ⟨⟨id', nonce', rfl⟩, -⟩ := Bank.renewAlone (soundHasRoom h room) ran
  refine ⟨id', nonce', ?_⟩
  have known := issuer.verifyToken nonce x.refresh.claims l.bank.now
  rw [← made] at known
  rw [Bank.renewal, known]
  by_cases early : l.bank.now < x.refresh.claims.expiresAt
  · rw [if_pos early, if_pos early]
    dsimp only
    rw [← id, found]
    dsimp only
    rw [judgeBacked (username.trans user.symm) token expires early, blocked, user, role, h.plan]
    cases isBlocked x.sessionId l.log <;> rfl
  · rw [if_neg early, if_neg early]

theorem accessAnswer (h : l.Sound issuer start) (room : start.HasRoom) (distinct : Distinct start l.log) {m : Minted}
    (mem : m ∈ accesses l.log) : (l.bank.renew issuer m.token).1 =
      .error (.failed (if l.bank.now < m.claims.expiresAt then .notFound else .token .expired)) := by
  obtain ⟨_, _, ⟨nonce, made⟩, _, _⟩ := h.accesses m mem
  rcases ran : l.bank.renew issuer m.token with ⟨result, bank⟩
  obtain ⟨⟨id, nonce', rfl⟩, -⟩ := Bank.renewAlone (soundHasRoom h room) ran
  have known := issuer.verifyToken nonce m.claims l.bank.now
  rw [← made] at known
  have missing : l.bank.accounts.state.value? (sessionRow m.claims.id) = none := by
    refine h.others _ (distinct.unused m (List.mem_append_left _ mem)) fun x login same => ?_
    have once := distinct.once
    rw [issued, List.map_append, List.nodup_append] at once
    refine once.2.2 _ (List.mem_map_of_mem mem) x.refresh.claims.id ?_ ?_
    · exact List.mem_map.mpr ⟨_, List.mem_map_of_mem login, rfl⟩
    · rw [← same, (h.logins x login).id]
  rw [Bank.renewal, known]
  by_cases early : l.bank.now < m.claims.expiresAt
  · rw [if_pos early, if_pos early]
    dsimp only
    rw [rowAtMissing missing]
    rfl
  · rw [if_neg early, if_neg early]

theorem renewalFollowsSession (issuer : Issuer) {start : Bank} (room : start.HasRoom) (steps : List Step)
    (distinct : Distinct start (run issuer ⟨start, []⟩ steps).log) :
    let l := run issuer ⟨start, []⟩ steps
    let answer (token : String) := (l.bank.renew issuer token).1
    (∀ x ∈ logins l.log,
      (x.refresh.claims.expiresAt ≤ l.bank.now → answer x.refresh.token = .error (.failed (.token .expired))) ∧
      (l.bank.now < x.refresh.claims.expiresAt → isBlocked x.sessionId l.log = true →
        answer x.refresh.token = .error (.failed .blocked)) ∧
      (l.bank.now < x.refresh.claims.expiresAt → isBlocked x.sessionId l.log = false →
        ∀ expiry, l.bank.now.add? start.plan.sessions.access = some expiry →
          ∃ m, answer x.refresh.token = .ok m ∧ m.claims.username = x.user.username ∧ m.claims.role = x.user.role ∧
            m.claims.expiresAt = expiry ∧
            ∀ t, issuer.verify t m.token = if t < expiry then .ok m.claims else .error .expired)) ∧
    (∀ m ∈ accesses l.log,
      answer m.token = .error (.failed (if l.bank.now < m.claims.expiresAt then .notFound else .token .expired))) ∧
    (∀ m ∈ issued l.log, answer m.token ≠ .error (.failed .expired) ∧ answer m.token ≠ .error (.failed .mismatch)) ∧
    ∀ token, (l.bank.renew issuer token).2.accounts.state = l.bank.accounts.state ∧
      (l.bank.renew issuer token).2.queues = l.bank.queues := by
  intro l answer
  have sound : l.Sound issuer start := soundRun soundStart room steps
  refine ⟨fun x mem => ?_, fun m mem => accessAnswer sound room distinct mem, fun m mem => ?_, fun token => ?_⟩
  · obtain ⟨id, nonce, answers⟩ := refreshAnswer sound room mem
    refine ⟨fun late => ?_, fun early blocked => ?_, fun early blocked expiry fits => ?_⟩
    · exact answers.trans (if_neg (Int.not_lt.mpr late))
    · rw [if_pos early, blocked] at answers
      exact answers
    · rw [if_pos early, blocked, Claims.issueFits _ _ _ fits] at answers
      exact ⟨_, answers, rfl, rfl, rfl, issuer.verifyToken nonce _⟩
  · rcases List.mem_append.mp mem with mem | mem
    · rw [show answer m.token = _ from accessAnswer sound room distinct mem]
      split <;> exact ⟨nofun, nofun⟩
    · obtain ⟨x, login, rfl⟩ := List.mem_map.mp mem
      obtain ⟨id, nonce, answers⟩ := refreshAnswer sound room login
      rw [show answer x.refresh.token = _ from answers]
      split
      · split
        · exact ⟨nofun, nofun⟩
        · cases Claims.issue _ _ _ _ _ <;> exact ⟨nofun, nofun⟩
      · exact ⟨nofun, nofun⟩
  · rcases ran : l.bank.renew issuer token with ⟨result, bank⟩
    obtain ⟨-, supply, accounts, rfl, state⟩ := Bank.renewAlone (soundHasRoom sound room) ran
    exact ⟨state, rfl⟩

def zoe : User := .create ⟨"zoe", .banker, "", "", ""⟩ .epoch

def signer : Issuer := ⟨.signed, List.replicate 32 7, by decide⟩

def opening : Bank where
  plan := {}
  accounts := { state := State.apply {} [.put Query.users (Bytes.ofText "zoe") (Json.encode User.codec zoe)] }

def morning : List Step := [.login "zoe" "" "", .block (.versionFour 9) true, .clock ⟨1700000060000⟩]

theorem renewalFollowsSessionMinuteLater :
    let l := run signer ⟨opening, []⟩ morning
    let answer (token : String) := (l.bank.renew signer token).1
    opening.HasRoom ∧ Distinct opening l.log ∧ ∃ x, logins l.log = [x] ∧ x.user = zoe ∧
      answer x.access.token = .error (.failed .notFound) ∧
      ∃ m, answer x.refresh.token = .ok m ∧ m.claims.username = "zoe" ∧
        signer.verify ⟨1700000959999, by decide⟩ m.token = .ok m.claims ∧
        signer.verify ⟨1700000960000, by decide⟩ m.token = .error .expired := by
  intro l answer
  have room : opening.HasRoom := by
    unfold Bank.HasRoom
    decide
  have facts : (logins l.log).map (fun x => (x.user, isBlocked x.sessionId l.log, x.refresh.claims.expiresAt.ms)) =
        [(zoe, false, 1700086400000)] ∧
      (accesses l.log).map (·.claims.expiresAt.ms) = [1700000900000] ∧
      (issued l.log).map (·.claims.id) = [.versionFour 0, .versionFour 2] ∧
      l.bank.now = ⟨1700000060000, by decide⟩ := by decide +kernel
  obtain ⟨people, ends, ids, now⟩ := facts
  have distinct : Distinct opening l.log := by
    refine ⟨by rw [ids]; decide, fun m mem => ?_⟩
    have known := List.mem_map_of_mem (f := fun m : Minted => m.claims.id) mem
    rw [ids] at known
    have free : ∀ id ∈ [Uuid.versionFour 0, .versionFour 2], opening.accounts.state.value? (sessionRow id) = none := by
      decide +kernel
    exact free _ known
  simp only [List.map_eq_cons_iff, List.map_eq_nil_iff, Prod.mk.injEq] at people ends
  obtain ⟨x, _, log, ⟨user, unblocked, expires⟩, rfl⟩ := people
  obtain ⟨m, _, given, ends, rfl⟩ := ends
  obtain ⟨refreshes, accesses, _⟩ := renewalFollowsSession signer room morning distinct
  have mem : x ∈ logins l.log := log ▸ List.mem_singleton_self x
  have access : x.access = m := List.mem_singleton.mp (given ▸ accessGiven mem)
  have early : l.bank.now < x.access.claims.expiresAt := by
    show l.bank.now.ms < x.access.claims.expiresAt.ms
    rw [now, access, ends]
    decide
  have young : l.bank.now < x.refresh.claims.expiresAt := by
    show l.bank.now.ms < x.refresh.claims.expiresAt.ms
    rw [now, expires]
    decide
  have fits : l.bank.now.add? opening.plan.sessions.access = some ⟨1700000960000, by decide⟩ := by
    rw [now]
    rfl
  refine ⟨room, distinct, x, log, user, ?_, ?_⟩
  · exact (accesses _ (accessGiven mem)).trans (by rw [if_pos early])
  · obtain ⟨m, renewed, username, _, _, verifies⟩ := (refreshes x mem).2.2 young unblocked _ fits
    refine ⟨m, renewed, by rw [username, user]; rfl, (verifies _).trans (if_pos (by decide)),
      (verifies _).trans (if_neg (by decide))⟩

end SessionHistory
end Teller
