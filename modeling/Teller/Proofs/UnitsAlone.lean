import Teller.Bank.Sessions
import Teller.Proofs.BankScript
import Teller.Proofs.Json.SessionRows
import Teller.Proofs.TableViews
import Teller.Proofs.UnitOfWork

/-! Units of work with nobody else about. They never run into a conflict; what they find is what the tables
hold, and other than the tables they touch nothing but the supply of identifiers. -/
namespace Teller
open Transaction (Op Buffer)
variable {α : Type} {perform : Empty → Bank → Empty × Bank}

namespace Work
variable {ε : Type}

structure Quiet (b : Bank) (own : Buffer) (w : Work Empty Empty ε α) (out : Except ε α × Transaction × Bank) :
    Prop where
  bank : ∃ supply, out.2.2 = { b with supply }
  fresh : out.2.1.isStale b.accounts.state = false
  ends : Ends b.accounts.state own w out.2.1.writes out.1

theorem quietAsked {w : Work Empty Empty ε α} {op : Op} (asked : w.ask = some op) {t : Transaction} {b : Bank}
    (later : Quiet b (t.perform b.accounts.state op).2.writes (w.told (t.perform b.accounts.state op).1)
      ((w.told (t.perform b.accounts.state op).1).run (Bank.accountsHost perform)
        (t.perform b.accounts.state op).2 b)) :
    Quiet b t.writes w (w.run (Bank.accountsHost perform) t b) := by
  rw [runAsked _ asked]
  refine ⟨later.bank, later.fresh, .asked asked ?_⟩
  rw [← Transaction.performWrites, ← Transaction.performReply]
  exact later.ends

theorem runQuiet (perform : Empty → Bank → Empty × Bank) (w : Work Empty Empty ε α) {t : Transaction} {b : Bank}
    (fresh : t.isStale b.accounts.state = false) :
    Quiet b t.writes w (w.run (Bank.accountsHost perform) t b) := by
  induction w generalizing t b with
  | done r => exact ⟨⟨b.supply, rfl⟩, fresh, .done⟩
  | get row next ih => exact quietAsked rfl (ih _ (Transaction.freshPerform fresh (.get row)))
  | scan table next ih => exact quietAsked rfl (ih _ (Transaction.freshPerform fresh (.scan table)))
  | put row value next ih => exact quietAsked rfl (ih (Transaction.freshPerform fresh (.put row value)))
  | delete row next ih => exact quietAsked rfl (ih (Transaction.freshPerform fresh (.delete row)))
  | fresh next ih =>
    obtain ⟨⟨supply, bank⟩, still, ends⟩ := ih b.drawId.1 (b := b.drawId.2) fresh
    exact ⟨⟨supply, bank⟩, still, .drew b.drawId.1 ends⟩
  | outside event next => cases event

end Work

namespace Bank

def HasRoom (b : Bank) : Prop := b.running < b.plan.store.room

inductive Settles (s : State) (own : Buffer) (value : Except (Stop StoreError) α) :
    Except (Stop StoreError) α → State → Prop where
  | failed {e} (failed : value = .error e) : Settles s own value (.error e) s
  | refused {e} (writes : own ≠ ∅) : Settles s own value (.error e) s
  | read {a} (done : value = .ok a) (only : own = ∅) : Settles s own value (.ok a) s
  | written {a s'} (done : value = .ok a) (writes : own ≠ ∅)
      (rows : ∀ r, s'.value? r = (own.get? r).getD (s.value? r)) : Settles s own value (.ok a) s'

section
variable {s s' : State} {own : Buffer} {value result : Except (Stop StoreError) α}

theorem settlesOk {a : α} (settles : Settles s own value (.ok a) s') : value = .ok a := by
  cases settles with
  | read done => exact done
  | written done => exact done

theorem settlesFailed {e} (settles : Settles s own value (.error e) s') : s' = s := by
  cases settles with
  | failed | refused => rfl

theorem settlesRead (settles : Settles s ∅ value result s') : result = value ∧ s' = s := by
  cases settles with
  | failed failed => exact ⟨failed.symm, rfl⟩
  | refused writes => exact absurd rfl writes
  | read done => exact ⟨done.symm, rfl⟩
  | written _ writes => exact absurd rfl writes

theorem settlesMap {β : Type} (f : α → β) (settles : Settles s own value result s') :
    Settles s own (value.map f) (result.map f) s' := by
  cases settles with
  | failed failed => exact .failed (by rw [failed]; rfl)
  | refused writes => exact .refused writes
  | read done only => exact .read (by rw [done]; rfl) only
  | written done writes rows => exact .written (by rw [done]; rfl) writes rows

end

variable {query : Query Empty Empty α} {b : Bank}

theorem tryQuiet {y : Try α} (alone : y.Fresh perform query b) :
    (∃ supply, y.finish = { b with supply, accounts := b.accounts.begin.2 }) ∧
      y.txn.isStale b.accounts.state = false ∧
      Work.Ends b.accounts.state ∅ (query.run []) y.txn.writes y.value := by
  obtain ⟨value, t, c⟩ := y
  have quiet := Work.runQuiet perform (query.run []) (t := ⟨b.accounts.nextTxnId, ∅, ∅, ∅⟩)
    (b := { b with accounts := b.accounts.begin.2 }) rfl
  rw [show (query.run []).run (accountsHost perform) _ _ = _ from alone] at quiet
  exact ⟨quiet.bank, quiet.fresh, quiet.ends⟩

theorem settlesTry {y : Try α} (alone : y.Fresh perform query b) {result c} (ends : y.Ends result c) :
    (∃ supply accounts, c = { b with supply, accounts }) ∧
      Settles b.accounts.state y.txn.writes y.value result c.accounts.state := by
  obtain ⟨⟨supply, same⟩, fresh, -⟩ := tryQuiet alone
  have state : y.finish.accounts.state = b.accounts.state := by rw [same]; rfl
  have readOnly (only : y.txn.writes = ∅) : y.finish.accounts.commit y.txn = (.ok (), y.finish.accounts) := by
    have empty : y.txn.isReadOnly = true := SortedMap.isEmptyIff.mpr only
    rw [Database.commit, if_neg (by simp [state, fresh]), if_pos empty]
  cases ends with
  | failed failed => exact ⟨⟨supply, _, same⟩, state ▸ .failed failed⟩
  | refused done refused =>
    refine ⟨⟨supply, _, same⟩, state ▸ .refused fun only => ?_⟩
    rw [readOnly only] at refused
    cases refused
  | committed done ok =>
    refine ⟨⟨supply, _, by rw [same]⟩, ?_⟩
    by_cases only : y.txn.writes = ∅
    · rw [readOnly only, ← state]
      exact .read done only
    · exact .written done only fun r => state ▸ Database.valueAfterCommit ok r

theorem queryAsks (query : Query Empty Empty α) (b : Bank) :
    ∃ perform, runQuery query b = runStaged perform (fun _ => query) b := ⟨_, rfl⟩

theorem stagedAlone (perform : Empty → Bank → Empty × Bank) (query : Query Empty Empty α) (room : b.HasRoom) :
    let out := runStaged perform (fun _ => query) b
    ∃ own value supply accounts, Work.Ends b.accounts.state ∅ (query.run []) own value ∧
      out.2 = { b with supply, accounts } ∧ Settles b.accounts.state own value out.1.result accounts.state := by
  intro out
  obtain ⟨failed, last, tries, _, _, ends⟩ :=
    transactTries perform (fun _ => query) b.plan.store.retries 0 { b with running := b.running + 1 }
  have ran : out = (_, _) := if_pos room
  rw [ran]
  dsimp only
  generalize transact (accountsHost perform) _ _ b.plan.store.retries 0 _ = result at ends
  cases tries with
  | last alone =>
    obtain ⟨-, -, ended⟩ := tryQuiet alone
    obtain ⟨⟨supply, accounts, same⟩, settles⟩ := settlesTry alone ends
    rw [same] at settles
    exact ⟨_, _, supply, accounts, ended, by rw [same], settles⟩
  | again alone _ conflict _ =>
    obtain ⟨⟨supply, same⟩, checked, _⟩ := tryQuiet alone
    have stale := Database.conflictStale conflict
    rw [same] at stale
    cases checked.symm.trans stale

theorem runAloneSettles (room : b.HasRoom) {plain : Except (Stop StoreError) α} {own : Buffer}
    (bare : ∀ left value, Work.Ends b.accounts.state ∅ (query.run []) left value →
      left = own ∧ value = plain.map (·, [])) :
    let out := runAlone query b
    ∃ supply accounts, out.2 = { b with supply, accounts } ∧
      Settles b.accounts.state own plain out.1 accounts.state := by
  intro out
  obtain ⟨perform, ran⟩ : ∃ perform, out =
      ((run perform (fun _ => query) b).1.result, (run perform (fun _ => query) b).2) := ⟨_, rfl⟩
  obtain ⟨left, value, supply, accounts, ends, after, settles⟩ := stagedAlone perform query room
  obtain ⟨rfl, rfl⟩ := bare left value ends
  have forget : (plain.map (·, ([] : List OutboxEntry))).map Prod.fst = plain := by
    cases plain <;> rfl
  refine ⟨supply, accounts, ?_⟩
  rw [ran]
  unfold run
  generalize runStaged _ _ b = staged at after settles ⊢
  obtain ⟨⟨result, runs⟩, c⟩ := staged
  have settled := settlesMap Prod.fst settles
  rw [forget] at settled
  cases result with
  | error e => exact ⟨after, settled⟩
  | ok result =>
    obtain ⟨a, staged⟩ := result
    obtain rfl : staged = [] := by
      cases plain with
      | error e => cases settlesOk settles
      | ok v => cases settlesOk settles; rfl
    dsimp only
    split <;> exact ⟨after, settled⟩

end Bank

def State.Puts (s : State) (row : RowId) (value : Bytes) (s' : State) : Prop :=
  ∀ r, s'.value? r = if r = row then some value else s.value? r

namespace Query
variable {s : State} {own : Buffer} {result : Except (Stop StoreError) (Session × List OutboxEntry)}

def found {α : Type} (codec : Json.Codec α) : Option Bytes → Except (Stop StoreError) α
  | some value => decoded codec value
  | none => .error (.failed .notFound)

def rowAt (codec : Json.Codec α) (s : State) (row : RowId) : Except (Stop StoreError) α :=
  match s.value? row with
  | some value => decoded codec value
  | none => .error (.failed .notFound)

def created (now : Moment) (new : NewSession) (s : State) : Except (Stop StoreError) Session :=
  if (s.value? (sessionRow new.id)).isSome then
    .error (.failed (.taken ("session '" ++ new.id.toText ++ "' already exists")))
  else .ok (Session.create new now)

theorem createdNew {now : Moment} {new : NewSession} {session : Session} (ok : created now new s = .ok session) :
    s.value? (sessionRow new.id) = none ∧ session = .create new now := by
  unfold created at ok
  cases held : s.value? (sessionRow new.id) with
  | some value => rw [held] at ok; cases ok
  | none => rw [held] at ok; cases ok; exact ⟨rfl, rfl⟩

def blocked (id : Uuid) (on : Bool) (s : State) : Except (Stop StoreError) Session :=
  (rowAt Session.codec s (sessionRow id)).map ({ · with isBlocked := on })

def kept (row : RowId) : Except (Stop StoreError) Session → Buffer
  | .ok session => (∅ : Buffer).insert row (some (Json.encode Session.codec session))
  | .error _ => ∅

theorem loadLeaves {codec : Json.Codec α} {row : RowId} {own' : Buffer} {staged : List OutboxEntry} {result}
    (h : Work.Ends s own ((load codec row : Query Empty Empty α).run staged) own' result) :
    own' = own ∧ result = (found codec (s.amended own row)).map (·, staged) := by
  rw [loadRun] at h
  have h := Work.endsGet h
  unfold State.amended
  cases held : (own.get? row).getD (s.value? row) with
  | none =>
    rw [held] at h
    exact Work.endsDone h
  | some value =>
    rw [held] at h
    dsimp only at h
    rw [decodeRun] at h
    exact Work.endsDone h

theorem loadEnds (codec : Json.Codec α) (row : RowId) {result}
    (h : Work.Ends s ∅ ((load codec row : Query Empty Empty α).run []) own result) :
    own = ∅ ∧ result = (rowAt codec s row).map (·, []) := loadLeaves h

theorem makeLeaves {row : RowId} {value : Bytes} {made : α × List OutboxEntry} {refusal} {own' : Buffer} {result}
    (h : Work.Ends s own (.get row fun held => if held.isSome then .done (.error refusal)
      else .put row value (.done (.ok made)) : Work Empty Empty (Stop StoreError) _) own' result) :
    s.amended own row = none ∧ own' = own.insert row (some value) ∧ result = .ok made ∨
      (s.amended own row).isSome ∧ own' = own ∧ result = .error refusal := by
  have h := Work.endsGet h
  unfold State.amended
  cases held : (own.get? row).getD (s.value? row) with
  | none =>
    rw [held] at h
    exact .inl ⟨rfl, Work.endsDone (Work.endsPut h)⟩
  | some there =>
    rw [held] at h
    exact .inr ⟨rfl, Work.endsDone h⟩

theorem createSessionEnds {now : Moment} {new : NewSession}
    (h : Work.Ends s ∅ ((createSession now new : Query Empty Empty Session).run []) own result) :
    own = kept (sessionRow new.id) (created now new s) ∧ result = (created now new s).map (·, []) := by
  rw [createSessionRun] at h
  have same : s.amended ∅ (sessionRow new.id) = s.value? (sessionRow new.id) := rfl
  unfold created
  rcases makeLeaves h with ⟨free, ends⟩ | ⟨there, ends⟩
  · rw [← same, free]
    exact ends
  · rw [← same, if_pos there]
    exact ends

theorem setBlockedEnds {id : Uuid} {on : Bool}
    (h : Work.Ends s ∅ ((setBlocked id on : Query Empty Empty Session).run []) own result) :
    own = kept (sessionRow id) (blocked id on s) ∧ result = (blocked id on s).map (·, []) := by
  rw [setBlockedRun] at h
  unfold blocked
  rcases Work.endsBind h with ⟨mid, ⟨session, staged⟩, first, later⟩ | ⟨e, rfl, first⟩
  · obtain ⟨rfl, found⟩ := loadEnds _ _ first
    cases read : rowAt Session.codec s (sessionRow id) with
    | error e => rw [read] at found; cases found
    | ok there =>
      rw [read] at found
      cases found
      exact Work.endsDone (Work.endsPut later)
  · obtain ⟨only, found⟩ := loadEnds _ _ first
    cases read : rowAt Session.codec s (sessionRow id) with
    | error e => rw [read] at found; cases found; exact ⟨only, rfl⟩
    | ok there => rw [read] at found; cases found

end Query

namespace Bank
variable {b : Bank}

theorem loadAlone (room : b.HasRoom) {codec : Json.Codec α} {row : RowId} {result c}
    (ran : runAlone (Query.load codec row) b = (result, c)) :
    result = Query.rowAt codec b.accounts.state row ∧
      ∃ supply accounts, c = { b with supply, accounts } ∧ accounts.state = b.accounts.state := by
  have alone := runAloneSettles room fun _ _ => Query.loadEnds codec row
  rw [ran] at alone
  obtain ⟨supply, accounts, left, settles⟩ := alone
  obtain ⟨same, state⟩ := settlesRead settles
  exact ⟨same, supply, accounts, left, state⟩

theorem settlesKept {s s' : State} {row : RowId} {session : Session} {value}
    (settles : Settles s (Query.kept row (.ok session)) value (.ok session) s') :
    s.Puts row (Json.encode Session.codec session) s' := by
  intro r
  cases settles with
  | read _ only =>
    have gone := congrArg (SortedMap.get? · row) only
    simp [Query.kept] at gone
  | written _ _ rows =>
    rw [rows, Query.kept, SortedMap.getInsert]
    split <;> rfl

theorem keepAlone {query : Query Empty Empty Session} {row : RowId} {plain : Except (Stop StoreError) Session}
    (room : b.HasRoom)
    (ends : ∀ own value, Work.Ends b.accounts.state ∅ (query.run []) own value →
      own = Query.kept row plain ∧ value = plain.map (·, []))
    {result c} (ran : runAlone query b = (result, c)) :
    ∃ supply accounts, c = { b with supply, accounts } ∧
      ((∃ e, result = .error e) ∧ accounts.state = b.accounts.state ∨
        ∃ session, result = .ok session ∧ plain = .ok session ∧
          b.accounts.state.Puts row (Json.encode Session.codec session) accounts.state) := by
  have alone := runAloneSettles room ends
  rw [ran] at alone
  obtain ⟨supply, accounts, left, settles⟩ := alone
  refine ⟨supply, accounts, left, ?_⟩
  cases result with
  | error e => exact .inl ⟨⟨e, rfl⟩, settlesFailed settles⟩
  | ok session =>
    obtain rfl := settlesOk settles
    exact .inr ⟨session, rfl, rfl, settlesKept settles⟩

theorem createSessionAlone (room : b.HasRoom) {new : NewSession} {result c}
    (ran : createSession new b = (result, c)) :
    ∃ supply accounts, c = { b with supply, accounts } ∧
      ((∃ e, result = .error e) ∧ accounts.state = b.accounts.state ∨
        ∃ session, result = .ok session ∧ Query.created b.now new b.accounts.state = .ok session ∧
          b.accounts.state.Puts (Query.sessionRow new.id) (Json.encode Session.codec session) accounts.state) :=
  keepAlone room (fun _ _ => Query.createSessionEnds) ran

theorem setBlockedAlone (room : b.HasRoom) {id : Uuid} {on : Bool} {result c}
    (ran : setBlocked id on b = (result, c)) :
    ∃ supply accounts, c = { b with supply, accounts } ∧
      ((∃ e, result = .error e) ∧ accounts.state = b.accounts.state ∨
        ∃ session, result = .ok session ∧ Query.blocked id on b.accounts.state = .ok session ∧
          b.accounts.state.Puts (Query.sessionRow id) (Json.encode Session.codec session) accounts.state) :=
  keepAlone room (fun _ _ => Query.setBlockedEnds) ran

end Bank
end Teller
