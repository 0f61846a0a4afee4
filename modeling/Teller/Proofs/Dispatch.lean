import Teller.Proofs.UnitOfWork

/-! What is handed over to the broker, and what that does to the tables. Every entry is offered once and in
order; the tables lose at most the rows of entries that were taken. -/
namespace Teller.Bank

def noting {σ : Type} (offer : NewTask → σ → Except (Stop EnqueueError) TaskInfo × σ) (task : NewTask) :
    σ × List NewTask → Except (Stop EnqueueError) TaskInfo × σ × List NewTask
  | (s, noted) => ((offer task s).1, (offer task s).2, noted ++ [task])

def aside {σ : Type} (clear : Uuid → σ → Except (Stop StoreError) Unit × σ) (id : Uuid) :
    σ × List NewTask → Except (Stop StoreError) Unit × σ × List NewTask
  | (s, noted) => ((clear id s).1, (clear id s).2, noted)

theorem handOverNoting {σ : Type} (offer : NewTask → σ → Except (Stop EnqueueError) TaskInfo × σ)
    (clear : Uuid → σ → Except (Stop StoreError) Unit × σ) (count : Nat) (entries : List OutboxEntry) (s : σ)
    (noted : List NewTask) :
    let plain := handOver offer clear count entries s
    ∃ offered rest, entries.map (·.task) = offered ++ rest ∧ (∀ n, plain.1 = .ok n → rest = []) ∧
      handOver (noting offer) (aside clear) count entries (s, noted) = (plain.1, plain.2, noted ++ offered) := by
  induction entries generalizing count s noted with
  | nil => exact ⟨[], [], rfl, fun _ _ => rfl, by simp [handOver]⟩
  | cons e rest ih =>
    have onward (count : Nat) (s : σ) :
        let plain := handOver offer clear count rest s
        ∃ offered later, (e :: rest).map (·.task) = offered ++ later ∧ (∀ n, plain.1 = .ok n → later = []) ∧
          handOver (noting offer) (aside clear) count rest (s, noted ++ [e.task]) =
            (plain.1, plain.2, noted ++ offered) := by
      obtain ⟨offered, later, split, all, same⟩ := ih count s (noted ++ [e.task])
      exact ⟨e.task :: offered, later, congrArg (e.task :: ·) split, all, by rw [same]; simp⟩
    have brokeOff (cause : Overflow) (s : σ) :
        ∃ offered later, (e :: rest).map (·.task) = offered ++ later ∧
          (∀ n, (Except.error cause : Except Overflow Nat) = .ok n → later = []) ∧
          ((.error cause, s, noted ++ [e.task]) : Except Overflow Nat × σ × List NewTask) =
            (.error cause, s, noted ++ offered) :=
      ⟨[e.task], rest.map (·.task), rfl, nofun, rfl⟩
    simp only [handOver, noting, aside]
    rcases offer e.task s with ⟨(_ | cause) | _, s⟩
    · exact onward count s
    · exact brokeOff cause s
    · dsimp only
      rcases clear e.id s with ⟨(_ | cause) | _, s⟩
      · exact onward count s
      · exact brokeOff cause s
      · exact onward (count + 1) s

theorem handOverKeeps {σ : Type} {I : σ → Prop} {offer : NewTask → σ → Except (Stop EnqueueError) TaskInfo × σ}
    {clear : Uuid → σ → Except (Stop StoreError) Unit × σ} (offered : ∀ task s, I s → I (offer task s).2)
    (cleared : ∀ id s, I s → I (clear id s).2) (count : Nat) (entries : List OutboxEntry) {s : σ} (h : I s) :
    I (handOver offer clear count entries s).2 := by
  induction entries generalizing count s with
  | nil => exact h
  | cons e rest ih =>
    have first := offered e.task s h
    unfold handOver
    generalize offer e.task s = out at first ⊢
    obtain ⟨(_ | cause) | _, s⟩ := out
    · exact ih count first
    · exact first
    · have last := cleared e.id s first
      dsimp only
      generalize clear e.id s = out at last ⊢
      obtain ⟨(_ | cause) | _, s⟩ := out
      · exact ih count last
      · exact last
      · exact ih (count + 1) last

def offers (entries : List OutboxEntry) (b : Bank) : Except Overflow Nat × Bank × List NewTask :=
  handOver (noting enqueueTask) (aside clearOutbox) 0 entries (b, [])

theorem offersAll {entries : List OutboxEntry} {b c : Bank} {count : Nat}
    (dispatched : dispatch entries b = (.ok count, c)) :
    offers entries b = (.ok count, c, entries.map (·.task)) := by
  obtain ⟨offered, later, split, all, same⟩ := handOverNoting enqueueTask clearOutbox 0 entries b []
  rw [dispatch] at dispatched
  rw [dispatched] at all same
  rw [all count rfl, List.append_nil] at split
  rw [offers, same, split, List.nil_append]

theorem askKeepsAccounts {α : Type} (request : BrokerRequest) (body : Broker.Body Empty Empty α) (b : Bank) :
    (ask request body b).2.accounts = b.accounts := by
  unfold ask
  split
  · rfl
  · have kept : (transact queuesHost _ (fun _ => body) Broker.retries 0 b).2.accounts = b.accounts :=
      Work.transactInvariant (I := fun c : Bank => c.accounts = b.accounts) (fun _ h => h) nofun
        (fun _ _ h => h) (fun e => .failed (.ofCommit e)) _ _ _ rfl
    exact kept

theorem enqueueKeepsAccounts (task : NewTask) (b : Bank) : (enqueueTask task b).2.accounts = b.accounts := by
  unfold enqueueTask
  cases TaskRecord.pending task b.now with
  | error cause => rfl
  | ok record => exact askKeepsAccounts .enqueue (Broker.enqueue record) b

theorem clearRow (id : Uuid) (b : Bank) (r : RowId) :
    let after := (clearOutbox id b).2.accounts.state
    after.value? r = b.accounts.state.value? r ∨ r = Query.outboxRow id ∧ after.value? r = none := by
  have cleared : clearOutbox id b = ((b.runQuery (Query.deleteOutbox id)).1.result.map (·.1),
    (b.runQuery (Query.deleteOutbox id)).2) := rfl
  rw [cleared]
  rcases runStagedTries _ (fun _ => Query.deleteOutbox id) b with ⟨-, same⟩ | ⟨_, last, c, tries, _, _, ends, after⟩
  · exact .inl (congrArg (·.2.accounts.state.value? r) same)
  · rw [show (b.runQuery (Query.deleteOutbox id)).2 = _ from after]
    obtain ⟨value, t, d⟩ := last
    cases tries with
    | last fresh =>
      cases fresh
      generalize (runStaged _ _ b).1.result = result at ends
      cases ends with
      | failed value => cases value
      | refused => exact .inl rfl
      | committed _ ok =>
        have left := Database.valueAfterCommit ok r
        rw [SortedMap.getInsert] at left
        split at left
        · rename_i here; exact .inr ⟨here, left⟩
        · exact .inl left
    | @again _ _ y _ _ _ fresh _ conflict _ =>
      -- Nothing was read that could have been overwritten.
      obtain ⟨_, _, _⟩ := y
      cases fresh
      cases Database.conflictStale conflict

theorem dispatchRow (entries : List OutboxEntry) (b : Bank) (r : RowId) :
    let after := (dispatch entries b).2.accounts.state
    after.value? r = b.accounts.state.value? r ∨
      (∃ e ∈ entries, r = Query.outboxRow e.id) ∧ after.value? r = none := by
  unfold dispatch
  generalize 0 = count
  induction entries generalizing count b with
  | nil => exact .inl rfl
  | cons e rest ih =>
    have onward (count : Nat) {c : Bank} (so : c.accounts.state.value? r = b.accounts.state.value? r ∨
        r = Query.outboxRow e.id ∧ c.accounts.state.value? r = none) :
        let after := (handOver enqueueTask clearOutbox count rest c).2.accounts.state
        after.value? r = b.accounts.state.value? r ∨
          (∃ x ∈ e :: rest, r = Query.outboxRow x.id) ∧ after.value? r = none := by
      rcases ih c count with same | ⟨⟨x, mem, here⟩, gone⟩
      · rcases so with so | ⟨here, gone⟩
        · exact .inl (same.trans so)
        · exact .inr ⟨⟨e, List.mem_cons_self, here⟩, same.trans gone⟩
      · exact .inr ⟨⟨x, List.mem_cons_of_mem _ mem, here⟩, gone⟩
    have offered := congrArg (·.state.value? r) (enqueueKeepsAccounts e.task b)
    simp only [handOver]
    generalize enqueueTask e.task b = taken at offered ⊢
    rcases taken with ⟨(_ | cause) | _, c⟩
    · exact onward count (.inl offered)
    · exact .inl offered
    · have cleared := clearRow e.id c r
      dsimp only at offered cleared ⊢
      rw [offered] at cleared
      generalize clearOutbox e.id c = done at cleared ⊢
      rcases done with ⟨(_ | cause) | _, d⟩
      · exact onward count cleared
      · exact cleared.imp id fun so => ⟨⟨e, List.mem_cons_self, so.1⟩, so.2⟩
      · exact onward (count + 1) cleared

theorem offersDispatch (entries : List OutboxEntry) (b : Bank) :
    ((offers entries b).1, (offers entries b).2.1) = dispatch entries b := by
  obtain ⟨_, _, _, _, same⟩ := handOverNoting enqueueTask clearOutbox 0 entries b []
  rw [offers, same]
  rfl

theorem offersRow {entries : List OutboxEntry} {b after : Bank} {count : Nat} {offered : List NewTask}
    (done : offers entries b = (.ok count, after, offered)) :
    offered = entries.map (·.task) ∧ ∀ r, after.accounts.state.value? r = b.accounts.state.value? r ∨
      (∃ e ∈ entries, r = Query.outboxRow e.id) ∧ after.accounts.state.value? r = none := by
  have dispatched := offersDispatch entries b
  rw [done] at dispatched
  have all := offersAll dispatched.symm
  rw [done] at all
  cases all
  refine ⟨rfl, fun r => ?_⟩
  have row := dispatchRow entries b r
  rwa [← dispatched] at row

variable {Event Answer α : Type}

def runNoting (perform : Event → Bank → Answer × Bank) (body : Nat → Query Event Answer α) (b : Bank) :
    Unitwork α × Bank × List NewTask :=
  let (done, b) := runStaged perform body b
  let runs := done.runs.map (·.map (·.1))
  match done.result with
  | .error e => (⟨.error e, runs⟩, b, [])
  | .ok (value, staged) =>
      if b.plan.dispatches then
        match offers staged b with
        | (.ok _, b, offered) => (⟨.ok value, runs⟩, b, offered)
        | (.error cause, b, offered) => (⟨.error (.overflow cause), runs⟩, b, offered)
      else (⟨.ok value, runs⟩, b, [])

theorem runNotingRun (perform : Event → Bank → Answer × Bank) (body : Nat → Query Event Answer α) (b : Bank) :
    ((b.runNoting perform body).1, (b.runNoting perform body).2.1) = b.run perform body := by
  unfold runNoting run
  rcases runStaged perform body b with ⟨⟨_ | ⟨value, staged⟩, runs⟩, c⟩
  · rfl
  · dsimp only
    split
    · rw [← offersDispatch]
      rcases offers staged c with ⟨_ | _, _, _⟩ <;> rfl
    · rfl

section
variable {perform : Event → Bank → Answer × Bank} {body : Nat → Query Event Answer α} {b c : Bank}
  {runs : List (Except (Stop StoreError) (α × List OutboxEntry))}

theorem notingFailed {e : Stop StoreError} (ran : runStaged perform body b = (⟨.error e, runs⟩, c)) :
    b.runNoting perform body = (⟨.error e, runs.map (·.map (·.1))⟩, c, []) := by
  unfold runNoting
  rw [ran]

theorem notingCommitted {value : α} {staged : List OutboxEntry}
    (ran : runStaged perform body b = (⟨.ok (value, staged), runs⟩, c)) :
    let (done, after, offered) := b.runNoting perform body
    done.runs = runs.map (·.map (·.1)) ∧ (∀ e, done.result ≠ .error (.failed e)) ∧
      ∀ given, done.result = .ok given → given = value ∧
        offered = (if c.plan.dispatches then staged.map (·.task) else []) ∧
        ∀ r, after.accounts.state.value? r = c.accounts.state.value? r ∨
          (∃ e ∈ staged, r = Query.outboxRow e.id) ∧ after.accounts.state.value? r = none := by
  unfold runNoting
  rw [ran]
  dsimp only
  by_cases dispatches : c.plan.dispatches = true
  · rw [if_pos dispatches, if_pos dispatches]
    rcases done : offers staged c with ⟨cause | count, after, offered⟩
    · exact ⟨rfl, nofun, nofun⟩
    · refine ⟨rfl, nofun, ?_⟩
      rintro _ ⟨⟩
      exact ⟨rfl, offersRow done⟩
  · rw [if_neg dispatches, if_neg dispatches]
    refine ⟨rfl, nofun, ?_⟩
    rintro _ ⟨⟩
    exact ⟨rfl, rfl, fun r => .inl rfl⟩

end

/-- A unit of work that fails leaves the bank as rivals have made it and offers nothing. One that succeeds
adds the writes of its last attempt, once, and offers what that attempt has staged; what is taken leaves the
outbox. No attempt begins with anything left over from another. -/
theorem unitWholeOrNothing (perform : Event → Bank → Answer × Bank) (body : Nat → Query Event Answer α)
    (b : Bank) :
    let (done, after, offered) := b.runNoting perform body
    (done, after) = b.run perform body ∧
    ((b.plan.store.room ≤ b.running ∧ done = ⟨.error (.failed .crowded), []⟩ ∧ after = b ∧ offered = []) ∨
    ∃ failed last,
      Tries perform body 0 { b with running := b.running + 1 } failed last ∧
      failed.length ≤ b.plan.store.retries ∧
      done.runs = (failed ++ [last]).map (·.value.map (·.1)) ∧
      Beside perform b last.finish ∧
      (∀ e, done.result = .error (.failed e) →
        after = { last.finish with running := b.running } ∧ offered = [] ∧
        (last.value = .error (.failed e) ∨ ∃ a cause, last.value = .ok a ∧
          (last.finish.accounts.commit last.txn).1 = .error cause ∧ e = .ofCommit cause)) ∧
      ∀ value, done.result = .ok value → ∃ staged,
        last.value = .ok (value, staged) ∧
        (last.finish.accounts.commit last.txn).1 = .ok () ∧
        offered = (if last.finish.plan.dispatches then staged.map (·.task) else []) ∧
        ∀ r, after.accounts.state.value? r =
            (last.txn.writes.get? r).getD (last.finish.accounts.state.value? r) ∨
          (∃ e ∈ staged, r = Query.outboxRow e.id) ∧ after.accounts.state.value? r = none) := by
  have same := runNotingRun perform body b
  rcases runStagedTries perform body b with ⟨full, crowded⟩ | ⟨failed, last, c, tries, few, runs, ends, after⟩
  · rw [notingFailed crowded] at same ⊢
    exact ⟨same, .inl ⟨full, rfl, rfl, rfl⟩⟩
  have rivals : Beside perform b last.finish := besideTries tries (Beside.same.places _)
  rcases ran : runStaged perform body b with ⟨⟨result, tried⟩, d⟩
  rw [ran] at runs after ends
  dsimp only at runs after ends
  subst after runs
  have runs : (failed.map (·.value) ++ [last.value]).map (·.map (·.1)) =
    (failed ++ [last]).map (·.value.map (·.1)) := by simp
  cases ends with
  | @failed e value =>
    rw [notingFailed ran] at same ⊢
    refine ⟨same, .inr ⟨failed, last, tries, few, runs, rivals, ?_, nofun⟩⟩
    rintro _ ⟨⟩
    exact ⟨rfl, rfl, .inl value⟩
  | refused value commit =>
    rw [notingFailed ran] at same ⊢
    refine ⟨same, .inr ⟨failed, last, tries, few, runs, rivals, ?_, nofun⟩⟩
    rintro _ ⟨⟩
    exact ⟨rfl, rfl, .inr ⟨_, _, value, commit, rfl⟩⟩
  | @committed result value commit =>
    obtain ⟨result, staged⟩ := result
    obtain ⟨tried, unfailed, given⟩ := notingCommitted ran
    refine ⟨same, .inr ⟨failed, last, tries, few, tried.trans runs, rivals, ?_, fun r ok => ?_⟩⟩
    · exact fun e failed => absurd failed (unfailed e)
    · obtain ⟨rfl, offered, rows⟩ := given r ok
      refine ⟨staged, value, commit, offered, fun row => ?_⟩
      rw [← Database.valueAfterCommit commit row]
      exact rows row

end Teller.Bank
