import Teller.Work
import Teller.Proofs.SharedDatabase

/-! A body one operation at a time: what it asks for, how it goes on once it is told, and what it keeps
to whatever it is told. -/
namespace Teller.Work
open Transaction (Op Reply Act Underway)
variable {σ γ Event Answer ε α β : Type}

theorem bindDone (w : Work Event Answer ε α) : w.bind (fun a => done (.ok a)) = w := by
  induction w with
  | done result => cases result <;> rfl
  | get _ _ ih | scan _ _ ih | fresh _ ih | outside _ _ ih => simp only [Work.bind, ih]
  | put _ _ _ ih | delete _ _ ih => simp only [Work.bind, ih]

theorem bindAssoc {δ : Type} (w : Work Event Answer ε α) (f : α → Work Event Answer ε β)
    (g : β → Work Event Answer ε δ) : (w.bind f).bind g = w.bind fun a => (f a).bind g := by
  induction w with
  | done result => cases result <;> rfl
  | get _ _ ih | scan _ _ ih | fresh _ ih | outside _ _ ih => simp only [Work.bind, ih]
  | put _ _ _ ih | delete _ _ ih => simp only [Work.bind, ih]

instance : LawfulMonad (Work Event Answer ε) :=
  .mk' (Work Event Answer ε) bindDone (fun _ _ => rfl) bindAssoc

def ask : Work Event Answer ε α → Option Op
  | get row _ => some (.get row)
  | scan table _ => some (.scan table)
  | put row value _ => some (.put row value)
  | delete row _ => some (.delete row)
  | done _ | fresh _ | outside _ _ => none

def told : Work Event Answer ε α → Reply → Work Event Answer ε α
  | get _ next, .value held => next held
  | scan _ next, .rows found => next found
  | put _ _ next, .done => next
  | delete _ next, .done => next
  | w, _ => w

def result? : Work Event Answer ε α → Option α
  | done (.ok value) => some value
  | _ => none

theorem resultIff {w : Work Event Answer ε α} {value : α} : w.result? = some value ↔ w = done (.ok value) := by
  constructor
  · intro h
    unfold result? at h
    split at h
    · cases h; rfl
    · cases h
  · rintro rfl
    rfl

theorem runAsked (host : Host σ Event Answer) {w : Work Event Answer ε α} {op : Op} (asked : w.ask = some op)
    (t : Transaction) (x : σ) :
    w.run host t x = (w.told (t.perform (host.database x).state op).1).run host
      (t.perform (host.database x).state op).2 x := by
  cases w with
  | done result => cases asked
  | get row next => cases asked; rfl
  | scan table next => cases asked; rfl
  | put row value next => cases asked; rfl
  | delete row next => cases asked; rfl
  | fresh next => cases asked
  | outside event next => cases asked

inductive Leads (w : Work Event Answer ε α) : List Act → Work Event Answer ε α → Prop where
  | nil : Leads w [] w
  | snoc {acts rest op own reply} (earlier : Leads w acts rest) (asked : rest.ask = some op) :
      Leads w (acts ++ [⟨op, own, reply⟩]) (rest.told reply)

theorem runLed (host : Host σ Event Answer) {w rest : Work Event Answer ε α} {acts : List Act}
    (h : w.Leads acts rest) (t : Transaction) (x : σ)
    (same : ((acts.map (·.op)).foldl (Underway.act (host.database x).state) ⟨t, []⟩).acts = acts) :
    w.run host t x =
      rest.run host ((acts.map (·.op)).foldl (Underway.act (host.database x).state) ⟨t, []⟩).txn x := by
  induction h with
  | nil => rfl
  | @snoc acts rest op own reply earlier asked ih =>
    rw [List.map_append, List.foldl_append] at same ⊢
    simp only [List.map_cons, List.map_nil, List.foldl_cons, List.foldl_nil] at same ⊢
    generalize (acts.map (·.op)).foldl (Underway.act (host.database x).state) ⟨t, []⟩ = v at ih same ⊢
    obtain ⟨before, last⟩ := List.append_inj' same rfl
    have replied : (v.txn.perform (host.database x).state op).1 = reply :=
      (List.cons.inj (congrArg (List.map Act.reply) last)).1
    rw [ih before, runAsked host asked, replied]
    rfl

/-- Every operation is allowed by `may`, which carries an account of the body along, and the body ends as
`ends` has it, whatever it is told on the way. -/
def Keeps (may : γ → Op → γ → Prop) (ends : γ → Except ε α → Prop) : γ → Work Event Answer ε α → Prop
  | g, done result => ends g result
  | g, get row next => ∃ g', may g (.get row) g' ∧ ∀ held, (next held).Keeps may ends g'
  | g, scan table next => ∃ g', may g (.scan table) g' ∧ ∀ found, (next found).Keeps may ends g'
  | g, put row value next => ∃ g', may g (.put row value) g' ∧ next.Keeps may ends g'
  | g, delete row next => ∃ g', may g (.delete row) g' ∧ next.Keeps may ends g'
  | g, fresh next => ∀ id, (next id).Keeps may ends g
  | g, outside _ next => ∀ answer, (next answer).Keeps may ends g

section
variable {may : γ → Op → γ → Prop} {ends : γ → Except ε α → Prop}

theorem keepsTold {g : γ} {w : Work Event Answer ε α} {op : Op} (h : w.Keeps may ends g)
    (asked : w.ask = some op) :
    ∃ g', may g op g' ∧ ∀ t s, (w.told (Transaction.perform t s op).1).Keeps may ends g' := by
  cases w with
  | done result => cases asked
  | get row next => cases asked; obtain ⟨g', allowed, rest⟩ := h; exact ⟨g', allowed, fun _ _ => rest _⟩
  | scan table next => cases asked; obtain ⟨g', allowed, rest⟩ := h; exact ⟨g', allowed, fun _ _ => rest _⟩
  | put row value next => cases asked; obtain ⟨g', allowed, rest⟩ := h; exact ⟨g', allowed, fun _ _ => rest⟩
  | delete row next => cases asked; obtain ⟨g', allowed, rest⟩ := h; exact ⟨g', allowed, fun _ _ => rest⟩
  | fresh next => cases asked
  | outside event next => cases asked

theorem keepsMono {ends' : γ → Except ε α → Prop} {g : γ} {w : Work Event Answer ε α}
    (h : w.Keeps may ends g) (imp : ∀ g r, ends g r → ends' g r) : w.Keeps may ends' g := by
  induction w generalizing g with
  | done result => exact imp g result h
  | get row next ih => obtain ⟨g', allowed, rest⟩ := h; exact ⟨g', allowed, fun v => ih v (rest v)⟩
  | scan table next ih => obtain ⟨g', allowed, rest⟩ := h; exact ⟨g', allowed, fun v => ih v (rest v)⟩
  | put row value next ih => obtain ⟨g', allowed, rest⟩ := h; exact ⟨g', allowed, ih rest⟩
  | delete row next ih => obtain ⟨g', allowed, rest⟩ := h; exact ⟨g', allowed, ih rest⟩
  | fresh next ih => exact fun id => ih id (h id)
  | outside event next ih => exact fun answer => ih answer (h answer)

theorem keepsBind {ends' : γ → Except ε β → Prop} {f : α → Work Event Answer ε β} {g : γ}
    {w : Work Event Answer ε α}
    (h : w.Keeps may (fun g r => match r with
      | .ok a => (f a).Keeps may ends' g
      | .error e => ends' g (.error e)) g) : (w.bind f).Keeps may ends' g := by
  induction w generalizing g with
  | done result => cases result <;> exact h
  | get row next ih => obtain ⟨g', allowed, rest⟩ := h; exact ⟨g', allowed, fun v => ih v (rest v)⟩
  | scan table next ih => obtain ⟨g', allowed, rest⟩ := h; exact ⟨g', allowed, fun v => ih v (rest v)⟩
  | put row value next ih => obtain ⟨g', allowed, rest⟩ := h; exact ⟨g', allowed, ih rest⟩
  | delete row next ih => obtain ⟨g', allowed, rest⟩ := h; exact ⟨g', allowed, ih rest⟩
  | fresh next ih => exact fun id => ih id (h id)
  | outside event next ih => exact fun answer => ih answer (h answer)

theorem keepsCatch {handle : ε → Work Event Answer ε α} {g : γ} {w : Work Event Answer ε α}
    (h : w.Keeps may (fun g r => match r with
      | .ok a => ends g (.ok a)
      | .error e => (handle e).Keeps may ends g) g) : (tryCatch w handle).Keeps may ends g := by
  induction w generalizing g with
  | done result => cases result <;> exact h
  | get row next ih => obtain ⟨g', allowed, rest⟩ := h; exact ⟨g', allowed, fun v => ih v (rest v)⟩
  | scan table next ih => obtain ⟨g', allowed, rest⟩ := h; exact ⟨g', allowed, fun v => ih v (rest v)⟩
  | put row value next ih => obtain ⟨g', allowed, rest⟩ := h; exact ⟨g', allowed, ih rest⟩
  | delete row next ih => obtain ⟨g', allowed, rest⟩ := h; exact ⟨g', allowed, ih rest⟩
  | fresh next ih => exact fun id => ih id (h id)
  | outside event next ih => exact fun answer => ih answer (h answer)

end

theorem runEnds (host : Host σ Event Answer) {may : γ → Op → γ → Prop} {ends : γ → Except ε α → Prop} {g : γ}
    {w : Work Event Answer ε α} (h : w.Keeps may ends g) (t : Transaction) (x : σ) :
    ∃ g, ends g (w.run host t x).1 := by
  induction w generalizing g t x with
  | done result => exact ⟨g, h⟩
  | get row next ih => obtain ⟨_, _, rest⟩ := h; exact ih _ (rest _) _ _
  | scan table next ih => obtain ⟨_, _, rest⟩ := h; exact ih _ (rest _) _ _
  | put row value next ih => obtain ⟨_, _, rest⟩ := h; exact ih rest _ _
  | delete row next ih => obtain ⟨_, _, rest⟩ := h; exact ih rest _ _
  | fresh next ih => exact ih _ (h _) _ _
  | outside event next ih => exact ih _ (h _) _ _

def firstRun (host : Host σ Event Answer) (w : Work Event Answer ε α) (x : σ) : Except ε α × Transaction × σ :=
  w.run host (host.database x).begin.1 (host.replace x (host.database x).begin.2)

theorem transactCases (host : Host σ Event Answer) (failure : CommitError → ε)
    (body : Nat → Work Event Answer ε α) (retries before : Nat) (x : σ) {value t y}
    (ran : (body before).firstRun host x = (value, t, y)) :
    (∃ e, value = .error e ∧ transact host failure body retries before x = (⟨.error e, [value]⟩, y)) ∨
    (∃ a db, value = .ok a ∧ (host.database y).commit t = (.ok (), db) ∧
      transact host failure body retries before x = (⟨.ok a, [value]⟩, host.replace y db)) ∨
    (∃ a db fewer, value = .ok a ∧ (host.database y).commit t = (.error .conflict, db) ∧ retries = fewer + 1 ∧
      transact host failure body retries before x =
        (⟨(transact host failure body fewer (before + 1) (host.replace y db)).1.result,
          value :: (transact host failure body fewer (before + 1) (host.replace y db)).1.runs⟩,
          (transact host failure body fewer (before + 1) (host.replace y db)).2)) ∨
    (∃ a db cause, value = .ok a ∧ (host.database y).commit t = (.error cause, db) ∧
      (cause = .conflict → retries = 0) ∧
      transact host failure body retries before x = (⟨.error (failure cause), [value]⟩, host.replace y db)) := by
  unfold firstRun at ran
  rw [transact.eq_def]
  simp only [ran]
  cases value with
  | error e => exact .inl ⟨e, rfl, rfl⟩
  | ok a =>
    refine .inr ?_
    obtain ⟨committed, db⟩ := (host.database y).commit t
    rcases committed with cause | ⟨⟩
    · cases retries with
      | zero => exact .inr (.inr ⟨a, db, cause, rfl, rfl, fun _ => rfl, by cases cause <;> rfl⟩)
      | succ fewer =>
        cases cause with
        | conflict => exact .inr (.inl ⟨a, db, fewer, rfl, rfl, rfl, rfl⟩)
        | poisoned => exact .inr (.inr ⟨a, db, .poisoned, rfl, rfl, nofun, rfl⟩)
        | journal cause => exact .inr (.inr ⟨a, db, .journal cause, rfl, rfl, nofun, rfl⟩)
    · exact .inl ⟨a, db, rfl, rfl, rfl⟩

theorem runFollowed (host : Host σ Event Answer) (w : Work Event Answer ε α) (f : α → β) (t : Transaction) (x : σ) :
    (w.bind fun a => done (.ok (f a))).run host t x = ((w.run host t x).1.map f, (w.run host t x).2) := by
  induction w generalizing t x with
  | done result => cases result <;> rfl
  | get _ _ ih | scan _ _ ih | fresh _ ih | outside _ _ ih => exact ih _ _ _
  | put _ _ _ ih | delete _ _ ih => exact ih _ _

theorem transactFollowed (host : Host σ Event Answer) (failure : CommitError → ε) (body : Nat → Work Event Answer ε α)
    (f : α → β) (retries before : Nat) (x : σ) :
    (transact host failure (fun n => (body n).bind fun a => done (.ok (f a))) retries before x).2 =
      (transact host failure body retries before x).2 := by
  induction retries using Nat.strongRecOn generalizing before x with
  | ind retries ih =>
    rcases ran : (body before).firstRun host x with ⟨value, t, y⟩
    have followed : ((body before).bind fun a => done (.ok (f a))).firstRun host x = (value.map f, t, y) := by
      unfold firstRun at ran ⊢
      rw [runFollowed, ran]
    rw [transact.eq_def, transact.eq_def host failure body]
    unfold firstRun at ran followed
    simp only [ran, followed]
    cases value with
    | error e => rfl
    | ok a =>
      obtain ⟨committed, db⟩ := (host.database y).commit t
      rcases committed with cause | ⟨⟩
      · cases retries with
        | zero => cases cause <;> rfl
        | succ fewer =>
          cases cause with
          | conflict => exact ih fewer (Nat.lt_succ_self fewer) _ _
          | poisoned | journal cause => rfl
      · rfl

section
variable {host : Host σ Event Answer} {I : σ → Prop} (draw : ∀ x, I x → I (host.draw x).2)
  (perform : ∀ e x, I x → I (host.perform e x).2)
include draw perform

theorem runInvariant (w : Work Event Answer ε α) (t : Transaction) {x : σ} (h : I x) : I (w.run host t x).2.2 := by
  induction w generalizing t x with
  | done result => exact h
  | get row next ih => exact ih _ _ h
  | scan table next ih => exact ih _ _ h
  | put row value next ih => exact ih _ h
  | delete row next ih => exact ih _ h
  | fresh next ih => exact ih _ _ (draw x h)
  | outside event next ih => exact ih _ _ (perform event x h)

theorem transactInvariant (replace : ∀ x db, I x → I (host.replace x db)) (failure : CommitError → ε)
    (body : Nat → Work Event Answer ε α) (retries before : Nat) {x : σ} (h : I x) :
    I (transact host failure body retries before x).2 := by
  induction retries using Nat.strongRecOn generalizing before x with
  | ind retries ih =>
    have after := runInvariant draw perform (body before) (host.database x).begin.1
      (replace x (host.database x).begin.2 h)
    rcases ran : (body before).firstRun host x with ⟨value, t, y⟩
    have after : I y := by rw [firstRun] at ran; rwa [ran] at after
    rcases transactCases host failure body retries before x ran with ⟨_, _, done⟩ | ⟨_, _, _, _, done⟩ |
      ⟨_, _, fewer, _, _, rfl, done⟩ | ⟨_, _, _, _, _, _, done⟩
    · rw [done]; exact after
    · rw [done]; exact replace _ _ after
    · rw [done]; exact ih fewer (Nat.lt_succ_self fewer) _ (replace _ _ after)
    · rw [done]; exact replace _ _ after

end

inductive Concludes (host : Host σ Event Answer) (failure : CommitError → ε) (t : Transaction) (y : σ) :
    Except ε α → Except ε α → σ → Prop where
  | failed {e} : Concludes host failure t y (.error e) (.error e) y
  | committed {a} (commit : ((host.database y).commit t).1 = .ok ()) :
      Concludes host failure t y (.ok a) (.ok a) (host.replace y ((host.database y).commit t).2)
  | refused {a cause} (commit : ((host.database y).commit t).1 = .error cause) :
      Concludes host failure t y (.ok a) (.error (failure cause)) y

theorem transactLast {host : Host σ Event Answer} {I : σ → Prop} (failure : CommitError → ε)
    (body : Nat → Work Event Answer ε α) (lens : ∀ x, host.replace x (host.database x) = x)
    (attempt : ∀ {n x value t y}, I x → (body n).firstRun host x = (value, t, y) → I y)
    (retries before : Nat) {x : σ} (h : I x) :
    let out := transact host failure body retries before x
    ∃ n start value t y, out.1.runs.length = n + 1 ∧ n ≤ retries ∧ I start ∧
      (body (before + n)).firstRun host start = (value, t, y) ∧
      Concludes host failure t y value out.1.result out.2 := by
  induction retries using Nat.strongRecOn generalizing before x with
  | ind retries ih =>
    rcases ran : (body before).firstRun host x with ⟨value, t, y⟩
    have left {db : Database} {cause : CommitError} (refused : (host.database y).commit t = (.error cause, db)) :
        host.replace y db = y := by
      have same := Database.commitRefused (congrArg Prod.fst refused)
      rw [refused] at same
      rw [show db = host.database y from same, lens]
    rcases transactCases host failure body retries before x ran with ⟨e, rfl, done⟩ | ⟨a, db, rfl, committed, done⟩ |
      ⟨a, db, fewer, rfl, conflict, rfl, done⟩ | ⟨a, db, cause, rfl, refused, _, done⟩
    · rw [done]
      exact ⟨0, x, _, t, y, rfl, Nat.zero_le _, h, ran, .failed⟩
    · obtain rfl := congrArg Prod.snd committed
      rw [done]
      exact ⟨0, x, _, t, y, rfl, Nat.zero_le _, h, ran, .committed (congrArg Prod.fst committed)⟩
    · rw [left conflict] at done
      rw [done]
      obtain ⟨n, start, value, t, z, runs, few, holds, last, ends⟩ :=
        ih fewer (Nat.lt_succ_self fewer) (before + 1) (attempt h ran)
      refine ⟨n + 1, start, value, t, z, congrArg Nat.succ runs, Nat.succ_le_succ few, holds, ?_, ends⟩
      rw [← last, Nat.add_assoc, Nat.add_comm 1 n]
    · rw [left refused] at done
      rw [done]
      exact ⟨0, x, _, t, y, rfl, Nat.zero_le _, h, ran, .refused (congrArg Prod.fst refused)⟩

end Teller.Work
