import Teller.Proofs.Serializability
import Teller.Proofs.WorkSteps

/-! What a body may come to on given rows with nobody else about, whatever identifiers it draws. A body
that was told step by step what these rows hold has come to just that. -/
namespace Teller.Work
open Transaction (Op Reply Act Underway Buffer Steady)
variable {Event Answer ε α β : Type}

inductive Ends (s : State) : Buffer → Work Event Answer ε α → Buffer → Except ε α → Prop where
  | done {own result} : Ends s own (.done result) own result
  | asked {own own' w op result} (asked : ask w = some op)
      (later : Ends s (Transaction.buffered own op) (w.told (Transaction.reply own s op)) own' result) :
      Ends s own w own' result
  | drew {own own' next result} (id : Uuid) (later : Ends s own (next id) own' result) :
      Ends s own (.fresh next) own' result

section
variable {s : State} {own own' : Buffer} {result : Except ε α}

theorem endsDone {r : Except ε α} (h : Ends s own (.done r : Work Event Answer ε α) own' result) :
    own' = own ∧ result = r := by
  cases h with
  | done => exact ⟨rfl, rfl⟩
  | asked asked _ => cases asked

theorem endsGet {row : RowId} {next : Option Bytes → Work Event Answer ε α}
    (h : Ends s own (.get row next) own' result) :
    Ends s own (next ((own.get? row).getD (s.value? row))) own' result := by
  cases h with
  | asked asked later => cases asked; exact later

theorem endsScan {table : String} {next : List (Bytes × Bytes) → Work Event Answer ε α}
    (h : Ends s own (.scan table next) own' result) :
    Ends s own (next (own.entries.foldl (Transaction.overlay table) (s.table table)).entries) own' result := by
  cases h with
  | asked asked later => cases asked; exact later

theorem endsPut {row : RowId} {value : Bytes} {next : Work Event Answer ε α}
    (h : Ends s own (.put row value next) own' result) : Ends s (own.insert row (some value)) next own' result := by
  cases h with
  | asked asked later => cases asked; exact later

theorem endsDelete {row : RowId} {next : Work Event Answer ε α} (h : Ends s own (.delete row next) own' result) :
    Ends s (own.insert row none) next own' result := by
  cases h with
  | asked asked later => cases asked; exact later

theorem endsFresh {next : Uuid → Work Event Answer ε α} (h : Ends s own (.fresh next) own' result) :
    ∃ id, Ends s own (next id) own' result := by
  cases h with
  | asked asked _ => cases asked
  | drew id later => exact ⟨id, later⟩

theorem endsBind {result : Except ε β} {w : Work Event Answer ε α} {f : α → Work Event Answer ε β}
    (h : Ends s own (w.bind f) own' result) :
    (∃ mid a, Ends s own w mid (.ok a) ∧ Ends s mid (f a) own' result) ∨
      ∃ e, result = .error e ∧ Ends s own w own' (.error e) := by
  induction w generalizing own with
  | done r =>
    cases r with
    | ok a => exact .inl ⟨own, a, .done, h⟩
    | error e =>
      obtain ⟨rfl, rfl⟩ := endsDone h
      exact .inr ⟨e, rfl, .done⟩
  | get row next ih =>
    rcases ih _ (endsGet h) with ⟨mid, a, first, later⟩ | ⟨e, failed, first⟩
    · exact .inl ⟨mid, a, .asked rfl first, later⟩
    · exact .inr ⟨e, failed, .asked rfl first⟩
  | scan table next ih =>
    rcases ih _ (endsScan h) with ⟨mid, a, first, later⟩ | ⟨e, failed, first⟩
    · exact .inl ⟨mid, a, .asked rfl first, later⟩
    · exact .inr ⟨e, failed, .asked rfl first⟩
  | put row value next ih =>
    rcases ih (endsPut h) with ⟨mid, a, first, later⟩ | ⟨e, failed, first⟩
    · exact .inl ⟨mid, a, .asked rfl first, later⟩
    · exact .inr ⟨e, failed, .asked rfl first⟩
  | delete row next ih =>
    rcases ih (endsDelete h) with ⟨mid, a, first, later⟩ | ⟨e, failed, first⟩
    · exact .inl ⟨mid, a, .asked rfl first, later⟩
    · exact .inr ⟨e, failed, .asked rfl first⟩
  | fresh next ih =>
    obtain ⟨id, h⟩ := endsFresh h
    rcases ih id h with ⟨mid, a, first, later⟩ | ⟨e, failed, first⟩
    · exact .inl ⟨mid, a, .drew id first, later⟩
    · exact .inr ⟨e, failed, .drew id first⟩
  | outside event next =>
    cases h with
    | asked asked _ => cases asked

theorem endsCatch {handle : ε → Work Event Answer ε α} {w : Work Event Answer ε α}
    (h : Ends s own (tryCatch w handle) own' result) :
    (∃ a, result = .ok a ∧ Ends s own w own' (.ok a)) ∨
      ∃ mid e, Ends s own w mid (.error e) ∧ Ends s mid (handle e) own' result := by
  induction w generalizing own with
  | done r =>
    cases r with
    | ok a =>
      obtain ⟨rfl, rfl⟩ := endsDone h
      exact .inl ⟨a, rfl, .done⟩
    | error e => exact .inr ⟨own, e, .done, h⟩
  | get row next ih =>
    rcases ih _ (endsGet h) with ⟨a, done, first⟩ | ⟨mid, e, first, later⟩
    · exact .inl ⟨a, done, .asked rfl first⟩
    · exact .inr ⟨mid, e, .asked rfl first, later⟩
  | scan table next ih =>
    rcases ih _ (endsScan h) with ⟨a, done, first⟩ | ⟨mid, e, first, later⟩
    · exact .inl ⟨a, done, .asked rfl first⟩
    · exact .inr ⟨mid, e, .asked rfl first, later⟩
  | put row value next ih =>
    rcases ih (endsPut h) with ⟨a, done, first⟩ | ⟨mid, e, first, later⟩
    · exact .inl ⟨a, done, .asked rfl first⟩
    · exact .inr ⟨mid, e, .asked rfl first, later⟩
  | delete row next ih =>
    rcases ih (endsDelete h) with ⟨a, done, first⟩ | ⟨mid, e, first, later⟩
    · exact .inl ⟨a, done, .asked rfl first⟩
    · exact .inr ⟨mid, e, .asked rfl first, later⟩
  | fresh next ih =>
    obtain ⟨id, h⟩ := endsFresh h
    rcases ih id h with ⟨a, done, first⟩ | ⟨mid, e, first, later⟩
    · exact .inl ⟨a, done, .drew id first⟩
    · exact .inr ⟨mid, e, .drew id first, later⟩
  | outside event next =>
    cases h with
    | asked asked _ => cases asked

def Spares (r : RowId) : Op → Prop
  | .put row _ | .delete row => r ≠ row
  | .get _ | .scan _ => True

theorem bufferedSpares {r : RowId} {op : Op} (h : Spares r op) (own : Buffer) :
    (Transaction.buffered own op).get? r = own.get? r := by
  cases op with
  | get row => rfl
  | scan table => rfl
  | put row value => simp [Transaction.buffered, show r ≠ row from h]
  | delete row => simp [Transaction.buffered, show r ≠ row from h]

theorem endsSpares {r : RowId} {w : Work Event Answer ε α} (h : Ends s own w own' result)
    (spares : w.Keeps (fun (_ : Unit) op _ => Spares r op) (fun _ _ => True) ()) : own'.get? r = own.get? r := by
  induction h with
  | done => rfl
  | @asked own _ _ op _ asked _ ih =>
    obtain ⟨_, allowed, rest⟩ := keepsTold spares asked
    have later := rest ⟨0, ∅, ∅, own⟩ s
    rw [Transaction.performReply] at later
    rw [ih later, bufferedSpares allowed]
  | drew id _ ih => exact ih (spares id)

end

inductive Follows (w : Work Event Answer ε α) : List Act → Work Event Answer ε α → Prop where
  | nil : Follows w [] w
  | snoc {acts rest op own reply} (earlier : Follows w acts rest) (asked : rest.ask = some op) :
      Follows w (acts ++ [⟨op, own, reply⟩]) (rest.told reply)
  | drew {acts next} (earlier : Follows w acts (.fresh next)) (id : Uuid) : Follows w acts (next id)

theorem followsLed {w rest : Work Event Answer ε α} {acts : List Act} (h : w.Leads acts rest) :
    w.Follows acts rest := by
  induction h with
  | nil => exact .nil
  | snoc earlier asked ih => exact .snoc ih asked

theorem endsFollowed {s : State} {w rest : Work Event Answer ε α} {acts : List Act} (h : w.Follows acts rest)
    {t : Transaction} (same : ((acts.map (·.op)).foldl (Underway.act s) ⟨t, []⟩).acts = acts) {own : Buffer}
    {result : Except ε α}
    (ends : Ends s ((acts.map (·.op)).foldl (Underway.act s) ⟨t, []⟩).txn.writes rest own result) :
    Ends s t.writes w own result := by
  induction h with
  | nil => exact ends
  | @snoc acts rest op before reply earlier asked ih =>
    rw [List.map_append, List.foldl_append] at same ends
    simp only [List.map_cons, List.map_nil, List.foldl_cons, List.foldl_nil] at same ends
    generalize (acts.map (·.op)).foldl (Underway.act s) ⟨t, []⟩ = v at ih same ends
    rw [Transaction.actsOf] at same
    obtain ⟨before, last⟩ := List.append_inj' same rfl
    have replied : Transaction.reply v.txn.writes s op = reply :=
      (List.cons.inj (congrArg (List.map Act.reply) last)).1
    refine ih before (.asked asked ?_)
    rw [replied, ← Transaction.performWrites v.txn s op]
    exact ends
  | drew earlier id ih => exact ih same (.drew id ends)

def ReadsOnce (read : List RowId) (op : Op) (read' : List RowId) : Prop :=
  match op with
  | .get row => row ∉ read ∧ read' = row :: read
  | _ => read' = read

structure Progress (body rest : Work Event Answer ε α) (v : Underway) : Prop where
  follows : body.Follows v.acts rest
  steady : Steady v.acts
  once : ∃ read, rest.Keeps ReadsOnce (fun _ _ => True) read ∧ ∀ a ∈ v.acts, ∀ r, a.op = .get r → r ∈ read

variable {body rest : Work Event Answer ε α} {v : Underway}

theorem progressBegin (once : body.Keeps ReadsOnce (fun _ _ => True) []) (t : Transaction) :
    Progress body body ⟨t, []⟩ := ⟨.nil, .nil, [], once, by simp⟩

theorem progressAct (h : Progress body rest v) {op : Op} (asked : rest.ask = some op) (s : State) :
    Progress body (rest.told (v.txn.perform s op).1) (v.act s op) := by
  obtain ⟨read, keeps, noted⟩ := h.once
  obtain ⟨read', allowed, later⟩ := keepsTold keeps asked
  refine ⟨?_, ?_, read', later v.txn s, ?_⟩
  · rw [Transaction.actsOf, Transaction.performReply]
    exact .snoc h.follows asked
  · rw [Transaction.actsOf]
    refine List.pairwise_append.mpr ⟨h.steady, List.pairwise_singleton _ _, fun a mem b last r misses finds => ?_⟩
    cases List.mem_singleton.mp last
    obtain rfl : op = .get r := finds.1.1
    exact allowed.1 (noted a mem r misses.1.1)
  · intro a mem r gets
    rw [Transaction.actsOf] at mem
    have grows : ∀ x ∈ read, x ∈ read' := by
      cases op with
      | get row => rw [allowed.2]; exact fun x mem => List.mem_cons_of_mem row mem
      | scan table => rw [show read' = read from allowed]; exact fun x mem => mem
      | put row value => rw [show read' = read from allowed]; exact fun x mem => mem
      | delete row => rw [show read' = read from allowed]; exact fun x mem => mem
    rcases List.mem_append.mp mem with mem | mem
    · exact grows r (noted a mem r gets)
    · cases List.mem_singleton.mp mem
      obtain rfl : op = .get r := gets
      rw [allowed.2]
      exact List.mem_cons_self

theorem progressDrew {next : Uuid → Work Event Answer ε α} (h : Progress body (.fresh next) v) (id : Uuid) :
    Progress body (next id) v := by
  obtain ⟨read, keeps, noted⟩ := h.once
  exact ⟨.drew h.follows id, h.steady, read, keeps id, noted⟩

theorem endsSteady {d : SharedDatabase} {who : Nat} {result : Except ε α} (kept : d.Kept)
    (ongoing : d.underway who = some v)
    (follows : body.Follows v.acts (.done result)) (steady : Steady v.acts) (ok : (d.db.commit v.txn).1 = .ok ()) :
    Ends d.db.state ∅ body v.txn.writes result := by
  obtain ⟨same, writes, _⟩ := SharedDatabase.keptCommit kept ongoing ok
  have left : ((v.acts.map (·.op)).foldl (Underway.act d.db.state) ⟨d.db.begin.1, []⟩).txn.writes = v.txn.writes :=
    writes
  have ended : Ends d.db.state ((v.acts.map (·.op)).foldl (Underway.act d.db.state) ⟨d.db.begin.1, []⟩).txn.writes
      (.done result : Work Event Answer ε α) v.txn.writes result := by
    rw [left]
    exact .done
  exact endsFollowed follows (same.mpr steady) ended

theorem endsCommitted {d : SharedDatabase} {who : Nat} {result : Except ε α} (kept : d.Kept)
    (ongoing : d.underway who = some v)
    (h : Progress body (.done result) v) (ok : (d.db.commit v.txn).1 = .ok ()) :
    Ends d.db.state ∅ body v.txn.writes result := endsSteady kept ongoing h.follows h.steady ok

end Teller.Work
