import Teller.Proofs.Shelving

/-! How a call that puts tasks away treats each task of the queue and of its archive. -/
namespace Teller
open Broker
open Transaction (Buffer)

structure Clearance where
  limits : ArchiveLimits
  before : Rows
  queue : String
  now : Moment
  error : String
  gone : TaskRecord → Prop

namespace Clearance
variable {k : Clearance} {s : State} {own own' : Buffer} {r x : TaskRecord} {Event Answer : Type}

def Joins (k : Clearance) (x : TaskRecord) : Prop :=
  k.before.stage k.queue x.id = .archived x ∨
    ∃ r, k.gone r ∧ k.before.stage k.queue r.id = .queued r ∧ x = shelved k.now k.error r

def GivesUp (k : Clearance) (x : TaskRecord) : Prop := ∃ archive : List (Moment × TaskRecord),
  (archive.Pairwise fun a b => a.1 ≤ b.1) ∧ (archive.map (·.2.id)).Nodup ∧
    (∀ e ∈ archive, e.2.state = .archived e.1 ∧ k.Joins e.2) ∧ x ∈ dropped k.limits k.now archive

inductive Moves (k : Clearance) : Stage → Stage → Prop where
  | shelved {r : TaskRecord} (gone : k.gone r) : Moves k (.queued r) (.archived (shelved k.now k.error r))
  | passed {r : TaskRecord} (gone : k.gone r) (gives : k.GivesUp (Broker.shelved k.now k.error r)) :
      Moves k (.queued r) .nowhere
  | dropped {x : TaskRecord} (gives : k.GivesUp x) : Moves k (.archived x) .nowhere

structure Reaches (k : Clearance) (rows : Rows) : Prop where
  tidy : rows.Tidy
  moves : ∀ place id, rows.stage place id = k.before.stage place id ∨
    place = k.queue ∧ k.Moves (k.before.stage place id) (rows.stage place id)

theorem movesQueued {st : Stage} : ¬ k.Moves st (.queued r) := nofun

theorem movesArchived {st : Stage} (moved : k.Moves st (.archived x)) :
    ∃ r, k.gone r ∧ st = .queued r ∧ x = shelved k.now k.error r := by
  cases moved with
  | shelved gone => exact ⟨_, gone, rfl, rfl⟩

theorem reachesQueued {rows : Rows} (h : k.Reaches rows) {place : String} {id : Uuid}
    (queued : rows.stage place id = .queued r) : k.before.stage place id = .queued r := by
  rcases h.moves place id with same | ⟨-, moved⟩
  · exact same.symm.trans queued
  · rw [queued] at moved
    exact absurd moved movesQueued

theorem reachesStart (k : Clearance) (tidy : k.before.Tidy) : k.Reaches k.before := ⟨tidy, fun _ _ => .inl rfl⟩

theorem reachesAway (h : k.Reaches (s.amended own)) (gone : k.gone r) (place : r.queue = k.queue)
    (queued : (s.amended own).stage k.queue r.id = .queued r)
    (ends : Work.Ends s own (putAway k.limits r k.now k.error : Body Event Answer Unit) own' (.ok ())) :
    k.Reaches (s.amended own') ∧ (∀ x, (s.amended own').stage k.queue r.id ≠ .queued x) ∧
      ∀ place id x, id ≠ r.id → (s.amended own).stage place id = .queued x →
        (s.amended own').stage place id = .queued x := by
  obtain ⟨mid, archive, listed, joins, tidy, stages⟩ := endsAway h.tidy ends
  rw [place] at listed joins stages
  have joined (place : String) (id : Uuid) : mid.stage place id = k.before.stage place id ∨
      place = k.queue ∧ k.Moves (k.before.stage place id) (mid.stage place id) := by
    rw [joins]
    split
    · rename_i here
      obtain ⟨rfl, rfl⟩ := here
      exact .inr ⟨rfl, by rw [reachesQueued h queued]; exact .shelved gone⟩
    · exact h.moves place id
  have gives {y : TaskRecord} (mem : y ∈ dropped k.limits k.now archive) : k.GivesUp y := by
    refine ⟨archive, listed.sorted, listed.distinct, fun e mem => ?_, mem⟩
    obtain ⟨stage, state⟩ := (listed.holds e).mp mem
    refine ⟨state, ?_⟩
    rcases joined k.queue e.2.id with same | ⟨-, moved⟩
    · exact .inl (same.symm.trans stage)
    · rw [stage] at moved
      obtain ⟨r, gone, was, same⟩ := movesArchived moved
      have name : e.2.id = r.id := by rw [same]; rfl
      exact .inr ⟨r, gone, name ▸ was, same⟩
  refine ⟨⟨tidy, fun place id => ?_⟩, fun x => ?_, fun place id x other there => ?_⟩
  · rw [stages]
    split
    · rename_i given
      obtain ⟨rfl, named⟩ := given
      obtain ⟨y, mem, rfl⟩ := List.mem_map.mp named
      obtain ⟨e, there, rfl⟩ := memDropped mem
      have stage := ((listed.holds e).mp there).1
      refine .inr ⟨rfl, ?_⟩
      rcases joined k.queue e.2.id with same | ⟨-, moved⟩
      · rw [← same, stage]
        exact .dropped (gives mem)
      · rw [stage] at moved
        obtain ⟨r, gone, was, same⟩ := movesArchived moved
        rw [was]
        exact .passed gone (same ▸ gives mem)
    · exact joined place id
  · rw [stages, joins, if_pos (⟨rfl, rfl⟩ : k.queue = k.queue ∧ r.id = r.id)]
    split <;> simp
  · have still : mid.stage place id = .queued x := by
      rw [joins, if_neg fun here => other here.2]
      exact there
    rw [stages, if_neg ?_]
    · exact still
    · rintro ⟨rfl, named⟩
      obtain ⟨y, mem, rfl⟩ := List.mem_map.mp named
      obtain ⟨e, held, rfl⟩ := memDropped mem
      rw [((listed.holds e).mp held).1] at still
      cases still

end Clearance

end Teller
