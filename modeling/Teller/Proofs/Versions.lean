import Teller.Database
import Teller.Proofs.SortedMapLaws

/-! What one commit does to a row, to a table and to their versions. A row that was not written keeps
its version; one that was written has the version of the commit, or none if it was deleted. No version
that was there before comes back, except that of a row that is missing. -/
namespace Teller
open Journal (Write Record)

namespace Journal.Write

def row (w : Write) : RowId := ⟨w.table, w.key⟩

def left : Write → Option Bytes
  | put _ _ value => some value
  | delete _ _ => none

end Journal.Write

namespace State

theorem rowAfterWrite (version : Nat) (s : State) (w : Write) (r : RowId) :
    (applyWrite version s w).rows.get? r =
      if r = w.row then w.left.map (⟨version, ·⟩) else s.rows.get? r := by
  cases w with
  | put table key value => exact s.rows.getInsert ⟨table, key⟩ r ⟨version, value⟩
  | delete table key => exact s.rows.getErase ⟨table, key⟩ r

theorem touchedAfterWrite (version : Nat) (s : State) (w : Write) (t : String) :
    (applyWrite version s w).touched.get? t = if t = w.table then some version else s.touched.get? t := by
  cases w with
  | put table key value => exact s.touched.getInsert table t version
  | delete table key => exact s.touched.getInsert table t version

theorem versionAfterWrite (version : Nat) (s : State) (w : Write) :
    (applyWrite version s w).version = s.version := by
  cases w <;> rfl

@[simp] theorem versionAfter (s : State) (ws : List Write) : (s.apply ws).version = s.version + 1 := by
  have kept (v : Nat) (start : State) : (ws.foldl (applyWrite v) start).version = start.version := by
    induction ws generalizing start with
    | nil => rfl
    | cons w ws ih => rw [List.foldl_cons, ih, versionAfterWrite]
  exact kept _ _

theorem rowAfterWrites (version : Nat) (s : State) (ws : List Write) (r : RowId) :
    ((∀ w ∈ ws, w.row ≠ r) ∧ (ws.foldl (applyWrite version) s).rows.get? r = s.rows.get? r) ∨
      ∃ w ∈ ws, w.row = r ∧
        (ws.foldl (applyWrite version) s).rows.get? r = w.left.map (⟨version, ·⟩) := by
  induction ws generalizing s with
  | nil => exact .inl ⟨by simp, rfl⟩
  | cons w ws ih =>
    rw [List.foldl_cons]
    rcases ih (applyWrite version s w) with ⟨others, same⟩ | ⟨last, mem, here, found⟩
    · rw [rowAfterWrite] at same
      by_cases here : r = w.row
      · exact .inr ⟨w, List.mem_cons_self, here.symm, by simpa [here] using same⟩
      · refine .inl ⟨?_, by simpa [here] using same⟩
        intro x mem
        rcases List.mem_cons.mp mem with rfl | mem
        · exact fun h => here h.symm
        · exact others x mem
    · exact .inr ⟨last, List.mem_cons_of_mem _ mem, here, found⟩

theorem rowAfter (s : State) (ws : List Write) (r : RowId) :
    ((∀ w ∈ ws, w.row ≠ r) ∧ (s.apply ws).rows.get? r = s.rows.get? r) ∨
      ∃ w ∈ ws, w.row = r ∧ (s.apply ws).rows.get? r = w.left.map (⟨s.version + 1, ·⟩) :=
  rowAfterWrites (s.version + 1) { s with version := s.version + 1 } ws r

theorem touchedAfterWrites (version : Nat) (s : State) (ws : List Write) (t : String) :
    ((∀ w ∈ ws, w.table ≠ t) ∧ (ws.foldl (applyWrite version) s).touched.get? t = s.touched.get? t) ∨
      ((∃ w ∈ ws, w.table = t) ∧ (ws.foldl (applyWrite version) s).touched.get? t = some version) := by
  induction ws generalizing s with
  | nil => exact .inl ⟨by simp, rfl⟩
  | cons w ws ih =>
    rw [List.foldl_cons]
    rcases ih (applyWrite version s w) with ⟨others, same⟩ | ⟨⟨x, mem, here⟩, found⟩
    · rw [touchedAfterWrite] at same
      by_cases here : t = w.table
      · exact .inr ⟨⟨w, List.mem_cons_self, here.symm⟩, by simpa [here] using same⟩
      · refine .inl ⟨?_, by simpa [here] using same⟩
        intro x mem
        rcases List.mem_cons.mp mem with rfl | mem
        · exact fun h => here h.symm
        · exact others x mem
    · exact .inr ⟨⟨x, List.mem_cons_of_mem _ mem, here⟩, found⟩

theorem tableVersionAfter (s : State) (ws : List Write) (t : String) :
    ((∀ w ∈ ws, w.table ≠ t) ∧ (s.apply ws).tableVersion t = s.tableVersion t) ∨
      ((∃ w ∈ ws, w.table = t) ∧ (s.apply ws).tableVersion t = s.version + 1) := by
  have h := touchedAfterWrites (s.version + 1) { s with version := s.version + 1 } ws t
  unfold tableVersion apply
  rcases h with ⟨others, same⟩ | ⟨here, found⟩
  · exact .inl ⟨others, by rw [same]⟩
  · exact .inr ⟨here, by rw [found]; rfl⟩

theorem getTable (s : State) (t : String) (k : Bytes) : (s.table t).get? k = s.value? ⟨t, k⟩ := by
  apply Option.ext
  intro v
  rw [← SortedMap.memEntries]
  simp only [table, List.mem_filterMap, value?, Option.map_eq_some_iff]
  constructor
  · rintro ⟨⟨row, held⟩, mem, here⟩
    simp only [keyed] at here
    split at here
    · rename_i name
      cases here
      exact ⟨held, by rw [← name]; exact SortedMap.memEntries.mp mem, rfl⟩
    · contradiction
  · rintro ⟨held, found, rfl⟩
    exact ⟨(⟨t, k⟩, held), SortedMap.memEntries.mpr found, by simp [keyed]⟩

theorem sameTable {s s' : State} {t : String} (same : ∀ k, s.value? ⟨t, k⟩ = s'.value? ⟨t, k⟩) :
    s.table t = s'.table t :=
  SortedMap.sameLookups fun k => by rw [getTable, getTable, same]

structure Dated (s : State) : Prop where
  row : ∀ {r held}, s.rows.get? r = some held → 0 < held.version ∧ held.version ≤ s.tableVersion r.table
  table : ∀ t, s.tableVersion t ≤ s.version

theorem datedEmpty : Dated {} where
  row h := by cases h
  table _ := Nat.le_refl 0

theorem datedApply {s : State} (h : Dated s) (ws : List Write) : Dated (s.apply ws) where
  row {r held} found := by
    rcases rowAfter s ws r with ⟨others, same⟩ | ⟨w, mem, here, left⟩
    · obtain ⟨pos, le⟩ := h.row (same ▸ found)
      refine ⟨pos, ?_⟩
      rcases tableVersionAfter s ws r.table with ⟨_, same⟩ | ⟨_, fresh⟩
      · omega
      · have := h.table r.table
        omega
    · rw [left] at found
      obtain ⟨value, _, rfl⟩ := Option.map_eq_some_iff.mp found
      refine ⟨Nat.succ_pos _, ?_⟩
      rcases tableVersionAfter s ws r.table with ⟨others, _⟩ | ⟨_, fresh⟩
      · exact absurd (congrArg RowId.table here) (others w mem)
      · simp [fresh]
  table t := by
    have := h.table t
    rw [versionAfter]
    rcases tableVersionAfter s ws t with ⟨_, same⟩ | ⟨_, fresh⟩ <;> omega

theorem datedReplay (records : List Record) : Dated (Database.replay records) := by
  have kept (start : State) (h : Dated start) :
      Dated (records.foldl (fun s r => s.apply r.writes) start) := by
    induction records generalizing start with
    | nil => exact h
    | cons r rs ih => exact ih _ (datedApply h r.writes)
  exact kept {} datedEmpty

theorem rowVersionPos {s : State} (h : Dated s) {r : RowId} :
    s.rowVersion r = 0 ↔ s.rows.get? r = none := by
  unfold rowVersion
  cases found : s.rows.get? r with
  | none => simp
  | some held =>
    have := (h.row found).1
    simp only [Option.map_some, Option.getD_some, reduceCtorEq, iff_false]
    omega

theorem rowVersionLe {s : State} (h : Dated s) (r : RowId) : s.rowVersion r ≤ s.version := by
  unfold rowVersion
  cases found : s.rows.get? r with
  | none => simp
  | some held =>
    have := (h.row found).2
    have := h.table r.table
    simp only [Option.map_some, Option.getD_some]
    omega

theorem rowFate (s : State) (ws : List Write) (r : RowId) :
    (s.apply ws).rows.get? r = s.rows.get? r ∨ (s.apply ws).rowVersion r = 0 ∨
      (s.apply ws).rowVersion r = s.version + 1 := by
  rcases rowAfter s ws r with ⟨_, same⟩ | ⟨w, _, _, left⟩
  · exact .inl same
  · right
    unfold rowVersion
    rw [left]
    cases w.left with
    | none => exact .inl rfl
    | some value => exact .inr rfl

theorem tableFate (s : State) (ws : List Write) (t : String) :
    ((s.apply ws).tableVersion t = s.tableVersion t ∧ (s.apply ws).table t = s.table t) ∨
      (s.apply ws).tableVersion t = s.version + 1 := by
  rcases tableVersionAfter s ws t with ⟨others, same⟩ | ⟨_, fresh⟩
  · refine .inl ⟨same, sameTable fun k => ?_⟩
    unfold value?
    rcases rowAfter s ws ⟨t, k⟩ with ⟨_, kept⟩ | ⟨w, mem, here, _⟩
    · rw [kept]
    · exact absurd (congrArg RowId.table here) (others w mem)
  · exact .inr fresh

end State
end Teller
