import Teller.SortedMap

/-! What a look-up finds after an insertion or a removal. With these laws a map is the same as what
its look-ups answer, and no proof elsewhere opens the list of its entries. -/
namespace Teller.SortedMap
variable {κ ν : Type} [Ord κ]

@[simp] theorem getEmpty (k : κ) : (∅ : SortedMap κ ν).get? k = none := rfl

@[simp] theorem entriesEmpty : (∅ : SortedMap κ ν).entries = [] := rfl

theorem isEmptyIff {m : SortedMap κ ν} : m.isEmpty = true ↔ m = ∅ := by
  constructor
  · intro h
    have empty : m.entries = [] := List.isEmpty_iff.mp h
    exact ext empty
  · rintro rfl; rfl

theorem lookupBelow {k : κ} {l : List (κ × ν)} (h : ∀ e ∈ l, compare k e.1 = .lt) :
    lookup k l = none := by
  cases l with
  | nil => rfl
  | cons e rest => simp [lookup, h e List.mem_cons_self]

variable [Std.TransOrd κ] [Std.LawfulEqOrd κ]

theorem memLookup {k : κ} {v : ν} {l : List (κ × ν)}
    (h : l.Pairwise fun a b => compare a.1 b.1 = .lt) : (k, v) ∈ l ↔ lookup k l = some v := by
  induction l with
  | nil => simp [lookup]
  | cons e rest ih =>
    obtain ⟨first, others⟩ := List.pairwise_cons.mp h
    simp only [List.mem_cons, lookup]
    split
    · rename_i lt
      have notHere : (k, v) ≠ e := by rintro rfl; simp at lt
      have notBehind : (k, v) ∉ rest := fun hx => by
        have below : compare e.1 k = .lt := first _ hx
        have above : compare e.1 k = .gt := Std.OrientedCmp.gt_of_lt lt
        simp [below] at above
      simp [notHere, notBehind]
    · rename_i eq
      have here : k = e.1 := Std.LawfulEqCmp.eq_of_compare eq
      have notBehind : (k, v) ∉ rest := fun hx => by
        have below : compare e.1 k = .lt := first _ hx
        simp [here] at below
      simp only [notBehind, or_false, Option.some.injEq]
      constructor
      · rintro rfl; rfl
      · rintro rfl; exact Prod.ext here rfl
    · rename_i gt
      have notHere : (k, v) ≠ e := by rintro rfl; simp at gt
      simp [notHere, ih others]

theorem memEntries {m : SortedMap κ ν} {k : κ} {v : ν} :
    (k, v) ∈ m.entries ↔ m.get? k = some v := memLookup m.ascending

theorem sortedUnique {l l' : List (κ × ν)}
    (h : l.Pairwise fun a b => compare a.1 b.1 = .lt) (h' : l'.Pairwise fun a b => compare a.1 b.1 = .lt)
    (same : ∀ k, lookup k l = lookup k l') : l = l' := by
  have distinct {xs : List (κ × ν)} (sorted : xs.Pairwise fun a b => compare a.1 b.1 = .lt) : xs.Nodup :=
    sorted.imp fun {a b} lt eq => by subst eq; simp at lt
  have perm : l.Perm l' := by
    rw [List.perm_ext_iff_of_nodup (distinct h) (distinct h')]
    intro ⟨k, v⟩
    rw [memLookup h, memLookup h', same]
  refine perm.eq_of_pairwise (fun a b _ _ hab hba => ?_) h h'
  have above := Std.OrientedCmp.gt_of_lt hba
  simp [hab] at above

theorem sameLookups {m m' : SortedMap κ ν} (same : ∀ k, m.get? k = m'.get? k) : m = m' :=
  ext (sortedUnique m.ascending m'.ascending same)

variable [DecidableEq κ]

theorem lookupPlace (k k' : κ) (v : ν) (l : List (κ × ν)) :
    lookup k' (place k v l) = if k' = k then some v else lookup k' l := by
  by_cases same : k' = k
  · subst same
    induction l with
    | nil => simp [place, lookup]
    | cons e rest ih =>
      simp only [place]
      split
      · simp [lookup]
      · simp [lookup]
      · rename_i gt; simpa [lookup, gt] using ih
  · have apart : compare k' k ≠ .eq := fun h => same (Std.LawfulEqCmp.eq_of_compare h)
    simp only [same, if_false]
    induction l with
    | nil =>
      simp only [place, lookup]
      split <;> first | rfl | contradiction
    | cons e rest ih =>
      simp only [place]
      split
      · rename_i lt
        simp only [lookup]
        split
        · rename_i below
          simp [Std.TransCmp.lt_trans below lt]
        · contradiction
        · rfl
      · rename_i eq
        have here : k = e.1 := Std.LawfulEqCmp.eq_of_compare eq
        simp only [lookup, ← here]
        split
        · rfl
        · contradiction
        · rfl
      · simp only [lookup, ih]

theorem lookupRemove (k k' : κ) {l : List (κ × ν)}
    (h : l.Pairwise fun a b => compare a.1 b.1 = .lt) :
    lookup k' (remove k l) = if k' = k then none else lookup k' l := by
  induction l with
  | nil => simp [remove, lookup]
  | cons e rest ih =>
    obtain ⟨first, others⟩ := List.pairwise_cons.mp h
    simp only [remove]
    split
    · rename_i lt
      have absent : lookup k (e :: rest) = none := by simp [lookup, lt]
      by_cases same : k' = k
      · simp [same, absent]
      · simp [same]
    · rename_i eq
      have here : k = e.1 := Std.LawfulEqCmp.eq_of_compare eq
      by_cases same : k' = k
      · subst same
        simp only [if_true]
        exact lookupBelow fun x hx => here ▸ first x hx
      · have apart : compare k' e.1 ≠ .eq := fun hc =>
          same ((Std.LawfulEqCmp.eq_of_compare hc).trans here.symm)
        simp only [same, if_false, lookup]
        split
        · rename_i below
          exact lookupBelow fun x hx => Std.TransCmp.lt_trans below (first x hx)
        · contradiction
        · rfl
    · rename_i gt
      simp only [lookup, ih others]
      by_cases same : k' = k
      · subst same; simp [gt]
      · simp [same]

@[simp] theorem getInsert (m : SortedMap κ ν) (k k' : κ) (v : ν) :
    (m.insert k v).get? k' = if k' = k then some v else m.get? k' :=
  lookupPlace k k' v m.entries

@[simp] theorem getErase (m : SortedMap κ ν) (k k' : κ) :
    (m.erase k).get? k' = if k' = k then none else m.get? k' :=
  lookupRemove k k' m.ascending

theorem getInsertNew (m : SortedMap κ ν) (k k' : κ) (v : ν) :
    (m.insertNew k v).get? k' = if k' = k then some ((m.get? k).getD v) else m.get? k' := by
  unfold insertNew
  cases held : m.get? k with
  | none => simp
  | some w =>
    by_cases same : k' = k
    · simp [same, held]
    · simp [same]

end Teller.SortedMap
