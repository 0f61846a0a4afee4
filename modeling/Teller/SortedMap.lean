/-! Finite maps kept as a list of entries in strictly ascending order of key.
Two maps with the same entries are equal, so equality of maps is equality of what they hold. -/
namespace Teller

structure SortedMap (κ ν : Type) [Ord κ] where
  entries : List (κ × ν)
  ascending : entries.Pairwise fun a b => compare a.1 b.1 = .lt

namespace SortedMap
variable {κ ν : Type} [Ord κ]

@[ext] theorem ext {a b : SortedMap κ ν} (h : a.entries = b.entries) : a = b := by
  cases a; cases b; cases h; rfl

def empty : SortedMap κ ν := ⟨[], .nil⟩

instance : EmptyCollection (SortedMap κ ν) := ⟨empty⟩
instance : Inhabited (SortedMap κ ν) := ⟨empty⟩

def lookup (k : κ) : List (κ × ν) → Option ν
  | [] => none
  | e :: rest => match compare k e.1 with
    | .lt => none
    | .eq => some e.2
    | .gt => lookup k rest

def get? (m : SortedMap κ ν) (k : κ) : Option ν := lookup k m.entries

def place (k : κ) (v : ν) : List (κ × ν) → List (κ × ν)
  | [] => [(k, v)]
  | e :: rest => match compare k e.1 with
    | .lt => (k, v) :: e :: rest
    | .eq => (k, v) :: rest
    | .gt => e :: place k v rest

def remove (k : κ) : List (κ × ν) → List (κ × ν)
  | [] => []
  | e :: rest => match compare k e.1 with
    | .lt => e :: rest
    | .eq => rest
    | .gt => e :: remove k rest

theorem mem_place {k : κ} {v : ν} {l : List (κ × ν)} {x : κ × ν} (h : x ∈ place k v l) :
    x = (k, v) ∨ x ∈ l := by
  induction l with
  | nil => simpa [place] using h
  | cons e rest ih =>
      simp only [place] at h
      split at h <;> simp only [List.mem_cons] at h ⊢ <;> grind

theorem mem_of_mem_remove {k : κ} {l : List (κ × ν)} {x : κ × ν} (h : x ∈ remove k l) : x ∈ l := by
  induction l with
  | nil => simp [remove] at h
  | cons e rest ih =>
      simp only [remove] at h
      split at h <;> simp only [List.mem_cons] at h ⊢ <;> grind

theorem remove_ascending {k : κ} {l : List (κ × ν)}
    (h : l.Pairwise fun a b => compare a.1 b.1 = .lt) :
    (remove k l).Pairwise fun a b => compare a.1 b.1 = .lt := by
  induction l with
  | nil => exact .nil
  | cons e rest ih =>
      obtain ⟨first, others⟩ := List.pairwise_cons.1 h
      simp only [remove]
      split
      · exact h
      · exact others
      · exact List.pairwise_cons.2 ⟨fun x hx => first x (mem_of_mem_remove hx), ih others⟩

def erase (m : SortedMap κ ν) (k : κ) : SortedMap κ ν :=
  ⟨remove k m.entries, remove_ascending m.ascending⟩

def isEmpty (m : SortedMap κ ν) : Bool := m.entries.isEmpty

instance [DecidableEq κ] [DecidableEq ν] : DecidableEq (SortedMap κ ν) := fun a b =>
  decidable_of_iff (a.entries = b.entries) ⟨ext, fun h => h ▸ rfl⟩

variable [Std.TransOrd κ] [Std.LawfulEqOrd κ]

theorem place_ascending {k : κ} {v : ν} {l : List (κ × ν)}
    (h : l.Pairwise fun a b => compare a.1 b.1 = .lt) :
    (place k v l).Pairwise fun a b => compare a.1 b.1 = .lt := by
  induction l with
  | nil => simp [place]
  | cons e rest ih =>
      obtain ⟨first, others⟩ := List.pairwise_cons.1 h
      simp only [place]
      split
      · rename_i lt
        refine List.pairwise_cons.2 ⟨fun x hx => ?_, h⟩
        rcases List.mem_cons.1 hx with rfl | hx
        · exact lt
        · exact Std.TransCmp.lt_trans lt (first x hx)
      · rename_i eq
        have same : k = e.1 := Std.LawfulEqCmp.eq_of_compare eq
        exact List.pairwise_cons.2 ⟨fun x hx => same ▸ first x hx, others⟩
      · rename_i gt
        refine List.pairwise_cons.2 ⟨fun x hx => ?_, ih others⟩
        rcases mem_place hx with rfl | hx
        · exact Std.OrientedCmp.lt_of_gt gt
        · exact first x hx

def insert (m : SortedMap κ ν) (k : κ) (v : ν) : SortedMap κ ν :=
  ⟨place k v m.entries, place_ascending m.ascending⟩

def insertNew (m : SortedMap κ ν) (k : κ) (v : ν) : SortedMap κ ν :=
  if (m.get? k).isSome then m else m.insert k v

end SortedMap
end Teller
