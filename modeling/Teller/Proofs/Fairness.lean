import Mathlib.Algebra.Order.BigOperators.Group.List
import Mathlib.Algebra.Order.Group.Int
import Mathlib.Data.List.Nodup
import Mathlib.Tactic.Ring
import Teller.Scheduler

/-! Every queue has its share of the turns. Credits add up to nothing and none falls as low as the sum of
the weights, so after as many turns as that sum each of them is back where it was. -/
namespace Teller.Scheduler

def place (s : Scheduler) : Nat :=
  match s.queues.map earn with
  | [] => 0
  | first :: rest => richest 1 0 first.credit rest

def pay (sum : Nat) (q : WeightedQueue) : WeightedQueue := { q with credit := q.credit - sum }

inductive Ask where
  | next
  | pollOrder
  deriving DecidableEq, Repr

def pick (s : Scheduler) : Ask → Option String
  | .next => s.next.1
  | .pollOrder => s.pollOrder.1.head?

def after (s : Scheduler) : Ask → Scheduler
  | .next => s.next.2
  | .pollOrder => s.pollOrder.2

def picks (s : Scheduler) : List Ask → List (Option String)
  | [] => []
  | a :: more => s.pick a :: (s.after a).picks more

def places (s : Scheduler) : List Ask → List Nat
  | [] => []
  | a :: more => s.place :: (s.after a).places more

def creditOf (p : String → Bool) (s : Scheduler) : Int :=
  (s.queues.map fun q => if p q.name then q.credit else 0).sum

def weightOf (p : String → Bool) (s : Scheduler) : Int :=
  (s.queues.map fun q => if p q.name then (q.weight : Int) else 0).sum

def kind (q : WeightedQueue) : String × Nat := (q.name, q.weight)

variable {s : Scheduler} {q : WeightedQueue} {p : String → Bool}

/-! ### One turn -/

theorem nextPlace (s : Scheduler) : s.next =
    (((s.queues.map earn)[s.place]?).map (·.name), ⟨(s.queues.map earn).modify s.place (pay s.total)⟩) := by
  obtain ⟨queues⟩ := s
  cases queues <;> rfl

theorem pickedName (s : Scheduler) : s.next.1 = (s.queues[s.place]?).map (·.name) := by
  simp [nextPlace, earn, Function.comp_def]

theorem queueNext (s : Scheduler) (i : Nat) : s.next.2.queues[i]? = (s.queues[i]?).map fun q =>
    { q with credit := q.credit + q.weight - if s.place = i then s.total else 0 } := by
  simp only [nextPlace, List.getElem?_modify, List.getElem?_map, Option.map_map, Functor.map]
  congr 1
  funext q
  by_cases here : s.place = i <;> simp [here, earn, pay]

theorem richestBest (rest : List WeightedQueue) (index found : Nat) (best : Int) :
    (richest index found best rest = found ∧ ∀ q ∈ rest, q.credit ≤ best) ∨
    ∃ k q, richest index found best rest = index + k ∧ rest[k]? = some q ∧ best ≤ q.credit ∧
      ∀ p ∈ rest, p.credit ≤ q.credit := by
  induction rest generalizing index found best with
  | nil => exact .inl ⟨rfl, by simp⟩
  | cons head rest ih =>
    unfold richest
    split
    · right
      obtain ⟨found, low⟩ | ⟨k, q, found, at', more, low⟩ := ih (index + 1) index head.credit
      · exact ⟨0, head, found, rfl, by omega, by simpa using low⟩
      · exact ⟨k + 1, q, by omega, at', by omega, by simpa using ⟨more, low⟩⟩
    · obtain ⟨found, low⟩ | ⟨k, q, found, at', more, low⟩ := ih (index + 1) found best
      · exact .inl ⟨found, by simpa using ⟨by omega, low⟩⟩
      · exact .inr ⟨k + 1, q, by omega, at', more, by simpa using ⟨by omega, low⟩⟩

theorem placeRichest (present : s.queues ≠ []) : ∃ q, s.queues[s.place]? = some q ∧
    ∀ p ∈ s.queues, p.credit + p.weight ≤ q.credit + q.weight := by
  obtain ⟨queues⟩ := s
  cases queues with
  | nil => exact absurd rfl present
  | cons first rest =>
    have best := richestBest (rest.map earn) 1 0 (earn first).credit
    simp only [List.mem_map, forall_exists_index, and_imp, forall_apply_eq_imp_iff₂, List.getElem?_map,
      Option.map_eq_some_iff] at best
    obtain ⟨found, low⟩ | ⟨k, _, found, ⟨q, at', rfl⟩, more, low⟩ := best
    · exact ⟨first, by simp [place, found], by simpa [earn] using low⟩
    · exact ⟨q, by simp [place, found, Nat.add_comm 1, at'], by simpa [earn] using ⟨more, low⟩⟩

theorem kindsNext (s : Scheduler) : s.next.2.queues.map kind = s.queues.map kind := by
  apply List.ext_getElem?
  intro i
  simp [queueNext, kind, Function.comp_def]
  rfl

theorem sumModify (g : WeightedQueue → Int) (f : WeightedQueue → WeightedQueue) {l : List WeightedQueue} {i : Nat}
    (at' : l[i]? = some q) : ((l.modify i f).map g).sum = (l.map g).sum - g q + g (f q) := by
  induction l generalizing i with
  | nil => simp at at'
  | cons head rest ih =>
    cases i with
    | zero =>
      obtain rfl : head = q := by simpa using at'
      simp [add_comm]
    | succ i =>
      have tail := ih (i := i) (by simpa using at')
      simp only [List.modify_succ_cons, List.map_cons, List.sum_cons, tail]
      omega

theorem creditNext (p : String → Bool) (present : s.queues ≠ []) : creditOf p s.next.2 =
    creditOf p s + weightOf p s - if s.next.1.any p then s.total else 0 := by
  obtain ⟨q, at', -⟩ := placeRichest present
  have earned : (s.queues.map earn)[s.place]? = some (earn q) := by simp [at']
  have sum : ((s.queues.map earn).map fun q => if p q.name then q.credit else 0).sum = creditOf p s + weightOf p s := by
    rw [creditOf, weightOf, ← List.sum_map_add, List.map_map]
    congr 2
    funext q
    by_cases chosen : p q.name <;> simp [earn, chosen]
  rw [pickedName, at', creditOf, nextPlace]
  simp only [sumModify _ _ earned, sum]
  by_cases chosen : p q.name <;> simp [earn, pay, chosen]

theorem weightKinds {s t : Scheduler} (same : s.queues.map kind = t.queues.map kind) :
    weightOf p s = weightOf p t ∧ s.total = t.total := by
  have weigh (s : Scheduler) : weightOf p s =
      ((s.queues.map kind).map fun k => if p k.1 then (k.2 : Int) else 0).sum := by
    rw [List.map_map]
    rfl
  have sum (s : Scheduler) : s.total = (s.queues.map kind).foldr (fun k sum => k.2 + sum) 0 := by
    simp [total, kind, List.foldr_map]
  rw [weigh, weigh, sum, sum, same]
  exact ⟨rfl, rfl⟩

theorem pollOrderNext (s : Scheduler) : s.pollOrder.2 = s.next.2 ∧ s.pollOrder.1.head? = s.next.1 := by
  unfold pollOrder
  split
  next later asked => simp [asked]
  next first later asked => simp [asked]

@[simp] theorem afterNext (s : Scheduler) (a : Ask) : s.after a = s.next.2 := by
  cases a
  · rfl
  · exact (pollOrderNext s).1

@[simp] theorem pickNext (s : Scheduler) (a : Ask) : s.pick a = s.next.1 := by
  cases a
  · rfl
  · exact (pollOrderNext s).2

/-! ### Many turns -/

variable {asks more : List Ask}

theorem afterLength (s : Scheduler) (same : asks.length = more.length) : asks.foldl after s = more.foldl after s := by
  induction asks generalizing s more with
  | nil =>
    obtain rfl := List.eq_nil_of_length_eq_zero same.symm
    rfl
  | cons a asks ih =>
    obtain ⟨b, more, rfl⟩ := List.exists_cons_of_length_eq_add_one same.symm
    simpa using ih s.next.2 (by simpa using same)

theorem kindsAfter (s : Scheduler) (asks : List Ask) : (asks.foldl after s).queues.map kind = s.queues.map kind := by
  induction asks generalizing s with
  | nil => rfl
  | cons a asks ih => simp [ih, kindsNext]

theorem totalAfter (s : Scheduler) (asks : List Ask) : (asks.foldl after s).total = s.total :=
  (weightKinds (p := fun _ => true) (kindsAfter s asks)).2

theorem queueAfter (s : Scheduler) (asks : List Ask) (i : Nat) : (asks.foldl after s).queues[i]? =
    (s.queues[i]?).map fun q =>
      { q with credit := q.credit + asks.length * q.weight - s.total * (s.places asks).count i } := by
  induction asks generalizing s with
  | nil => simp [places]
  | cons a asks ih =>
    rw [List.foldl_cons, ih, afterNext, queueNext, Option.map_map]
    congr 1
    funext q
    have total : s.next.2.total = s.total := totalAfter s [.next]
    by_cases here : s.place = i <;> simp [places, here, total] <;> ring

theorem creditAfter (p : String → Bool) (present : s.queues ≠ []) (asks : List Ask) :
    creditOf p (asks.foldl after s) =
      creditOf p s + asks.length * weightOf p s - s.total * (s.picks asks).countP (·.any p) := by
  induction asks generalizing s with
  | nil => simp [picks]
  | cons a asks ih =>
    have kinds := kindsNext s
    obtain ⟨weight, total⟩ := weightKinds (p := p) kinds
    have still : s.next.2.queues ≠ [] := by
      intro empty
      simp only [empty, List.map_nil, List.nil_eq, List.map_eq_nil_iff] at kinds
      exact present kinds
    rw [List.foldl_cons, afterNext, ih still, creditNext p present, weight, total, picks, pickNext, afterNext,
      List.countP_cons]
    by_cases chosen : s.next.1.any p <;> simp [chosen] <;> ring

/-! ### Nobody is ever a whole round behind -/

structure Balanced (s : Scheduler) : Prop where
  present : s.queues ≠ []
  heavy : ∀ q ∈ s.queues, 0 < q.weight
  level : creditOf (fun _ => true) s = 0
  low : ∀ q ∈ s.queues, -(s.total : Int) < q.credit

theorem weightAll (s : Scheduler) : weightOf (fun _ => true) s = s.total := by
  obtain ⟨queues⟩ := s
  unfold weightOf total
  induction queues with
  | nil => rfl
  | cons q rest ih => simpa using ih

theorem earnedSum (s : Scheduler) : (s.queues.map fun q => q.credit + (q.weight : Int)).sum =
    creditOf (fun _ => true) s + s.total := by
  rw [← weightAll, creditOf, weightOf, ← List.sum_map_add]
  rfl

theorem totalPos (present : s.queues ≠ []) (heavy : ∀ q ∈ s.queues, 0 < q.weight) : 0 < s.total := by
  obtain ⟨q, mem⟩ := List.exists_mem_of_ne_nil _ present
  have weight := List.single_le_sum (l := s.queues.map fun q => (q.weight : Int)) (by simp) _
    (List.mem_map_of_mem mem)
  have whole := weightAll s
  have := heavy q mem
  simp only [weightOf, if_true] at whole
  omega

theorem pickedEarned (h : Balanced s) (at' : s.queues[s.place]? = some q) : 0 < q.credit + q.weight := by
  have sum := earnedSum s
  have pos := totalPos h.present h.heavy
  have nothing : (s.queues.map fun _ => (0 : Int)).sum = 0 := by simp
  obtain ⟨rich, mem, more⟩ := List.exists_lt_of_sum_lt (l := s.queues) (fun _ => (0 : Int))
    (fun q => q.credit + q.weight) (by rw [nothing, sum, h.level]; omega)
  obtain ⟨best, there, most⟩ := placeRichest h.present
  obtain rfl : q = best := by simpa [at'] using there
  have := most rich mem
  omega

theorem balancedNext (h : Balanced s) : Balanced s.next.2 := by
  have kinds := kindsNext s
  have total : s.next.2.total = s.total := totalAfter s [.next]
  obtain ⟨picked, at', -⟩ := placeRichest h.present
  constructor
  case present =>
    intro empty
    simp only [empty, List.map_nil, List.nil_eq, List.map_eq_nil_iff] at kinds
    exact h.present kinds
  case level =>
    rw [creditNext _ h.present, h.level, weightAll, pickedName, at']
    simp
  all_goals
    intro q' mem
    obtain ⟨i, there⟩ := List.mem_iff_getElem?.mp mem
    simp only [queueNext, Option.map_eq_some_iff] at there
    obtain ⟨q, before, rfl⟩ := there
    have old := List.mem_of_getElem? before
  case heavy => exact h.heavy q old
  case low =>
    have low := h.low q old
    split
    next here =>
      have earned := pickedEarned h (here ▸ before)
      simp only
      omega
    next =>
      simp only
      omega

theorem balancedAfter (h : Balanced s) (asks : List Ask) : Balanced (asks.foldl after s) := by
  induction asks generalizing s with
  | nil => exact h
  | cons a asks ih => simpa using ih (balancedNext h)

theorem highest (h : Balanced s) (mem : q ∈ s.queues) : q.credit ≤ s.queues.length * s.total := by
  have low (x : Int) (mem : x ∈ s.queues.map fun q => q.credit + (s.total : Int)) : 0 ≤ x := by
    obtain ⟨q, old, rfl⟩ := List.mem_map.mp mem
    have := h.low q old
    omega
  have sum : (s.queues.map fun q => q.credit + (s.total : Int)).sum = s.queues.length * s.total := by
    have level := h.level
    simp only [creditOf, if_true] at level
    simp [List.sum_map_add, level]
  have := List.single_le_sum low _ (List.mem_map_of_mem mem)
  omega

theorem roundFromRest (h : Balanced s) (rest : ∀ q ∈ s.queues, q.credit = 0) {asks : List Ask}
    (round : asks.length = s.total) : asks.foldl after s = s := by
  have later := balancedAfter h asks
  have total := totalAfter s asks
  have credit {i : Nat} {q : WeightedQueue} (at' : s.queues[i]? = some q) :
      q.credit + asks.length * q.weight - s.total * (s.places asks).count i =
        s.total * (q.weight - (s.places asks).count i) := by
    rw [rest q (List.mem_of_getElem? at'), round]
    ring
  have ahead (x : Int) (mem : x ∈ (asks.foldl after s).queues.map (·.credit)) : 0 ≤ x := by
    obtain ⟨q', within, rfl⟩ := List.mem_map.mp mem
    have low := later.low q' within
    obtain ⟨i, there⟩ := List.mem_iff_getElem?.mp within
    simp only [queueAfter, Option.map_eq_some_iff] at there
    obtain ⟨q, before, rfl⟩ := there
    simp only [total, credit before] at low ⊢
    by_contra behind
    have : (q.weight : Int) - (s.places asks).count i ≤ -1 := by
      by_contra enough
      exact behind (Int.mul_nonneg (by omega) (by omega))
    have := Int.mul_le_mul_of_nonneg_left this (Int.natCast_nonneg s.total)
    omega
  have level : ((asks.foldl after s).queues.map (·.credit)).sum = 0 := by simpa [creditOf] using later.level
  have queues : (asks.foldl after s).queues = s.queues := by
    apply List.ext_getElem?
    intro i
    have here := queueAfter s asks i
    cases before : s.queues[i]? with
    | none => simp [here, before]
    | some q =>
      simp only [before, Option.map_some] at here
      have nothing := List.all_zero_of_le_zero_le_of_sum_eq_zero ahead level
        (List.mem_map_of_mem (List.mem_of_getElem? here))
      simp only at nothing
      rw [here, nothing, ← rest q (List.mem_of_getElem? before)]
  exact congrArg Scheduler.mk queues

/-! ### Rounds that start anywhere -/

def kept (weights : List (String × UInt32)) : List (String × Nat) :=
  (weights.filter (·.2 > 0)).map fun e => (e.1, e.2.toNat)

variable {weights : List (String × UInt32)}

theorem kindsOfWeights (weights : List (String × UInt32)) : (ofWeights weights).queues.map kind = kept weights := by
  simp only [ofWeights, kept, List.map_map]
  rfl

theorem creditOfWeights (mem : q ∈ (ofWeights weights).queues) : q.credit = 0 := by
  simp only [ofWeights, List.mem_map] at mem
  obtain ⟨e, -, rfl⟩ := mem
  rfl

theorem weightOfWeights (p : String → Bool) (weights : List (String × UInt32)) :
    weightOf p (ofWeights weights) = ((weights.filter (p ·.1)).map (·.2.toNat)).sum := by
  induction weights with
  | nil => rfl
  | cons e weights ih =>
    obtain ⟨name, weight⟩ := e
    simp only [weightOf, ofWeights] at ih ⊢
    by_cases heavy : weight > 0
    · by_cases chosen : p name <;> simp_all
    · have light : weight.toNat = 0 := by simpa [UInt32.lt_iff_toNat_lt] using heavy
      by_cases chosen : p name <;> simp_all

theorem totalOfWeights (weights : List (String × UInt32)) :
    (ofWeights weights).total = (weights.map (·.2.toNat)).sum := by
  have sum := weightAll (ofWeights weights)
  have all : weights.filter (fun _ => true) = weights := List.filter_eq_self.mpr fun _ _ => rfl
  rw [weightOfWeights, all] at sum
  exact (Int.ofNat_inj.mp sum).symm

theorem balancedOfWeights (heavy : ∃ e ∈ weights, 0 < e.2) : Balanced (ofWeights weights) := by
  have present : (ofWeights weights).queues ≠ [] := by
    obtain ⟨e, mem, heavy⟩ := heavy
    exact List.ne_nil_of_mem (List.mem_map_of_mem (List.mem_filter.mpr ⟨mem, by simpa using heavy⟩))
  have heavy (q : WeightedQueue) (mem : q ∈ (ofWeights weights).queues) : 0 < q.weight := by
    simp only [ofWeights, List.mem_map, List.mem_filter] at mem
    obtain ⟨e, ⟨-, heavy⟩, rfl⟩ := mem
    simpa [UInt32.lt_iff_toNat_lt] using heavy
  refine ⟨present, heavy, List.sum_eq_zero fun x mem => ?_, fun q mem => ?_⟩
  · obtain ⟨q, within, rfl⟩ := List.mem_map.mp mem
    simpa using creditOfWeights within
  · have := creditOfWeights mem
    have := totalPos present heavy
    omega

theorem roundAnywhere (heavy : ∃ e ∈ weights, 0 < e.2) (earlier : List Ask) {asks : List Ask}
    (round : asks.length = (ofWeights weights).total) :
    asks.foldl after (earlier.foldl after (ofWeights weights)) = earlier.foldl after (ofWeights weights) := by
  have same : (earlier ++ asks).length = (asks ++ earlier).length := by simp [Nat.add_comm]
  have commuted := afterLength (ofWeights weights) same
  rwa [List.foldl_append, List.foldl_append,
    roundFromRest (balancedOfWeights heavy) (fun _ => creditOfWeights) round] at commuted

theorem roundsAtRest (heavy : ∃ e ∈ weights, 0 < e.2) (n : Nat) {asks : List Ask}
    (rounds : asks.length = (ofWeights weights).total * n) :
    asks.foldl after (ofWeights weights) = ofWeights weights := by
  induction n generalizing asks with
  | zero =>
    obtain rfl := List.eq_nil_of_length_eq_zero rounds
    rfl
  | succ n ih =>
    rw [Nat.mul_succ] at rounds
    rw [← List.take_append_drop (ofWeights weights).total asks, List.foldl_append,
      roundFromRest (balancedOfWeights heavy) (fun _ => creditOfWeights) (by simp; omega), ih (by simp; omega)]

theorem picksPlaces (s : Scheduler) (asks : List Ask) :
    s.picks asks = (s.places asks).map fun i => ((s.queues.map kind)[i]?).map (·.1) := by
  induction asks generalizing s with
  | nil => rfl
  | cons a asks ih =>
    simp only [picks, places, List.map_cons, pickNext, afterNext, ih, kindsNext, pickedName]
    simp [kind, Function.comp_def]

theorem placesInRound (h : Balanced s) {asks : List Ask} (again : asks.foldl after s = s)
    (round : asks.length = s.total) {i : Nat} (at' : s.queues[i]? = some q) : (s.places asks).count i = q.weight := by
  have here := queueAfter s asks i
  rw [again, at', Option.map_some, Option.some.injEq] at here
  have even : q.credit = q.credit + asks.length * q.weight - s.total * (s.places asks).count i :=
    congrArg WeightedQueue.credit here
  have pos := totalPos h.present h.heavy
  have same : (s.total : Int) * q.weight = s.total * (s.places asks).count i := by
    rw [round] at even
    omega
  have := Int.eq_of_mul_eq_mul_left (by omega) same
  omega

theorem namesInRound (h : Balanced s) {asks : List Ask} (again : asks.foldl after s = s)
    (round : asks.length = s.total) (p : String → Bool) : (s.picks asks).countP (·.any p) = weightOf p s := by
  have even := creditAfter p h.present asks
  have pos := totalPos h.present h.heavy
  rw [again, round] at even
  exact Int.eq_of_mul_eq_mul_left (a := s.total) (by omega) (by omega)

/-! ### The order of a poll -/

theorem heaviestFirst (l : List WeightedQueue) : (l.mergeSort heavier).Pairwise fun a b => b.weight ≤ a.weight := by
  have sorted : (l.mergeSort heavier).Pairwise fun a b => heavier a b :=
    List.pairwise_mergeSort (fun a b c => by simp [heavier]; omega) (fun a b => by simp [heavier]; omega) l
  simpa [heavier] using sorted

theorem pollOrderSorted (present : s.queues ≠ []) (distinct : (s.queues.map (·.name)).Nodup) :
    ∃ first rest, (first :: rest).Perm (s.queues.map kind) ∧ s.pollOrder.1 = (first :: rest).map (·.1) ∧
      s.next.1 = some first.1 ∧ rest.Pairwise fun a b => b.2 ≤ a.2 := by
  obtain ⟨q, at', -⟩ := placeRichest present
  have name := pickedName s
  rw [at'] at name
  have mem := List.mem_map_of_mem (f := kind) (List.mem_of_getElem? at')
  have names : ((s.queues.map kind).map (·.1)).Nodup := by simpa [kind, Function.comp_def] using distinct
  let others := s.next.2.queues.filter (·.name ≠ q.name)
  have kinds : others.map kind = (s.queues.map kind).filter (·.1 ≠ q.name) := by
    rw [← kindsNext s, List.filter_map]
    rfl
  refine ⟨kind q, (others.mergeSort heavier).map kind, ?_, ?_, name, ?_⟩
  · refine (((List.mergeSort_perm others heavier).map kind).cons _).trans ?_
    rw [kinds, List.perm_ext_iff_of_nodup (List.nodup_cons.mpr ⟨by simp [kind], names.of_map.filter _⟩) names.of_map]
    intro k
    rw [List.mem_cons, List.mem_filter]
    constructor
    · rintro (rfl | ⟨mem, -⟩) <;> assumption
    · intro there
      by_cases same : k.1 = q.name
      · exact .inl (List.inj_on_of_nodup_map names there mem same)
      · exact .inr ⟨there, by simpa using same⟩
  · unfold pollOrder
    split
    next later asked => simp [asked] at name
    next first later asked =>
      rw [asked] at name
      obtain rfl : first = q.name := by simpa using name
      simp [others, asked, kind, Function.comp_def]
  · simpa [List.pairwise_map, kind] using heaviestFirst others

/-! ### The shares -/

structure Fair (weights : List (String × UInt32)) (s : Scheduler) : Prop where
  sum : s.total = (weights.map (·.2.toNat)).sum
  sumFits : s.total < 2 ^ 63
  fits : ∀ q ∈ s.queues, -2 ^ 63 ≤ q.credit + q.weight - s.total ∧ -2 ^ 63 ≤ q.credit ∧ q.credit + q.weight < 2 ^ 63
  names : ∀ asks, s.picks asks = (s.places asks).map fun i => ((kept weights)[i]?).map (·.1)
  share : ∀ asks, asks.length = s.total → ∀ i name weight, (kept weights)[i]? = some (name, weight) →
    (s.places asks).count i = weight
  named : ∀ asks, asks.length = s.total → ∀ name, (s.picks asks).count (some name) =
    ((weights.filter (·.1 = name)).map (·.2.toNat)).sum
  ordered : (weights.map (·.1)).Nodup → ∃ first rest, (first :: rest).Perm (kept weights) ∧
    s.pollOrder.1 = (first :: rest).map (·.1) ∧ s.next.1 = some first.1 ∧
    (rest.Pairwise fun a b => b.2 ≤ a.2) ∧ s.pollOrder.2 = s.next.2

theorem totalSmall (few : weights.length ≤ 2 ^ 15) : (ofWeights weights).total ≤ 2 ^ 47 := by
  have each := List.sum_le_card_nsmul (weights.map (·.2.toNat)) (2 ^ 32) (by
    intro n mem
    obtain ⟨e, -, rfl⟩ := List.mem_map.mp mem
    exact Nat.le_of_lt e.2.toNat_lt)
  rw [totalOfWeights]
  simp only [List.length_map, nsmul_eq_mul, Nat.cast_id] at each
  omega

theorem creditFits (few : weights.length ≤ 2 ^ 15) (h : Balanced s)
    (kinds : s.queues.map kind = kept weights) (total : s.total = (ofWeights weights).total) (mem : q ∈ s.queues) :
    -2 ^ 63 ≤ q.credit + q.weight - s.total ∧ -2 ^ 63 ≤ q.credit ∧ q.credit + q.weight < 2 ^ 63 := by
  have sum := totalSmall few
  have low := h.low q mem
  have weight : q.weight < 2 ^ 32 := by
    have mem := List.mem_map_of_mem (f := kind) mem
    rw [kinds, kept, List.mem_map] at mem
    obtain ⟨e, -, same⟩ := mem
    have : q.weight = e.2.toNat := congrArg Prod.snd same.symm
    exact this ▸ e.2.toNat_lt
  have count : s.queues.length ≤ 2 ^ 15 := by
    have length := congrArg List.length kinds
    simp only [kept, List.length_map] at length
    have := List.length_filter_le (·.2 > 0) weights
    omega
  have high := highest h mem
  have most : s.queues.length * s.total ≤ 2 ^ 15 * 2 ^ 47 := Nat.mul_le_mul count (by omega)
  rw [← Nat.cast_mul] at high
  omega

theorem everyWindowFair (few : weights.length ≤ 2 ^ 15) (heavy : ∃ e ∈ weights, 0 < e.2) (earlier : List Ask) :
    Fair weights (earlier.foldl after (ofWeights weights)) ∧
    ((weights.map (·.2.toNat)).sum ∣ earlier.length → earlier.foldl after (ofWeights weights) = ofWeights weights) := by
  have balanced := balancedAfter (balancedOfWeights heavy) earlier
  have total := totalAfter (ofWeights weights) earlier
  have same := kindsAfter (ofWeights weights) earlier
  have kinds := same.trans (kindsOfWeights weights)
  have again (asks : List Ask) (round : asks.length = _) := roundAnywhere heavy earlier (round.trans total)
  constructor
  case right =>
    rw [← totalOfWeights]
    rintro ⟨n, rounds⟩
    exact roundsAtRest heavy n rounds
  case left =>
    constructor
    case sum => exact total.trans (totalOfWeights weights)
    case sumFits =>
      have := totalSmall few
      omega
    case fits => exact fun q => creditFits few balanced kinds total
    case names =>
      intro asks
      rw [picksPlaces, kinds]
    case share =>
      intro asks round i name weight at'
      rw [← kinds, List.getElem?_map, Option.map_eq_some_iff] at at'
      obtain ⟨q, there, same⟩ := at'
      rw [placesInRound balanced (again asks round) round there]
      exact congrArg Prod.snd same
    case named =>
      intro asks round name
      have turns := namesInRound balanced (again asks round) round (· = name)
      rw [(weightKinds same).1, weightOfWeights] at turns
      have chosen : (fun o : Option String => o.any (· = name)) = (· == some name) := by
        funext o
        cases o <;> simp [beq_eq_decide]
      rw [chosen] at turns
      exact_mod_cast turns
    case ordered =>
      intro distinct
      have names : ((kept weights).map (·.1)).Nodup := by
        rw [kept, List.map_map]
        exact distinct.sublist (List.filter_sublist.map _)
      obtain ⟨first, rest, perm, polled, picked, sorted⟩ := pollOrderSorted balanced.present
        (by simpa [← kinds, kind, Function.comp_def] using names)
      exact ⟨first, rest, kinds ▸ perm, polled, picked, sorted, (pollOrderNext _).1⟩

theorem unevenWindowFair : [("critical", 6), ("default", 3), ("low", (1 : UInt32))].length ≤ 2 ^ 15 ∧
    Fair [("critical", 6), ("default", 3), ("low", 1)]
      ([Ask.next, .pollOrder, .next].foldl after (ofWeights [("critical", 6), ("default", 3), ("low", 1)])) :=
  ⟨by decide, (everyWindowFair (by decide) ⟨("critical", 6), by simp, by decide⟩ [.next, .pollOrder, .next]).1⟩

end Teller.Scheduler
