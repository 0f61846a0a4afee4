import Teller.Task.Options

/-! When a delayed task may be delivered. A longer delay leads to a later moment as long as both delays stay
within the moments there are; beyond them a delay counts as none. -/
namespace Teller.TaskOptions

inductive FallsBack (now : Moment) (short long : Int64) : (moment : Int) → Prop where
  | beyond (ahead : 0 < short.toInt) (reached : now.ms + short.toInt ≤ Moment.last)
      (lost : Moment.last < now.ms + long.toInt) : FallsBack now short long (now.ms + short.toInt)
  | before (back : long.toInt < 0) (reached : Moment.first ≤ now.ms + long.toInt)
      (lost : now.ms + short.toInt < Moment.first) : FallsBack now short long now.ms

variable {o : TaskOptions} {now m : Moment} {delay short long : Int64}

theorem spanUnlessLeast (proper : delay ≠ .minValue) :
    ∃ span, Span.ofMs? delay.toInt = some span ∧ span.ms = delay.toInt := by
  rw [ne_eq, ← Int64.toInt_inj, Int64.toInt_minValue] at proper
  have := delay.le_toInt
  have := delay.toInt_lt
  exact ⟨⟨delay.toInt, by omega⟩, dif_pos (by omega), rfl⟩

theorem delayedUnlessLeast (proper : delay ≠ .minValue) (now : Moment) :
    delayed (some delay) now = .ok ((Moment.ofMs? (now.ms + delay.toInt)).getD now) := by
  obtain ⟨span, spanned, same⟩ := spanUnlessLeast proper
  simp [delayed, spanned, Moment.add?, same]

theorem delayedBroken (delay : Option Int64) (now : Moment) (e : Overflow) :
    delayed delay now = .error e ↔ e = .delay ∧ delay = some .minValue := by
  cases delay with
  | none => simp [delayed]
  | some delay =>
    by_cases proper : delay = .minValue
    · subst proper
      have least : Span.ofMs? Int64.minValue.toInt = none := by decide
      simp only [delayed, least]
      simp [eq_comm]
    · simp [delayedUnlessLeast proper, proper]

theorem reachedMs (now : Moment) (ms : Int) : ((Moment.ofMs? ms).getD now).ms =
    if Moment.first ≤ ms ∧ ms ≤ Moment.last then ms else now.ms := by
  unfold Moment.ofMs?
  split <;> rfl

theorem laterMs (a b : Moment) : (later a b).ms = max a.ms b.ms := by
  unfold later
  split
  next above =>
    have : a.ms ≤ b.ms := above
    omega
  next above =>
    have : ¬ a.ms ≤ b.ms := above
    omega

def floored (o : TaskOptions) (ms : Int) : Int := (o.notBefore.map fun m => max m.ms ms).getD ms

theorem resolveMs (resolved : o.resolve now = .ok m) : ∃ d, delayed o.delay now = .ok d ∧ m.ms = o.floored d.ms := by
  unfold resolve at resolved
  cases delayed' : delayed o.delay now with
  | error e => simp [delayed', Except.map] at resolved
  | ok d =>
    simp only [delayed', Except.map, Except.ok.injEq] at resolved
    refine ⟨d, rfl, ?_⟩
    cases at' : o.notBefore <;> simp [← resolved, floored, at', laterMs]

theorem resolveUnlessLeast (delays : o.delay = some delay) (proper : delay ≠ .minValue) (now : Moment) :
    ∃ m, o.resolve now = .ok m ∧ m.ms =
      o.floored (if Moment.first ≤ now.ms + delay.toInt ∧ now.ms + delay.toInt ≤ Moment.last then now.ms + delay.toInt
        else now.ms) := by
  have delayed' := delayedUnlessLeast proper now
  cases resolved : o.resolve now with
  | error e => simp [resolve, delays, delayed', Except.map] at resolved
  | ok m =>
    obtain ⟨d, same, ms⟩ := resolveMs resolved
    rw [delays, delayed', Except.ok.injEq] at same
    exact ⟨m, rfl, by rw [ms, ← same, reachedMs]⟩

theorem flooredAbove (o : TaskOptions) (ms : Int) : ms ≤ o.floored ms ∧ ∀ m ∈ o.notBefore, m.ms ≤ o.floored ms := by
  unfold floored
  cases o.notBefore with
  | none => simp
  | some m =>
    refine ⟨Int.le_max_right _ _, fun m' same => ?_⟩
    cases same
    exact Int.le_max_left _ _

theorem resolveBroken (o : TaskOptions) (now : Moment) (e : Overflow) :
    o.resolve now = .error e ↔ e = .delay ∧ o.delay = some .minValue := by
  rw [← delayedBroken _ now]
  unfold resolve
  cases delayed o.delay now <;> simp [Except.map]

theorem resolvedProper (delays : o.delay = some delay) (resolved : o.resolve now = .ok m) : delay ≠ .minValue := by
  rintro rfl
  rw [(resolveBroken o now .delay).mpr ⟨rfl, delays⟩] at resolved
  contradiction

theorem resolvedAbove (resolved : o.resolve now = .ok m) :
    (∀ at' ∈ o.notBefore, at' ≤ m) ∧ ((∀ delay ∈ o.delay, 0 ≤ delay) → now ≤ m) := by
  obtain ⟨d, delayed', ms⟩ := resolveMs resolved
  obtain ⟨above, floor⟩ := flooredAbove o d.ms
  rw [← ms] at above floor
  refine ⟨floor, fun ahead => Int.le_trans ?_ above⟩
  cases delay : o.delay with
  | none =>
    rw [delay, delayed, Except.ok.injEq] at delayed'
    exact delayed' ▸ Int.le_refl _
  | some delay' =>
    have proper := resolvedProper delay resolved
    rw [delay, delayedUnlessLeast proper, Except.ok.injEq] at delayed'
    have ahead := Int64.le_iff_toInt_le.mp (ahead delay' delay)
    have start : (0 : Int64).toInt = 0 := rfl
    rw [← delayed', reachedMs]
    split <;> omega

theorem fallsBackIff {P : Int → Prop} : (∃ ms, FallsBack now short long ms ∧ P ms) ↔
    0 < short.toInt ∧ now.ms + short.toInt ≤ Moment.last ∧ Moment.last < now.ms + long.toInt ∧
      P (now.ms + short.toInt) ∨
    long.toInt < 0 ∧ Moment.first ≤ now.ms + long.toInt ∧ now.ms + short.toInt < Moment.first ∧ P now.ms := by
  constructor
  · rintro ⟨_, ⟨ahead, reached, lost⟩ | ⟨back, reached, lost⟩, holds⟩
    · exact .inl ⟨ahead, reached, lost, holds⟩
    · exact .inr ⟨back, reached, lost, holds⟩
  · rintro (⟨ahead, reached, lost, holds⟩ | ⟨back, reached, lost, holds⟩)
    · exact ⟨_, .beyond ahead reached lost, holds⟩
    · exact ⟨_, .before back reached lost, holds⟩

theorem longerDelayLaterIff (o : TaskOptions) (now : Moment) :
    (∀ e, o.resolve now = .error e ↔ e = .delay ∧ o.delay = some .minValue) ∧
    (∀ m, o.resolve now = .ok m →
      (∀ at' ∈ o.notBefore, at' ≤ m) ∧ ((∀ delay ∈ o.delay, 0 ≤ delay) → now ≤ m)) ∧
    ∀ short long m, o.delay = some short → short ≤ long → o.resolve now = .ok m →
      ∃ m', { o with delay := some long }.resolve now = .ok m' ∧
        (m ≤ m' ↔ ¬ ∃ ms, FallsBack now short long ms ∧ ∀ at' ∈ o.notBefore, at'.ms < ms) := by
  refine ⟨resolveBroken o now, fun m => resolvedAbove, fun short long m delay longer resolved => ?_⟩
  have proper := resolvedProper delay resolved
  have longer := Int64.le_iff_toInt_le.mp longer
  have proper' : long ≠ .minValue := by
    rintro rfl
    have := short.le_toInt
    exact proper (Int64.toInt_inj.mp (by rw [Int64.toInt_minValue] at longer ⊢; omega))
  obtain ⟨n, same, ms⟩ := resolveUnlessLeast delay proper now
  obtain ⟨m', resolved', ms'⟩ := resolveUnlessLeast (o := { o with delay := some long }) rfl proper' now
  obtain rfl : m = n := by simpa [resolved] using same
  refine ⟨m', resolved', ?_⟩
  have first := now.inRange.1
  have last := now.inRange.2
  rw [fallsBackIff]
  change m.ms ≤ m'.ms ↔ _
  rw [ms, ms']
  unfold floored
  cases o.notBefore with
  | none =>
    simp only [Option.map_none, Option.getD_none, Option.mem_def, reduceCtorEq, false_implies, implies_true, and_true]
    split <;> split <;> omega
  | some start =>
    simp only [Option.map_some, Option.getD_some, Option.mem_def, Option.some.injEq, forall_eq']
    split <;> split <;> omega

theorem secondLaterThanFirst : ∃ m m',
    { standard with delay := some 1000 }.resolve Moment.epoch = .ok m ∧ (1000 : Int64) ≤ 2000 ∧
    { standard with delay := some 2000 }.resolve Moment.epoch = .ok m' ∧ m ≤ m' := by
  obtain ⟨m', resolved, later⟩ := (longerDelayLaterIff { standard with delay := some 1000 } .epoch).2.2 1000 2000
    ⟨1000, by decide⟩ rfl (by decide) rfl
  refine ⟨_, m', rfl, by decide, resolved, later.mpr ?_⟩
  rintro ⟨ms, ⟨ahead, reached, lost⟩ | ⟨back, reached, lost⟩, -⟩ <;> revert lost <;> decide

theorem longerDelaySooner :
    { standard with delay := some 1 }.resolve ⟨8210266876799998, by decide⟩ = .ok .latest ∧
    { standard with delay := some 2 }.resolve ⟨8210266876799998, by decide⟩ = .ok ⟨8210266876799998, by decide⟩ ∧
    (1 : Int64) ≤ 2 ∧ ¬ Moment.latest ≤ ⟨8210266876799998, by decide⟩ ∧
    { standard with notBefore := some .latest, delay := some .minValue }.resolve .epoch = .error .delay := by
  refine ⟨rfl, rfl, by decide, by decide, rfl⟩

end Teller.TaskOptions
