import Mathlib.Data.List.TakeWhile
import Teller.Text.Blank

/-! White space around a text, and between its words. Taking it away leaves what neither begins nor ends with it. In
just one way is a text a row of words, that is of runs of other characters which are as long as they can be, with
white space before, between and behind them. -/
namespace Teller

def Stops {α : Type} (p : α → Bool) (rest : List α) : Prop := ∀ c ∈ rest.head?, p c = false

section
variable {α : Type} {p : α → Bool} {run rest : List α}

theorem stopsAppend (any : run ≠ []) : Stops p (run ++ rest) ↔ Stops p run := by
  cases run with
  | nil => exact absurd rfl any
  | cons c run => exact Iff.rfl

theorem takeStopped (stops : Stops p rest) : rest.takeWhile p = [] := by
  cases rest with
  | nil => rfl
  | cons c rest => exact List.takeWhile_cons_of_neg (ne_true_of_eq_false (stops c rfl))

theorem dropStopped (stops : Stops p rest) : rest.dropWhile p = rest := by
  cases rest with
  | nil => rfl
  | cons c rest => exact List.dropWhile_cons_of_neg (ne_true_of_eq_false (stops c rfl))

theorem runTaken (all : ∀ c ∈ run, p c) (stops : Stops p rest) : (run ++ rest).takeWhile p = run := by
  rw [List.takeWhile_append_of_pos all, takeStopped stops, List.append_nil]

theorem runDropped (all : ∀ c ∈ run, p c) (stops : Stops p rest) : (run ++ rest).dropWhile p = rest := by
  rw [List.dropWhile_append_of_pos all, dropStopped stops]

theorem runStops (p : α → Bool) (cs : List α) :
    ∃ run rest, cs = run ++ rest ∧ (∀ c ∈ run, p c) ∧ Stops p rest := by
  refine ⟨cs.takeWhile p, cs.dropWhile p, List.takeWhile_append_dropWhile.symm,
    fun c mem => List.mem_takeWhile_imp mem, fun c mem => ?_⟩
  have stops := List.head?_dropWhile_not p cs
  rw [Option.mem_def.mp mem] at stops
  exact stops

end

namespace Blank

def Blanks (cs : List Char) : Prop := ∀ c ∈ cs, isBlank c

structure Inside (cs body : List Char) : Prop where
  around : ∃ before behind, cs = before ++ body ++ behind ∧ Blanks before ∧ Blanks behind
  first : Stops isBlank body
  last : Stops isBlank body.reverse

structure Word (cs : List Char) : Prop where
  filled : cs ≠ []
  solid : ∀ c ∈ cs, isBlank c = false

def Ends (rest : List Char) : Prop := ∀ c ∈ rest.head?, isBlank c

inductive Spaced : List Char → List (List Char) → Prop where
  | none {gap} (all : Blanks gap) : Spaced gap []
  | next {gap word rest words} (before : Blanks gap) (own : Word word) (ends : Ends rest) (more : Spaced rest words) :
      Spaced (gap ++ (word ++ rest)) (word :: words)

variable {cs body gap word rest : List Char} {words : List (List Char)}

theorem solidVisible {c : Char} (low : 33 ≤ c.toNat) (high : c.toNat ≤ 126) : isBlank c = false := by
  simp only [isBlank, Bool.or_eq_false_iff, Bool.and_eq_false_iff, decide_eq_false_iff_not]
  omega

theorem blanksReverse : Blanks cs.reverse ↔ Blanks cs := by simp only [Blanks, List.mem_reverse]

theorem trimInside (inside : Inside cs body) : trim cs = body := by
  obtain ⟨⟨before, behind, rfl, all, all'⟩, first, last⟩ := inside
  rw [trim, List.append_assoc, List.dropWhile_append_of_pos all]
  cases body with
  | nil =>
    rw [List.nil_append, List.dropWhile_eq_nil_iff.mpr all']
    rfl
  | cons c body =>
    have stops : Stops isBlank (c :: body ++ behind) := (stopsAppend (List.cons_ne_nil c body)).mpr first
    rw [dropStopped stops, List.reverse_append, runDropped (blanksReverse.mpr all') last, List.reverse_reverse]

theorem insideTrim (cs : List Char) : ∃ body, Inside cs body := by
  obtain ⟨before, front, rfl, all, first⟩ := runStops isBlank cs
  obtain ⟨behind, back, same, all', last⟩ := runStops isBlank front.reverse
  have here : front = back.reverse ++ behind.reverse := by
    rw [← List.reverse_append, ← same, List.reverse_reverse]
  refine ⟨back.reverse, ⟨before, behind.reverse, by rw [here, List.append_assoc], all, blanksReverse.mpr all'⟩, ?_, ?_⟩
  · intro c mem
    refine first c ?_
    rw [here, List.head?_append, Option.mem_def.mp mem]
    rfl
  · rwa [List.reverse_reverse]

theorem endsBlanks (all : Blanks gap) : Ends gap := fun c mem => all c (List.mem_of_mem_head? mem)

theorem skipBlanks (all : Blanks gap) (rest : List Char) : split [] (gap ++ rest) = split [] rest := by
  induction gap with
  | nil => rfl
  | cons c gap ih =>
    obtain ⟨first, others⟩ := List.forall_mem_cons.mp all
    rw [List.cons_append, split, if_pos first]
    exact ih others

theorem takeSolid (solid : ∀ c ∈ word, isBlank c = false) (current rest : List Char) :
    split current (word ++ rest) = split (word.reverse ++ current) rest := by
  induction word generalizing current with
  | nil => rfl
  | cons c word ih =>
    obtain ⟨first, others⟩ := List.forall_mem_cons.mp solid
    rw [List.cons_append, split, if_neg (ne_true_of_eq_false first), ih others, List.reverse_cons, List.append_assoc]
    rfl

theorem closeWord {current : List Char} (filled : current ≠ []) (ends : Ends rest) :
    split current rest = current.reverse :: split [] rest := by
  have full : ¬ current.isEmpty := by rwa [List.isEmpty_iff]
  cases rest with
  | nil => rw [split, if_neg full]; rfl
  | cons c rest =>
    rw [split, split, if_pos (ends c rfl), if_neg full, if_pos (ends c rfl)]
    rfl

theorem splitSpaced (spaced : Spaced cs words) : split [] cs = words := by
  induction spaced with
  | @none gap all =>
    rw [← List.append_nil gap, skipBlanks all]
    rfl
  | @next gap word rest words before own ends more ih =>
    have filled : word.reverse ≠ [] := List.reverse_ne_nil_iff.mpr own.filled
    rw [skipBlanks before, takeSolid own.solid, List.append_nil, closeWord filled ends, List.reverse_reverse, ih]

theorem spacedBlank {c : Char} (blank : isBlank c) (spaced : Spaced cs words) : Spaced (c :: cs) words := by
  cases spaced with
  | none all => exact .none (List.forall_mem_cons.mpr ⟨blank, all⟩)
  | @next gap word rest words before own ends more =>
    have longer : Blanks (c :: gap) := List.forall_mem_cons.mpr ⟨blank, before⟩
    exact .next longer own ends more

theorem spacedSolid {c : Char} (solid : isBlank c = false) (spaced : Spaced cs words) :
    ∃ words, Spaced (c :: cs) words := by
  have nothing : Blanks [] := List.forall_mem_nil _
  have alone : Word [c] := ⟨List.cons_ne_nil c [], List.forall_mem_singleton.mpr solid⟩
  cases spaced with
  | none all => exact ⟨_, .next nothing alone (endsBlanks all) (.none all)⟩
  | @next gap word rest words before own ends more =>
    cases gap with
    | nil =>
      have longer : Word (c :: word) := ⟨List.cons_ne_nil c word, List.forall_mem_cons.mpr ⟨solid, own.solid⟩⟩
      exact ⟨_, .next nothing longer ends more⟩
    | cons g gap =>
      have parted : Ends (g :: gap ++ (word ++ rest)) := by
        rintro _ ⟨⟩
        exact before g List.mem_cons_self
      exact ⟨_, .next nothing alone parted (.next before own ends more)⟩

theorem laidOut (cs : List Char) : ∃ words, Spaced cs words := by
  induction cs with
  | nil => exact ⟨[], .none (List.forall_mem_nil _)⟩
  | cons c cs ih =>
    obtain ⟨words, spaced⟩ := ih
    cases kind : isBlank c with
    | true => exact ⟨words, spacedBlank kind spaced⟩
    | false => exact spacedSolid kind spaced

theorem splitIff : split [] cs = words ↔ Spaced cs words := by
  refine ⟨?_, splitSpaced⟩
  rintro rfl
  obtain ⟨words, spaced⟩ := laidOut cs
  rwa [splitSpaced spaced]

theorem fieldsIff {text : String} {found : List String} :
    fields text = found ↔ Spaced text.toList (found.map String.toList) := by
  rw [← splitIff, fields]
  constructor
  · rintro rfl
    simp [Function.comp_def]
  · intro same
    simp [same, Function.comp_def]

theorem spacedTwo {first second : List Char} : Spaced cs [first, second] ↔ ∃ before between behind,
    cs = before ++ first ++ between ++ second ++ behind ∧ Blanks before ∧ Blanks between ∧ between ≠ [] ∧
      Blanks behind ∧ Word first ∧ Word second := by
  constructor
  · intro spaced
    cases spaced with
    | @next before _ rest _ all own ends more =>
      cases more with
      | @next between _ behind _ all' own' _ more =>
        cases more with
        | none all'' =>
          refine ⟨before, between, behind, by simp only [List.append_assoc], all, all', ?_, all'', own, own'⟩
          rintro rfl
          obtain ⟨c, cs, rfl⟩ := List.exists_cons_of_ne_nil own'.filled
          exact absurd (ends c rfl) (ne_true_of_eq_false (own'.solid c List.mem_cons_self))
  · rintro ⟨before, between, behind, rfl, all, all', parted, all'', own, own'⟩
    have ends : Ends (between ++ (second ++ behind)) := by
      obtain ⟨c, cs, rfl⟩ := List.exists_cons_of_ne_nil parted
      rintro _ ⟨⟩
      exact all' c List.mem_cons_self
    simp only [List.append_assoc]
    exact .next all own ends (.next all' own' (endsBlanks all'') (.none all''))

end Blank
end Teller
