import Teller.Proofs.SharedBroker

/-! What a shared broker has come to is what its calls come to one after another, each alone on the rows that the
ones before have left. -/
namespace Teller
open Broker

def Broker.InTurn (limits : ArchiveLimits) : State → List Entry → Prop
  | _, [] => True
  | s, e :: log =>
      (∃ own, Work.Ends s ∅ (e.call.request.body limits : Body Empty Empty Reply) own (.ok e.call.reply) ∧
        s.After own e.rows) ∧ InTurn limits e.rows log

theorem Broker.inTurnAppend {limits : ArchiveLimits} {s : State} {log later : List Entry} :
    InTurn limits s (log ++ later) ↔ InTurn limits s log ∧ InTurn limits (rowsAfter s log) later := by
  induction log generalizing s with
  | nil => simp [InTurn, rowsAfter]
  | cons e log ih =>
    rw [List.cons_append, InTurn, InTurn, ih, and_assoc]
    rfl

namespace SharedBroker
variable {first : State} {c : SharedBroker} {such : List Entry → Request → Prop}

theorem stepLog (c : SharedBroker) (m : Move) : (c.step m).log = c.log ∨ ∃ who request rest reply v,
    c.pendingCalls who = some ⟨request, rest⟩ ∧ c.shared.underway who = some v ∧ rest.result? = some reply ∧
      (c.shared.db.commit v.txn).1 = .ok () ∧
      (c.step m).log = c.log ++ [⟨⟨request, reply⟩, (c.shared.db.commit v.txn).2.state⟩] := by
  cases m with
  | begin who request => exact .inl rfl
  | act who drawn =>
    refine .inl ?_
    simp only [step]
    split
    · rfl
    · split <;> rfl
    · rfl
  | commit who =>
    simp only [step]
    split
    · rename_i request rest v working ongoing
      split
      · rename_i reply ended
        split
        · rename_i ok
          exact .inr ⟨who, request, rest, reply, v, working, ongoing, ended, ok, rfl⟩
        · exact .inl rfl
      · exact .inl rfl
    · exact .inl rfl
  | leave who => exact .inl rfl
  | checkpoint => exact .inl rfl
  | block on => exact .inl rfl

theorem stepPendingCall (c : SharedBroker) (m : Move) {who : Nat} {x : PendingCall}
    (found : (c.step m).pendingCalls who = some x) :
    m = .begin who x.request ∨ ∃ y, c.pendingCalls who = some y ∧ y.request = x.request := by
  have placed {other : Nat} {working : Option PendingCall} (found : setAt c.pendingCalls other working who = some x) :
      other = who ∧ working = some x ∨ c.pendingCalls who = some x := by
    by_cases here : who = other
    · subst here
      rw [setAtSelf] at found
      exact .inl ⟨rfl, found⟩
    · rw [setAtOther here] at found
      exact .inr found
  cases m with
  | begin other request =>
    rcases placed found with ⟨rfl, same⟩ | kept
    · cases same
      exact .inl rfl
    · exact .inr ⟨x, kept, rfl⟩
  | act other drawn =>
    refine .inr ?_
    simp only [step] at found
    split at found
    · rename_i request next working
      rcases placed found with ⟨rfl, same⟩ | kept
      · cases same
        exact ⟨_, working, rfl⟩
      · exact ⟨x, kept, rfl⟩
    · rename_i request rest v _ working ongoing
      split at found
      · rcases placed found with ⟨rfl, same⟩ | kept
        · cases same
          exact ⟨_, working, rfl⟩
        · exact ⟨x, kept, rfl⟩
      · exact ⟨x, found, rfl⟩
    · exact ⟨x, found, rfl⟩
  | commit other =>
    refine .inr ?_
    simp only [step] at found
    split at found
    · split at found
      · rcases placed found with ⟨rfl, same⟩ | kept
        · cases same
        · exact ⟨x, kept, rfl⟩
      · exact ⟨x, found, rfl⟩
    · exact ⟨x, found, rfl⟩
  | leave other =>
    rcases placed found with ⟨rfl, same⟩ | kept
    · cases same
    · exact .inr ⟨x, kept, rfl⟩
  | checkpoint => exact .inr ⟨x, found, rfl⟩
  | block on => exact .inr ⟨x, found, rfl⟩

theorem stepLimits (c : SharedBroker) (m : Move) : (c.step m).limits = c.limits := by
  cases m with
  | act who drawn =>
    simp only [step]
    split
    · rfl
    · split <;> rfl
    · rfl
  | commit who =>
    simp only [step]
    split
    · split <;> rfl
    · rfl
  | _ => rfl

def Asking (such : List Entry → Request → Prop) : SharedBroker → List Move → Prop
  | _, [] => True
  | c, m :: moves => (∀ who request, m = .begin who request → such c.log request) ∧ Asking such (c.step m) moves

theorem askingAppend {such : List Entry → Request → Prop} {moves more : List Move} {c : SharedBroker} :
    Asking such c (moves ++ more) ↔ Asking such c moves ∧ Asking such (c.run moves) more := by
  induction moves generalizing c with
  | nil => simp [Asking, run]
  | cons m moves ih =>
    rw [List.cons_append, Asking, Asking, ih, and_assoc]
    rfl

theorem askingAlways {such : Request → Prop} {moves : List Move}
    (asks : ∀ who request, .begin who request ∈ moves → such request) (c : SharedBroker) :
    Asking (fun _ => such) c moves := by
  induction moves generalizing c with
  | nil => trivial
  | cons m moves ih =>
    refine ⟨fun who request same => asks who request (same ▸ List.mem_cons_self), ih (fun who request mem => ?_) _⟩
    exact asks who request (List.mem_cons_of_mem m mem)

structure Orderly (such : List Entry → Request → Prop) (first : State) (c : SharedBroker) : Prop where
  sound : c.Sound first
  inTurn : InTurn c.limits first c.log
  begun : ∀ who x, c.pendingCalls who = some x → such c.log x.request
  logged : ∀ earlier e later, c.log = earlier ++ e :: later → such earlier e.call.request

section
variable (grows : ∀ log more request, such log request → such (log ++ more) request)
include grows

theorem orderlyStep (h : c.Orderly such first) {m : Move}
    (asks : ∀ who request, m = .begin who request → such c.log request) : (c.step m).Orderly such first := by
  refine ⟨soundStep h.sound m, ?_, fun who x found => ?_, ?_⟩
  · rw [stepLimits]
    rcases stepLog c m with same | ⟨who, request, rest, reply, v, working, ongoing, ended, ok, log⟩
    · rw [same]
      exact h.inTurn
    · obtain ⟨v', ongoing', progress⟩ := h.sound.works who _ working
      obtain rfl : v = v' := Option.some.inj (ongoing.symm.trans ongoing')
      obtain rfl := Work.resultIff.mp ended
      rw [log]
      refine inTurnAppend.mpr ⟨h.inTurn, ⟨v.txn.writes, ?_, ?_⟩, trivial⟩
      · rw [h.sound.rows]
        exact Work.endsCommitted h.sound.kept ongoing progress ok
      · rw [h.sound.rows]
        exact fun r => Database.valueAfterCommit ok r
  · have begun : such c.log x.request := by
      rcases stepPendingCall c m found with begins | ⟨y, handled, same⟩
      · exact asks who x.request begins
      · exact same ▸ h.begun who y handled
    rcases stepLog c m with same | ⟨who, request, rest, reply, v, working, ongoing, ended, ok, log⟩
    · rw [same]
      exact begun
    · rw [log]
      exact grows _ _ _ begun
  · rcases stepLog c m with same | ⟨who, request, rest, reply, v, working, ongoing, ended, ok, log⟩
    · rw [same]
      exact h.logged
    · intro earlier e later split
      rw [log] at split
      rcases List.eq_nil_or_concat later with rfl | ⟨between, x, rfl⟩
      · obtain ⟨rfl, last⟩ := List.append_inj' split rfl
        cases last
        exact h.begun who _ working
      · rw [List.concat_eq_append, ← List.cons_append, ← List.append_assoc] at split
        exact h.logged _ _ _ (List.append_inj' split rfl).1

theorem orderlyRun (h : c.Orderly such first) {moves : List Move} (asks : Asking such c moves) :
    (c.run moves).Orderly such first := by
  induction moves generalizing c with
  | nil => exact h
  | cons m moves ih => exact ih (orderlyStep grows h asks.1) asks.2

end

theorem runLimits (c : SharedBroker) (moves : List Move) : (c.run moves).limits = c.limits := by
  induction moves generalizing c with
  | nil => rfl
  | cons m moves ih => exact (ih (c.step m)).trans (stepLimits c m)

theorem runInTurn (limits : ArchiveLimits) {db : Database} (opened : db.Opened) (filed : db.state.Filed)
    (grows : ∀ log more request, such log request → such (log ++ more) request) {moves : List Move}
    (asks : Asking such (start limits db) moves) :
    let c := (start limits db).run moves
    rowsAfter db.state c.log = c.shared.db.state ∧ InTurn limits db.state c.log ∧
      ∀ earlier e later, c.log = earlier ++ e :: later → such earlier e.call.request := by
  intro c
  have begins : (start limits db).Orderly such db.state :=
    ⟨soundStart limits opened filed, trivial, (fun _ _ found => by cases found),
      fun _ _ _ split => by simp [start] at split⟩
  obtain ⟨sound, inTurn, _, logged⟩ := orderlyRun grows begins asks
  rw [runLimits] at inTurn
  exact ⟨sound.rows, inTurn, logged⟩

end SharedBroker
end Teller
