import Mathlib.Tactic.FinCases
import RingBuffers.Mutex.Calm

/-! The stress test with many threads comes to an end: every `join()` returns. A consumer
never blocks, but a producer blocked in `cvFull_.wait` has to rely on the notices of the
consumers, so that the counts of sleepers and notices carry the proof. -/
namespace RingBuffers.Mutex
open Departure Fairness Transition

variable {T α : Type}

section Joins

variable [DecidableEq T] [Fintype T] {env : Environment} {n : Nat} {roles : T → Role α}
  {s s' : State T α} {t : T} {op : Op α} {l : Label T α}

omit [DecidableEq T] [Fintype T] in
theorem phase_left_iff :
    phase s t = .left ↔ s.thread t = .idle ∧ s.result t = some (.closed true) := by
  unfold phase
  split <;> simp_all

theorem Move.left (move : Move s l s') (staged : Staged roles s) (follows : Follows roles s l)
    (role : roles t = .consumer) (left : phase s t = .left) : ¬ l.runs t ∧ phase s' t = .left := by
  obtain ⟨idle, result⟩ := phase_left_iff.mp left
  have gone : ¬ l.runs t := by
    intro mine
    rcases move.consumes staged follows role mine with ⟨op, _, loop, _⟩ | ⟨other, _⟩ |
      ⟨other, _⟩ | ⟨other, _⟩ | ⟨other, _⟩
    · rw [result] at loop
      cases loop
    · rw [idle] at other
      cases other
    · rw [idle] at other
      cases other
    · rw [idle] at other
      cases other
    · rw [idle] at other
      cases other
  obtain ⟨thread, same⟩ := move.keeps gone (by rw [idle]; rfl)
  exact ⟨gone, by rw [phase_frame thread same, left]⟩

omit [Fintype T] in
theorem Ended.no_call (ended : Ended roles s) (program : Program roles s (.call t op)) : False := by
  cases program.follows.plays with
  | push items v role next =>
    have all := ended.finished t
    rw [role] at all
    rw [all, Role.items, List.getElem?_eq_none (Nat.le_refl _)] at next
    cases next
  | tryPop role | closed role =>
    have loop := program.follows
    simp only [Follows, role, (phase_left_iff.mp (ended.left t role)).2, consumerLoop] at loop
    cases loop
  | close role =>
    have once := program.once
    simp [closesOnce, ended.closed] at once

theorem Joined.stuck (joined : Joined roles s) (program : Program roles s l) :
    step env s l = none := by
  unfold step
  split
  · rfl
  · cases l with
    | call t op => exact (joined.no_call program).elim
    | lock t throws | notify t target | spurious t => simp [joined.idle t, PC.pending]

theorem Move.lowers_toReturn (move : Move s l s') (ended : Ended roles s)
    (staged : Staged roles s) (program : Program roles s l) (mine : l.runs t) :
    (s'.thread t).toReturn < (s.thread t).toReturn := by
  have begun : ∀ {op}, (s.thread t).pending = some op → (s.thread t).toReturn = 2 := by
    intro op pending
    rcases pending_cases pending with at_pc | ⟨v, _, at_pc⟩ <;> rw [at_pc] <;> rfl
  cases move with
  | call u op idle => exact (ended.no_call program).elim
  | block u v pending full =>
    exact absurd ended.finished (staged.plays u _ (PC.call_of_pending pending)).not_finished
  | push u op v res b pending | refuse u v pending | take u op v res b pending | miss u pending
  | front u pending | close u pending | closed u pending | threw u op pending =>
    cases mine
    rw [begun pending]
    simp [State.answers, PC.toReturn]
  | notify u w v notifying | notifyNobody u notifying =>
    cases mine
    simp [State.moves, notifying, PC.toReturn]
  | spurious u v waiting => cases mine

end Joins

section Joined

variable [DecidableEq T] [Fintype T] {env : Environment} {n : Nat} {roles : T → Role α}
  {σ : Nat → State T α} {ls : Nat → Option (Label T α)}
  (behavior : Behavior (step env) (Program roles) σ ls)
  (always : ∀ i, Transferring n roles (σ i))

include behavior always

theorem returns {t : T} (fair : Fair (step env) (Program roles) (Label.runs t) σ ls) {m : Nat}
    (ended : ∀ j, m ≤ j → Ended roles (σ j)) :
    ∃ k, ∀ j, k ≤ j → (σ j).thread t = .idle := by
  have awake : ∀ j, m ≤ j → ((σ j).thread t).isWaiting = false := by
    intro j le
    cases at_pc : (σ j).thread t with
    | waiting v =>
      have plays := (always j).staged.plays t (.emplace v) (by rw [at_pc]; rfl)
      exact absurd (ended j le).finished plays.not_finished
    | _ => rfl
  have sometime : ∃ k, m ≤ k ∧ (σ k).thread t = .idle := by
    by_contra never
    push Not at never
    refine fair.exhausts behavior (fun s => (s.thread t).toReturn) m ?_ ?_ ?_
    · exact fun j le => (always j).enabled_busy (never j le) (awake j le)
    · intro j l le taken mine
      obtain ⟨program, move⟩ := move_at behavior always taken
      exact move.lowers_toReturn (ended j le) (always j).staged program mine
    · intro j l le taken theirs
      rw [((move_at behavior always taken).2.keeps theirs (awake j le)).1]
  obtain ⟨k, le, idle⟩ := sometime
  refine ⟨k, fun j after => behavior.stays (fun s => s.thread t = .idle) ?_ idle after⟩
  intro j l after taken now
  obtain ⟨program, move⟩ := move_at behavior always taken
  by_cases mine : l.runs t
  · have lower := move.lowers_toReturn (ended j (le.trans after)) (always j).staged program mine
    rw [now] at lower
    exact absurd lower (Nat.not_lt_zero _)
  · exact (move.keeps mine (awake j (le.trans after))).1.trans now

theorem terminates (fair : ∀ t, Fair (step env) (Program roles) (Label.runs t) σ ls)
    (consumer : ∃ t, roles t = .consumer) (closer : ∃ t, roles t = .closer) :
    ∃ m, ∀ j, m ≤ j → Joined roles (σ j) := by
  obtain ⟨m, calm⟩ := exists_calm behavior always
  have leaves : ∀ t, ∃ k, ∀ j, k ≤ j → roles t = .consumer → phase (σ j) t = .left := by
    intro t
    by_cases role : roles t = .consumer
    · have sometime : ∃ k, m ≤ k ∧ phase (σ k) t = .left := by
        by_contra never
        push Not at never
        obtain ⟨empty, shut⟩ := calm.consumer_leaves behavior always (fair t) role never
        obtain ⟨u, closes⟩ := closer
        have closed := calm.closer_closes behavior always (fair u) closes
          (calm.all_pushed behavior always fair empty)
        rw [shut] at closed
        cases closed
      obtain ⟨k, _, left⟩ := sometime
      refine ⟨k, fun j le _ => behavior.stays (fun s => phase s t = .left) ?_ left le⟩
      intro j l _ taken now
      obtain ⟨program, move⟩ := move_at behavior always taken
      exact (move.left (always j).staged program.follows role now).2
    · exact ⟨0, fun j _ same => absurd same role⟩
  obtain ⟨k, left⟩ := together leaves
  have ended : ∀ j, k ≤ j → Ended roles (σ j) := by
    intro j le
    obtain ⟨t, role⟩ := consumer
    have closed := (always j).sound ⟨t, role⟩ (left j le t role)
    exact ⟨(always j).staged.finished closed, closed, left j le⟩
  obtain ⟨i, idle⟩ := together fun t => returns behavior always (fair t) ended
  exact ⟨k + i, fun j le => ⟨ended j (by omega), idle j (by omega)⟩⟩

end Joined

/-- Any number of producers and at least one consumer, with a thread that closes the buffer
after the last push: every thread returns, spurious wake-ups or not, if the scheduler is fair.
A step being a whole critical section, this asks for a `mutex_` that starves nobody. -/
theorem mutex_transfer_terminates [DecidableEq T] [Fintype T] (env : Environment) (n : Nat)
    (small : n < sizeModulus) (b : MutexBuffer α) (made : MutexBuffer.construct α env n = .ok b)
    (roles : T → Role α) (consumer : ∃ t, roles t = .consumer) (closer : ∃ t, roles t = .closer)
    (σ : Nat → State T α) (ls : Nat → Option (Label T α))
    (behavior : Behavior (step env) (Program roles) σ ls) (starts : σ 0 = start T b)
    (fair : ∀ t, Fair (step env) (Program roles) (Label.runs t) σ ls) :
    ∃ m, ∀ j, m ≤ j → Joined roles (σ j) := by
  obtain ⟨pos, rfl⟩ := MutexBuffer.construct_ok made
  have always : ∀ i, Transferring n roles (σ i) := behavior.invariant _
    (fun s l s' now program h => now.step program h)
    (starts ▸ transferring_start (MutexBuffer.holds_empty pos small) rfl)
  exact terminates behavior always fair consumer closer

theorem mutex_transfer_terminates_at_one : ∃ (σ : Nat → State (Fin 4) Nat) (m : Nat),
    σ 0 = start (Fin 4) (MutexBuffer.empty Nat 1) ∧ ∀ j, m ≤ j → Joined quartet (σ j) := by
  have ends : (exec (step .desktop) (start (Fin 4) (MutexBuffer.empty Nat 1))
      closedBeforePop).isSome := by decide
  have run := Run.of_exec ends (by decide : Along _ (Program quartet) _ _)
  have joined : Joined quartet (Option.get _ ends) := by
    refine ⟨⟨fun t => ?_, rfl, fun t role => ?_⟩, fun t => ?_⟩
    · fin_cases t <;> rfl
    · fin_cases t
      · cases role
      · rfl
      · rfl
      · cases role
    · fin_cases t <;> rfl
  have done : ∀ t, ¬ Enabled (step .desktop) (Program quartet) (Label.runs t)
      (Option.get _ ends) := by
    rintro t ⟨l, s, _, program, moved⟩
    rw [joined.stuck program] at moved
    cases moved
  obtain ⟨m, always⟩ := mutex_transfer_terminates .desktop 1 (by decide) _ rfl quartet
    ⟨1, rfl⟩ ⟨3, rfl⟩ _ _ (behavior_of_run run) (states_zero _ _)
    (fun t => fair_of_run run (done t))
  exact ⟨_, m, states_zero _ _, always⟩

end RingBuffers.Mutex
