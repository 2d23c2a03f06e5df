import Mathlib.Algebra.Order.BigOperators.Group.Finset
import RingBuffers.Mutex.Ranks

/-! A transfer pushes, pops and closes only finitely often. From the instant on at which it is calm,
the threads that could still act would have to. -/
namespace RingBuffers.Mutex
open Census Departure Fairness Transition Wakeup

variable {T α : Type}

section Behaviors

variable [DecidableEq T] [Fintype T] {env : Environment} {n : Nat} {roles : T → Role α}
  {s s' : State T α} {t : T} {l : Label T α} {σ : Nat → State T α}
  {ls : Nat → Option (Label T α)}

theorem sum_itemsOf (xs : List (T × α)) : ∑ t, (itemsOf t xs).length = xs.length := by
  induction xs with
  | nil => simp [itemsOf]
  | cons x xs ih =>
    have split : ∀ t, (itemsOf t (x :: xs)).length =
        (itemsOf t xs).length + if x.1 = t then 1 else 0 := by
      intro t
      by_cases mine : x.1 = t <;> simp [itemsOf, mine]
    simp only [split, Finset.sum_add_distrib, ih, Finset.sum_ite_eq, Finset.mem_univ, if_true,
      List.length_cons]

theorem Transferring.pushed_le (now : Transferring n roles s) :
    s.pushed.length ≤ ∑ t, (roles t).items.length := by
  rw [← sum_itemsOf]
  exact Finset.sum_le_sum fun t _ => (now.prefixes t).length_le

/-- From instant `m` on nothing is pushed, popped or closed any more. -/
structure Calm (σ : Nat → State T α) (m : Nat) : Prop where
  pushed : ∀ j, m ≤ j → (σ j).pushed = (σ m).pushed
  popped : ∀ j, m ≤ j → (σ j).popped.length = (σ m).popped.length
  closed : ∀ j, m ≤ j → (σ j).buffer.closed_ = (σ m).buffer.closed_

theorem Calm.count {m j : Nat} (calm : Calm σ m) (always : ∀ i, Transferring n roles (σ i))
    (le : m ≤ j) : (σ j).buffer.count_ = (σ m).buffer.count_ := by
  rw [(always j).inv.holds.count, (always m).inv.holds.count, List.length_map, List.length_map,
    calm.pushed j le, calm.popped j le]

theorem Calm.room {m j : Nat} (calm : Calm σ m) (always : ∀ i, Transferring n roles (σ i))
    (empty : (σ m).buffer.count_ = 0) (le : m ≤ j) : (σ j).buffer.isFull = false := by
  have count := (calm.count always le).trans empty
  have pos := (always j).inv.holds.pos
  have capacity := (always j).inv.holds.capacity
  simp only [MutexBuffer.isFull, count, capacity, beq_eq_false_iff_ne]
  omega

variable (behavior : Behavior (step env) (Program roles) σ ls)
  (always : ∀ i, Transferring n roles (σ i))

include behavior always

theorem move_at {j : Nat} (taken : ls j = some l) :
    Program roles (σ j) l ∧ Move (σ j) l (σ (j + 1)) := by
  obtain ⟨program, moved⟩ := behavior.step_at taken
  exact ⟨program, (always j).move program.follows moved⟩

theorem exists_calm : ∃ m, Calm σ m := by
  have grows : ∀ s l s', Transferring n roles s → Program roles s l → step env s l = some s' →
      s.pushed <+: s'.pushed ∧ s.popped.length ≤ s'.popped.length ∧
        (s.buffer.closed_ = true → s'.buffer.closed_ = true) :=
    fun s l s' now program h => (now.move program.follows h).grows
  obtain ⟨m₁, pushes⟩ := behavior.settles (fun s => s.pushed.length) _ _ always
    (fun s l s' now program h => (grows s l s' now program h).1.length_le)
    (fun s now => now.pushed_le)
  obtain ⟨m₂, pops⟩ := behavior.settles (fun s => s.popped.length) _ _ always
    (fun s l s' now program h => (grows s l s' now program h).2.1)
    (fun s now => by simpa using now.inv.holds.ordered.trans (by simpa using now.pushed_le))
  obtain ⟨m₃, closes⟩ := behavior.settles (fun s => s.buffer.closed_.toNat) 1 _ always
    (fun s l s' now program h => by
      have kept := (grows s l s' now program h).2.2
      cases shut : s.buffer.closed_ with
      | false => exact Nat.zero_le _
      | true => exact Nat.le_of_eq (by rw [kept shut]))
    (fun s now => Bool.toNat_le _)
  refine ⟨m₁ + m₂ + m₃, fun j le => ?_, fun j le => ?_, fun j le => ?_⟩
  · have longer : (σ (m₁ + m₂ + m₃)).pushed <+: (σ j).pushed :=
      behavior.stays (fun s => (σ (m₁ + m₂ + m₃)).pushed <+: s.pushed)
        (fun k l _ taken before =>
          before.trans (move_at behavior always taken).2.grows.1) List.prefix_rfl le
    refine (longer.eq_of_length ?_).symm
    rw [pushes j (by omega), pushes (m₁ + m₂ + m₃) (by omega)]
  · rw [pops j (by omega), pops (m₁ + m₂ + m₃) (by omega)]
  · have same := (closes j (by omega)).trans (closes (m₁ + m₂ + m₃) (by omega)).symm
    cases before : (σ (m₁ + m₂ + m₃)).buffer.closed_ <;> simpa [before] using same

variable {m : Nat} (calm : Calm σ m)

include calm

theorem Calm.consumer_leaves (fair : Fair (step env) (Program roles) (Label.runs t) σ ls)
    (role : roles t = .consumer) (stays : ∀ j, m ≤ j → phase (σ j) t ≠ .left) :
    (σ m).buffer.count_ = 0 ∧ (σ m).buffer.closed_ = false := by
  have awake : ∀ j, ((σ j).thread t).isWaiting = false := by
    intro j
    cases at_pc : (σ j).thread t with
    | waiting v =>
      exact absurd role ((always j).staged.plays t _ (by rw [at_pc]; rfl)).not_consumer
    | _ => rfl
  have enabled : ∀ j, m ≤ j → Enabled (step env) (Program roles) (Label.runs t) (σ j) := by
    intro j le
    by_cases idle : (σ j).thread t = .idle
    · cases loop : consumerLoop ((σ j).result t) with
      | none =>
        have gone : (σ j).result t = some (.closed true) := by
          unfold consumerLoop at loop
          split at loop <;> simp_all
        exact absurd (by simp only [phase, idle, gone]) (stays j le)
      | some op =>
        refine (always j).enabled_call idle ⟨by simpa only [Follows, role] using loop, ?_⟩
        unfold consumerLoop at loop
        split at loop <;> cases loop <;> rfl
    · exact (always j).enabled_busy idle (awake j)
  have keeps : ∀ j l, ls j = some l → ¬ l.runs t →
      (σ (j + 1)).thread t = (σ j).thread t ∧ (σ (j + 1)).result t = (σ j).result t :=
    fun j l taken theirs => (move_at behavior always taken).2.keeps theirs (awake j)
  have empty : (σ m).buffer.count_ = 0 := by
    by_contra some_left
    refine fair.exhausts behavior (fun s => s.toTake t) m enabled ?_ ?_
    · intro j l le taken mine
      obtain ⟨program, move⟩ := move_at behavior always taken
      apply move.lowers_toTake (always j).staged program.follows role mine
      · rw [calm.count always le]
        omega
      · rw [calm.popped (j + 1) (by omega), calm.popped j le]
      · exact stays (j + 1) (by omega)
    · intro j l le taken theirs
      obtain ⟨thread, result⟩ := keeps j l taken theirs
      exact Nat.le_of_eq (by simp only [State.toTake, thread, result])
  refine ⟨empty, ?_⟩
  by_contra closed
  have shut : (σ m).buffer.closed_ = true := by simpa using closed
  refine fair.exhausts behavior (fun s => s.toLeave t) m enabled ?_ ?_
  · intro j l le taken mine
    obtain ⟨program, move⟩ := move_at behavior always taken
    apply move.lowers_toLeave (always j).staged program.follows role mine
    · rw [calm.popped (j + 1) (by omega), calm.popped j le]
    · rw [calm.closed j le, shut]
  · intro j l le taken theirs
    obtain ⟨thread, result⟩ := keeps j l taken theirs
    exact Nat.le_of_eq (by simp only [State.toLeave, thread, result])

/-- Beside an empty buffer nobody stays asleep: notices or woken producers are on their way,
and each would wake one more or push. -/
theorem Calm.nobody_waits
    (fair : ∀ t, Fair (step env) (Program roles) (Label.runs t) σ ls)
    (empty : (σ m).buffer.count_ = 0) : ∃ k, m ≤ k ∧ ∀ j, k ≤ j → (σ j).blocked = 0 := by
  obtain ⟨k, le, same⟩ := settles_down (fun j => (σ j).blocked) m fun j le => by
    cases taken : ls j with
    | none => rw [behavior.rest_at taken]
    | some l => exact ((move_at behavior always taken).2.wakes (calm.room always empty le)).1
  refine ⟨k, le, fun j later => ?_⟩
  rw [same j later]
  by_contra sleeping
  have some_sleep : ∀ j, k ≤ j → 0 < (σ j).blocked := fun j after => by
    rw [same j after]
    exact Nat.pos_of_ne_zero sleeping
  -- a thread on its way stays so until its own step
  have arrives : ∀ t, (σ k).thread t ≠ .idle → ((σ k).thread t).isWaiting = false →
      ∃ j l, k ≤ j ∧ ls j = some l ∧ l.runs t ∧ (σ j).thread t = (σ k).thread t := by
    intro t busy awake
    refine (fair t).acts behavior (fun s => s.thread t = (σ k).thread t) rfl ?_ ?_
    · intro j _ at_pc
      exact (always j).enabled_busy (at_pc ▸ busy) (at_pc ▸ awake)
    · intro j l _ taken theirs at_pc
      exact ((move_at behavior always taken).2.keeps theirs (at_pc ▸ awake)).1.trans at_pc
  have covered := (always k).covered (some_sleep k (Nat.le_refl k))
  have free : 0 < (σ k).free := by
    have not_full := calm.room always empty le
    refine Nat.pos_of_ne_zero fun none_free => ?_
    rw [(always k).inv.full_free.mpr none_free] at not_full
    cases not_full
  by_cases owed : 0 < (σ k).notifying
  · obtain ⟨t, notifying⟩ := exists_notifying owed
    obtain ⟨j, l, after, taken, mine, at_pc⟩ :=
      arrives t (by simp [notifying]) (by rw [notifying]; rfl)
    obtain ⟨_, move⟩ := move_at behavior always taken
    obtain ⟨u, rfl⟩ := move.notifies (at_pc.trans notifying) mine
    have fewer := (move.wakes (calm.room always empty (le.trans after))).2 t u rfl
      (some_sleep j after)
    rw [same j after, same (j + 1) (by omega)] at fewer
    exact Nat.lt_irrefl _ fewer
  · obtain ⟨t, v, woken⟩ := exists_woken (s := σ k) (by
      simp only [State.tally] at covered
      omega)
    obtain ⟨j, l, after, taken, mine, at_pc⟩ :=
      arrives t (by simp [woken]) (by rw [woken]; rfl)
    obtain ⟨program, move⟩ := move_at behavior always taken
    have locks := move.locks (at_pc.trans woken) mine program.follows
    subst locks
    have plays := (always j).staged.plays t (.emplace v) (by rw [at_pc, woken]; rfl)
    cases plays with
    | push items v role next =>
      have longer := move.lock_pushes (always j).staged role
        (calm.room always empty (le.trans after))
      rw [calm.pushed j (le.trans after), calm.pushed (j + 1) (by omega)] at longer
      omega

theorem Calm.all_pushed (fair : ∀ t, Fair (step env) (Program roles) (Label.runs t) σ ls)
    (empty : (σ m).buffer.count_ = 0) : Finished roles (σ m) := by
  obtain ⟨k, le, nobody⟩ := calm.nobody_waits behavior always fair empty
  intro t
  refine (((always m).prefixes t).eq_of_length_le ?_)
  by_contra short
  have pushed : ∀ j, m ≤ j → itemsOf t (σ j).pushed = itemsOf t (σ m).pushed := fun j le => by
    rw [calm.pushed j le]
  have awake : ∀ j, k ≤ j → ((σ j).thread t).isWaiting = false := by
    intro j after
    cases at_pc : (σ j).thread t with
    | waiting v =>
      have counted : 0 < (σ j).blocked := census_pos_iff.mpr ⟨t, by rw [at_pc]; rfl⟩
      rw [nobody j after] at counted
      cases counted
    | _ => rfl
  cases role : roles t with
  | consumer | closer =>
    rw [role] at short
    exact short (Nat.zero_le _)
  | producer items =>
    rw [role] at short
    simp only [Role.items, Nat.not_le] at short
    refine (fair t).exhausts behavior (fun s => (s.thread t).toSection) k ?_ ?_ ?_
    · intro j after
      by_cases idle : (σ j).thread t = .idle
      · have next : items[(itemsOf t (σ j).pushed).length]? =
            some items[(itemsOf t (σ m).pushed).length] := by
          rw [pushed j (le.trans after)]
          exact List.getElem?_eq_getElem short
        have follows : Follows roles (σ j)
            (.call t (.emplace items[(itemsOf t (σ m).pushed).length])) := by
          simp only [Follows, role, next, Option.map_some]
        exact (always j).enabled_call idle ⟨follows, rfl⟩
      · exact (always j).enabled_busy idle (awake j after)
    · intro j l after taken mine
      obtain ⟨program, move⟩ := move_at behavior always taken
      by_cases locks : l = .lock t false
      · subst locks
        have longer := move.lock_pushes (always j).staged role
          (calm.room always empty (le.trans after))
        rw [calm.pushed j (le.trans after), calm.pushed (j + 1) (by omega)] at longer
        omega
      · exact move.lowers_toSection mine locks program.follows
    · intro j l after taken theirs
      rw [((move_at behavior always taken).2.keeps theirs (awake j after)).1]

theorem Calm.closer_closes (fair : Fair (step env) (Program roles) (Label.runs t) σ ls)
    (role : roles t = .closer) (finished : Finished roles (σ m)) :
    (σ m).buffer.closed_ = true := by
  by_contra shut
  have still_open : ∀ j, m ≤ j → (σ j).buffer.closed_ = false := fun j le => by
    rw [calm.closed j le]
    simpa using shut
  have awake : ∀ j, ((σ j).thread t).isWaiting = false := by
    intro j
    cases at_pc : (σ j).thread t with
    | waiting v =>
      cases (always j).staged.plays t (.emplace v) (by rw [at_pc]; rfl) with
      | push items v other =>
        rw [role] at other
        cases other
    | _ => rfl
  refine fair.exhausts behavior (fun s => (s.thread t).toSection) m ?_ ?_ ?_
  · intro j le
    by_cases idle : (σ j).thread t = .idle
    · have all : Finished roles (σ j) := by
        rw [Finished, calm.pushed j le]
        exact finished
      have follows : Follows roles (σ j) (.call t .close) := by
        simpa only [Follows, role, true_and] using all
      exact (always j).enabled_call idle ⟨follows, by simp [closesOnce, still_open j le]⟩
    · exact (always j).enabled_busy idle (awake j)
  · intro j l le taken mine
    obtain ⟨program, move⟩ := move_at behavior always taken
    by_cases locks : l = .lock t false
    · subst locks
      have closed := move.lock_closes (always j).staged role
      rw [still_open (j + 1) (by omega)] at closed
      cases closed
    · exact move.lowers_toSection mine locks program.follows
  · intro j l le taken theirs
    rw [((move_at behavior always taken).2.keeps theirs (awake j)).1]

end Behaviors

end RingBuffers.Mutex
