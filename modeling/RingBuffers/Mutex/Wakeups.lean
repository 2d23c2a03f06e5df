import RingBuffers.Library.Wakeup
import RingBuffers.Mutex.Machine

/-! Who wakes the producers blocked in `cvFull_.wait`. The counts of blocked, woken and
notifying threads and of free slots move as sleepers and notices do; the one step outside
that pattern is a woken `emplace` that leaves by an exception of the element type. -/
namespace RingBuffers.Mutex
open Census Transition Wakeup

variable {T α : Type}

def State.tally [Fintype T] (s : State T α) : Tally := ⟨s.blocked, s.woken, s.notifying, s.free⟩

def abandons (s : State T α) : Label T α → Bool
  | .lock t true => (s.thread t).isWoken
  | _ => false

def throwless : Label T α → Bool
  | .lock _ throws => !throws
  | _ => true

/-- A woken `emplace` may leave by an exception when the notices owed reach every producer
still asleep, or when the free slots have somebody coming for them without it. -/
def Affordable [Fintype T] (s : State T α) (l : Label T α) : Prop :=
  abandons s l = true → s.blocked ≤ s.notifying ∨ s.free + 1 ≤ s.woken + s.notifying

instance [Fintype T] (s : State T α) (l : Label T α) : Decidable (Affordable s l) :=
  inferInstanceAs (Decidable (_ → _))

section States

variable {n : Nat} {s s' : State T α} {t : T}

theorem Inv.free_eq (inv : Inv n s) : s.free + (s.pushed.length - s.popped.length) = n := by
  have count := inv.holds.count
  have bounded := inv.holds.bounded
  rw [List.length_map] at count bounded
  rw [State.free, inv.holds.capacity]
  omega

theorem Inv.full_free (inv : Inv n s) : s.buffer.isFull = true ↔ s.free = 0 := by
  have count := inv.holds.count
  have bounded := inv.holds.bounded
  rw [MutexBuffer.isFull, beq_iff_eq, State.free, inv.holds.capacity]
  omega

theorem Inv.push_free (inv : Inv n s) (inv' : Inv n s') {x : T × α}
    (pushed : s'.pushed = s.pushed ++ [x]) (popped : s'.popped = s.popped) :
    s'.free + 1 = s.free := by
  have before := inv.free_eq
  have after := inv'.free_eq
  have ordered := inv.holds.ordered
  have bounded := inv'.holds.bounded
  rw [List.length_map] at ordered bounded
  rw [pushed, popped, List.length_append, List.length_singleton] at after bounded
  omega

theorem Inv.pop_free (inv : Inv n s) (inv' : Inv n s') {x : T × α}
    (pushed : s'.pushed = s.pushed) (popped : s'.popped = s.popped ++ [x]) :
    s'.free = s.free + 1 := by
  have before := inv.free_eq
  have after := inv'.free_eq
  have ordered := inv'.holds.ordered
  rw [List.length_map, pushed, popped, List.length_append, List.length_singleton] at ordered
  rw [pushed, popped, List.length_append, List.length_singleton] at after
  omega

theorem throwless_keeps (s : State T α) {l : Label T α} (kept : throwless l = true) :
    abandons s l = false := by
  cases l with
  | lock t throws =>
    cases throws with
    | false => rfl
    | true => cases kept
  | _ => rfl

end States

section Population

variable [Fintype T] {s : State T α}

theorem blocked_start (b : MutexBuffer α) : (start T b).blocked = 0 :=
  census_eq_zero fun _ => rfl

theorem exists_waiting (blocked : 0 < s.blocked) : ∃ t v, s.thread t = .waiting v := by
  obtain ⟨t, waits⟩ := census_pos_iff.mp blocked
  cases at_pc : s.thread t with
  | waiting v => exact ⟨t, v, at_pc⟩
  | _ => simp [at_pc, PC.isWaiting] at waits

theorem exists_woken (woken : 0 < s.woken) : ∃ t v, s.thread t = .woken v := by
  obtain ⟨t, back⟩ := census_pos_iff.mp woken
  cases at_pc : s.thread t with
  | woken v => exact ⟨t, v, at_pc⟩
  | _ => simp [at_pc, PC.isWoken] at back

theorem exists_notifying (owed : 0 < s.notifying) : ∃ t, s.thread t = .notifying := by
  obtain ⟨t, owes⟩ := census_pos_iff.mp owed
  cases at_pc : s.thread t with
  | notifying => exact ⟨t, at_pc⟩
  | _ => simp [at_pc, PC.isNotifying] at owes

end Population

section Counts

variable [DecidableEq T] [Fintype T] {env : Environment} {n : Nat} {s s' : State T α} {t : T}

theorem counts_update (s' : State T α) {pc pc' : PC α} (at_pc : s.thread t = pc)
    (thread : s'.thread = Function.update s.thread t pc') :
    s'.blocked + pc.isWaiting.toNat = s.blocked + pc'.isWaiting.toNat ∧
      s'.woken + pc.isWoken.toNat = s.woken + pc'.isWoken.toNat ∧
      s'.notifying + pc.isNotifying.toNat = s.notifying + pc'.isNotifying.toNat := by
  rw [State.blocked, State.woken, State.notifying, thread, ← at_pc]
  exact ⟨census_update _ _ _ _, census_update _ _ _ _, census_update _ _ _ _⟩

/-- A thread that enters or leaves a call without waiting takes no part in the counts. -/
theorem quiet_step {pc pc' : PC α} (at_pc : s.thread t = pc)
    (thread : s'.thread = Function.update s.thread t pc') (free : s'.free = s.free)
    (quiet : pc = .idle ∨ ∃ op, pc = .entering op)
    (quiet' : pc' = .idle ∨ ∃ op, pc' = .entering op) : Step s.tally s'.tally := by
  obtain ⟨blocked, woken, notifying⟩ := counts_update s' at_pc thread
  refine .stay ?_
  simp only [State.tally, free, Tally.mk.injEq, and_true]
  rcases quiet with rfl | ⟨op, rfl⟩ <;> rcases quiet' with rfl | ⟨op', rfl⟩ <;>
    exact ⟨blocked, woken, notifying⟩

theorem notify_counts {u : T} {v : α} (notifying : s.thread t = .notifying)
    (waiting : s.thread u = .waiting v) :
    ((s.moves u (.woken v)).moves t .idle).blocked + 1 = s.blocked ∧
      ((s.moves u (.woken v)).moves t .idle).woken = s.woken + 1 ∧
      ((s.moves u (.woken v)).moves t .idle).notifying + 1 = s.notifying := by
  obtain ⟨blocked₁, woken₁, notices₁⟩ := counts_update (s.moves u (.woken v)) waiting rfl
  obtain ⟨blocked₂, woken₂, notices₂⟩ :=
    counts_update ((s.moves u (.woken v)).moves t .idle) (still_notifying notifying waiting) rfl
  exact ⟨(congrArg (· + 1) blocked₂).trans blocked₁, woken₂.trans woken₁,
    notices₂.trans notices₁⟩

theorem Move.tally {l : Label T α} (move : Move s l s') (inv : Inv n s) :
    abandons s l = false ∧ Step s.tally s'.tally ∨
      abandons s l = true ∧ Abandon s.tally s'.tally := by
  have inv' := move.inv inv
  cases move with
  | call t op idle => exact .inl ⟨rfl, quiet_step idle rfl rfl (.inl rfl) (.inr ⟨op, rfl⟩)⟩
  | block t v pending at_full =>
    have none_free := inv.full_free.mp at_full
    rcases pending_cases pending with at_pc | ⟨w, _, at_pc⟩
    · obtain ⟨blocked, woken, notifying⟩ := counts_update (s.moves t (.waiting v)) at_pc rfl
      exact .inl ⟨rfl, .sleep none_free none_free blocked woken notifying⟩
    · obtain ⟨blocked, woken, notifying⟩ := counts_update (s.moves t (.waiting v)) at_pc rfl
      exact .inl ⟨rfl, .sleepAgain none_free none_free blocked woken notifying⟩
  | push t op v res b pending kind room built =>
    have used := inv.push_free inv' rfl rfl
    rcases pending_cases pending with at_pc | ⟨w, _, at_pc⟩
    · obtain ⟨blocked, woken, notifying⟩ := counts_update (s.answers t .idle res) at_pc rfl
      exact .inl ⟨rfl, .use used blocked woken notifying⟩
    · obtain ⟨blocked, woken, notifying⟩ := counts_update (s.answers t .idle res) at_pc rfl
      exact .inl ⟨rfl, .useWoken used blocked woken notifying⟩
  | take t op v res b pending kind some_left live destroyed =>
    have freed := inv.pop_free inv' rfl rfl
    rcases pending_cases pending with at_pc | ⟨w, rfl, _⟩
    · obtain ⟨blocked, woken, notifying⟩ :=
        counts_update (s.answers t .notifying res) at_pc rfl
      exact .inl ⟨rfl, .release freed blocked woken notifying⟩
    · -- a woken thread is in `emplace`, which takes nothing
      cases kind
  | refuse t v pending | miss t pending | front t pending | close t pending
  | closed t pending =>
    rcases pending_cases pending with at_pc | ⟨w, eq, _⟩
    · exact .inl ⟨rfl, quiet_step at_pc rfl rfl (.inr ⟨_, rfl⟩) (.inl rfl)⟩
    · cases eq
  | threw t op pending reached =>
    rcases pending_cases pending with at_pc | ⟨w, _, at_pc⟩
    · exact .inl ⟨by simp [abandons, at_pc, PC.isWoken],
        quiet_step at_pc rfl rfl (.inr ⟨op, rfl⟩) (.inl rfl)⟩
    · obtain ⟨blocked, woken, notifying⟩ := counts_update (s.answers t .idle .threw) at_pc rfl
      exact .inr ⟨by simp [abandons, at_pc, PC.isWoken], ⟨rfl, blocked, woken, notifying⟩⟩
  | notify t u v notifying waiting =>
    obtain ⟨blocked, woken, notices⟩ := notify_counts notifying waiting
    exact .inl ⟨rfl, .wake rfl blocked woken notices⟩
  | notifyNobody t notifying nobody =>
    obtain ⟨blocked, woken, notices⟩ := counts_update (s.moves t .idle) notifying rfl
    exact .inl ⟨rfl, .waste rfl nobody (blocked.trans nobody) woken notices⟩
  | spurious t v waiting =>
    obtain ⟨blocked, woken, notifying⟩ := counts_update (s.moves t (.woken v)) waiting rfl
    exact .inl ⟨rfl, .spurious rfl blocked woken notifying⟩

theorem Move.covered {l : Label T α} (move : Move s l s') (inv : Inv n s)
    (kept : throwless l = true) (covered : Covered s.tally) : Covered s'.tally := by
  rcases move.tally inv with ⟨_, counts⟩ | ⟨abandoned, _⟩
  · exact counts.covered covered
  · rw [throwless_keeps s kept] at abandoned
    cases abandoned

end Counts

section Runs

variable [DecidableEq T] [Fintype T] {env : Environment} {n : Nat} {s : State T α}

theorem Inv.notify_step (inv : Inv n s) (env : Environment) {t u : T} {v : α}
    (notifying : s.thread t = .notifying) (waiting : s.thread u = .waiting v) :
    step env s (.notify t (some u)) = some ((s.moves u (.woken v)).moves t .idle) := by
  simp only [step, inv.sound, Option.isSome_none, Bool.false_eq_true, if_false, notifying,
    notifyStep, waiting]

theorem Inv.woken_step (inv : Inv n s) (env : Environment) {t : T} {v : α}
    (at_pc : s.thread t = .woken v) (room : s.free ≠ 0) :
    ∃ s', step env s (.lock t false) = some s' ∧ nonemptyPop s (.lock t false) = true ∧
      s'.free + 1 = s.free ∧ s'.blocked = s.blocked ∧ s'.woken + 1 = s.woken ∧
      s'.notifying = s.notifying := by
  have not_full : s.buffer.isFull = false :=
    Bool.eq_false_iff.mpr fun full => room (inv.full_free.mp full)
  obtain ⟨b, built, _⟩ := inv.holds.pushBack_eq not_full v
  have pending : (s.thread t).pending = some (.emplace v) := by rw [at_pc]; rfl
  have taken : step env s (.lock t false) = some (pushes s t v .done) := by
    simp [step, inv.sound, pending, criticalSection, not_full]
  have contract : nonemptyPop s (.lock t false) = true := by simp only [nonemptyPop, pending]
  have inv' := step_inv inv contract taken
  have result : pushes s t v .done =
      { s.answers t .idle .done with buffer := b, pushed := s.pushed ++ [(t, v)] } := by
    simp only [pushes, built]
  rw [result] at taken inv'
  obtain ⟨blocked, woken, notifying⟩ := counts_update (s.answers t .idle .done) at_pc rfl
  exact ⟨_, taken, contract, inv.push_free inv' rfl rfl, blocked, woken, notifying⟩

/-- From counts that are not served, the notices owed and the producers woken run out and
leave a producer asleep beside a free slot. -/
theorem Inv.unserved_stuck (inv : Inv n s) (unserved : ¬ Served s.tally) :
    ∃ ks u, Run (step env) (fun s l => nonemptyPop s l = true ∧ throwless l = true) s ks u ∧
      Stuck u.tally := by
  obtain ⟨behind, uncovered⟩ := not_or.mp unserved
  clear unserved
  simp only [State.tally, Nat.not_le] at behind uncovered
  -- each notice wakes a producer and each woken producer fills a slot: both excesses stay
  induction left : due s.tally using Nat.strong_induction_on generalizing s with
  | _ k ih =>
    subst left
    by_cases owed : 0 < s.notifying
    · obtain ⟨t, notifying⟩ := exists_notifying owed
      obtain ⟨u, v, waiting⟩ := exists_waiting (Nat.zero_lt_of_lt behind)
      obtain ⟨blocked, woken, notices⟩ := notify_counts notifying waiting
      have taken := inv.notify_step env notifying waiting
      have free : ((s.moves u (.woken v)).moves t .idle).free = s.free := rfl
      obtain ⟨ks, w, run, stuck⟩ := ih _ (by simp only [due, State.tally]; omega)
        (step_inv inv rfl taken) (by omega) (by omega) rfl
      exact ⟨_, w, (run_cons _ _ _ _).mpr ⟨⟨rfl, rfl⟩, _, taken, run⟩, stuck⟩
    · by_cases back : 0 < s.woken
      · obtain ⟨t, v, at_pc⟩ := exists_woken back
        obtain ⟨s', taken, contract, free, blocked, woken, notices⟩ :=
          inv.woken_step env at_pc (by omega)
        obtain ⟨ks, w, run, stuck⟩ := ih _ (by simp only [due, State.tally]; omega)
          (step_inv inv contract taken) (by omega) (by omega) rfl
        exact ⟨_, w, (run_cons _ _ _ _).mpr ⟨⟨contract, rfl⟩, _, taken, run⟩, stuck⟩
      · refine ⟨[], s, (run_nil s s).mpr rfl, ?_⟩
        constructor <;> simp only [State.tally] <;> omega

theorem Affordable.served {s' : State T α} {l : Label T α} (affordable : Affordable s l)
    (move : Move s l s') (inv : Inv n s) (served : Served s.tally) : Served s'.tally := by
  rcases move.tally inv with ⟨_, counts⟩ | ⟨abandoned, given_up⟩
  · exact counts.served served
  · exact given_up.served_iff.mpr (affordable abandoned)

theorem Move.unserved {s' : State T α} {l : Label T α} (move : Move s l s') (inv : Inv n s)
    (wasteful : ¬ Affordable s l) : ¬ Served s'.tally := by
  intro served
  rcases move.tally inv with ⟨kept, _⟩ | ⟨_, given_up⟩
  · refine wasteful fun abandoned => ?_
    rw [kept] at abandoned
    cases abandoned
  · exact wasteful fun _ => given_up.served_iff.mp served

end Runs

/-- Without exceptions no wake-up is lost: a producer stays blocked beside free slots only
while as many woken producers and notices are on their way. -/
theorem mutex_wakeups_cover [DecidableEq T] [Fintype T] (env : Environment) (n : Nat)
    (small : n < sizeModulus) (b : MutexBuffer α) (made : MutexBuffer.construct α env n = .ok b)
    (ls : List (Label T α)) (s : State T α)
    (run : Run (step env) (fun s l => nonemptyPop s l = true ∧ throwless l = true)
      (start T b) ls s) :
    (0 < s.blocked → s.buffer.capacity_ - s.buffer.count_ ≤ s.woken + s.notifying) ∧
      ¬ Stuck s.tally := by
  obtain ⟨pos, rfl⟩ := MutexBuffer.construct_ok made
  have ⟨_, covered⟩ := run.invariant (fun s => Inv n s ∧ Covered s.tally)
    (fun s l s' ⟨inv, covered⟩ ⟨contract, kept⟩ h =>
      have move := step_move inv contract h
      ⟨move.inv inv, move.covered inv kept covered⟩)
    ⟨inv_start (MutexBuffer.holds_empty pos small), fun blocked => by
      simp [State.tally, blocked_start] at blocked⟩
  exact ⟨covered, covered.not_stuck⟩

/-- Three threads on one slot. Producers 1 and 2 block behind the element of thread 0, which
pops it and wakes producer 1. -/
def wakeOne : List (Label (Fin 3) Nat) :=
  [.call 0 (.emplace 7), .lock 0 false, .call 1 (.emplace 8), .lock 1 false,
    .call 2 (.emplace 9), .lock 2 false, .call 0 .tryPop, .lock 0 false, .notify 0 (some 1)]

theorem mutex_wakeups_cover_at_one : ∃ s : State (Fin 3) Nat, 0 < s.blocked ∧
    s.buffer.capacity_ - s.buffer.count_ ≤ s.woken + s.notifying ∧ ¬ Stuck s.tally :=
  have ⟨covers, runs⟩ := mutex_wakeups_cover .desktop 1 (by decide) _ rfl wakeOne _
    (Run.of_exec (by decide) (by decide))
  ⟨_, by decide, covers (by decide), runs⟩

/-- With exceptions, no producer is left asleep beside a free slot as long as every woken
`emplace` that throws can afford it; once one that cannot has thrown, threads that only
finish what they have begun leave a producer so. -/
theorem mutex_wakeups_kept_iff [DecidableEq T] [Fintype T] (env : Environment) (n : Nat)
    (small : n < sizeModulus) (b : MutexBuffer α) (made : MutexBuffer.construct α env n = .ok b)
    (ls : List (Label T α)) (s : State T α)
    (run : Run (step env) (fun s l => nonemptyPop s l = true ∧ Affordable s l) (start T b) ls s) :
    ¬ Stuck s.tally ∧
      ∀ l s', nonemptyPop s l = true → step env s l = some s' → ¬ Affordable s l →
        ∃ ks u, Run (step env) (fun s l => nonemptyPop s l = true ∧ throwless l = true) s' ks u ∧
          Stuck u.tally := by
  obtain ⟨pos, rfl⟩ := MutexBuffer.construct_ok made
  have ⟨inv, served⟩ := run.invariant (fun s => Inv n s ∧ Served s.tally)
    (fun s l s' ⟨inv, served⟩ ⟨contract, affordable⟩ h =>
      have move := step_move inv contract h
      ⟨move.inv inv, affordable.served move inv served⟩)
    ⟨inv_start (MutexBuffer.holds_empty pos small), .inl (by simp [State.tally, blocked_start])⟩
  refine ⟨served.not_stuck, ?_⟩
  intro l s' contract h wasteful
  have move := step_move inv contract h
  exact (move.inv inv).unserved_stuck (move.unserved inv wasteful)

/-- Producer 1 throws on the slot it was woken for, and producer 2 sleeps on. -/
theorem mutex_wakeup_swallowed : ¬ ∀ s : State (Fin 3) Nat,
    Run (step .desktop) (fun s l => nonemptyPop s l = true)
      (start (Fin 3) (MutexBuffer.empty Nat 1)) (wakeOne ++ [.lock 1 true]) s →
      ¬ Stuck s.tally := by
  intro kept
  apply kept _ (Run.of_exec (by decide) (by decide))
  exact ⟨by decide, by decide, by decide, by decide⟩

theorem mutex_wakeups_kept_iff_at_one : ∃ s s' u : State (Fin 3) Nat, ¬ Stuck s.tally ∧
    step .desktop s (.lock 1 true) = some s' ∧ Stuck u.tally :=
  have ⟨kept, lost⟩ := mutex_wakeups_kept_iff .desktop 1 (by decide) _ rfl wakeOne _
    (Run.of_exec (by decide) (by decide))
  have ⟨_, u, _, stuck⟩ := lost (.lock 1 true) _ (by decide) rfl (by decide)
  ⟨_, _, u, kept, rfl, stuck⟩

end RingBuffers.Mutex
