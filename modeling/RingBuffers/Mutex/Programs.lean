import RingBuffers.Library.Fairness
import RingBuffers.Mutex.Shutdown
import RingBuffers.Mutex.Wakeups

/-! The programs of the stress test with many threads, what holds at every instant of a transfer,
and when a thread can take a step of its own. -/
namespace RingBuffers.Mutex
open Census Departure Fairness Transition Wakeup

variable {T α : Type}

/-- The steps thread `t` takes by itself. A spurious wake-up is not one of them. -/
def Label.runs (t : T) : Label T α → Prop
  | .call u _ | .lock u _ | .notify u _ => u = t
  | .spurious _ => False

/-- Nobody calls `close()` on a closed buffer. -/
def closesOnce (s : State T α) : Label T α → Bool
  | .call _ .close => !s.buffer.closed_
  | _ => true

theorem awake_of_pending {s : State T α} {t : T} {op : Op α}
    (pending : (s.thread t).pending = some op) : (s.thread t).isWaiting = false := by
  rcases pending_cases pending with at_pc | ⟨v, _, at_pc⟩ <;> rw [at_pc] <;> rfl

theorem prefix_next {xs items : List α} {v : α} (before : xs <+: items)
    (next : items[xs.length]? = some v) : xs ++ [v] <+: items := by
  have longer : items.take (xs.length + 1) = xs ++ [v] := by
    rw [List.take_add_one, next, ← List.prefix_iff_eq_take.mp before]
    rfl
  rw [← longer]
  exact List.take_prefix _ _

section Programs

variable [DecidableEq T]

structure Program (roles : T → Role α) (s : State T α) (l : Label T α) : Prop where
  follows : Follows roles s l
  once : closesOnce s l = true

instance decidableProgram [Fintype T] [DecidableEq α] (roles : T → Role α) (s : State T α)
    (l : Label T α) : Decidable (Program roles s l) :=
  decidable_of_iff (Follows roles s l ∧ closesOnce s l = true)
    ⟨fun h => ⟨h.1, h.2⟩, fun h => ⟨h.follows, h.once⟩⟩

/-- All is pushed, the buffer is closed, and every consumer has seen that and left. -/
structure Ended (roles : T → Role α) (s : State T α) : Prop where
  finished : Finished roles s
  closed : s.buffer.closed_ = true
  left : ∀ t, roles t = .consumer → phase s t = .left

structure Joined (roles : T → Role α) (s : State T α) : Prop extends Ended roles s where
  idle : ∀ t, s.thread t = .idle

structure Transferring [Fintype T] (n : Nat) (roles : T → Role α) (s : State T α) : Prop extends
    Underway n roles s where
  covered : Covered s.tally
  prefixes : ∀ t, itemsOf t s.pushed <+: (roles t).items

end Programs

section Steps

variable [DecidableEq T] [Fintype T] {env : Environment} {n : Nat} {roles : T → Role α}
  {s s' : State T α} {t : T} {l : Label T α}

omit [Fintype T] in
theorem Follows.throwless (follows : Follows roles s l) : throwless l = true := by
  cases l with
  | lock t throws =>
    cases throws with
    | false => rfl
    | true => cases follows
  | _ => rfl

omit [Fintype T] in
theorem Staged.next (staged : Staged roles s) {op : Op α} {v : α} {res : Result α}
    (pending : (s.thread t).pending = some op) (kind : op.pushes = some (v, res)) :
    (roles t).items[(itemsOf t s.pushed).length]? = some v := by
  have plays := staged.plays t op (PC.call_of_pending pending)
  cases plays with
  | push items w role next =>
    cases kind
    rw [role]
    exact next
  | _ => cases kind

theorem Move.prefixes (move : Move s l s') {items : T → List α}
    (nexts : ∀ t op v res, (s.thread t).pending = some op → op.pushes = some (v, res) →
      (items t)[(itemsOf t s.pushed).length]? = some v)
    (prefixes : ∀ t, itemsOf t s.pushed <+: items t) (t : T) :
    itemsOf t s'.pushed <+: items t := by
  cases move with
  | push u op v res b pending kind room built =>
    have next := nexts u op v res pending kind
    change itemsOf t (s.pushed ++ [(u, v)]) <+: _
    rw [itemsOf_push]
    split
    · rename_i mine
      subst mine
      exact prefix_next (prefixes u) next
    · exact prefixes t
  | _ => exact prefixes t

theorem transferring_start {b : MutexBuffer α} (holds : b.Holds n [] 0)
    (open_ : b.closed_ = false) : Transferring n roles (start T b) where
  toUnderway := underway_start holds open_
  covered blocked := by simp [State.tally, blocked_start] at blocked
  prefixes _ := List.nil_prefix

theorem Transferring.step (now : Transferring n roles s) (program : Program roles s l)
    (h : Mutex.step env s l = some s') : Transferring n roles s' := by
  have move := now.move program.follows h
  exact ⟨now.toUnderway.step program.follows h,
    move.covered now.inv program.follows.throwless now.covered,
    move.prefixes (fun _ _ _ _ => now.staged.next) now.prefixes⟩

theorem Move.keeps (move : Move s l s') (theirs : ¬ l.runs t)
    (awake : (s.thread t).isWaiting = false) :
    s'.thread t = s.thread t ∧ s'.result t = s.result t := by
  have others : ∀ {u : T}, u ≠ t → ∀ (pc : PC α) (res : Option (Result α)),
      Function.update s.thread u pc t = s.thread t ∧
        Function.update s.result u res t = s.result t := fun ne pc res =>
    ⟨Function.update_of_ne ne.symm _ _, Function.update_of_ne ne.symm _ _⟩
  have sleeps : ∀ {u : T} {v : α}, s.thread u = .waiting v → u ≠ t := by
    rintro u v waiting rfl
    rw [waiting] at awake
    cases awake
  cases move with
  | call u | push u | refuse u | take u | miss u | front u | close u | closed u | threw u =>
    exact others theirs _ _
  | block u | notifyNobody u => exact ⟨(others theirs _ none).1, rfl⟩
  | notify u w v notifying waiting =>
    refine ⟨?_, rfl⟩
    exact (Function.update_of_ne (Ne.symm theirs) _ _).trans (others (sleeps waiting) _ none).1
  | spurious u v waiting => exact ⟨(others (sleeps waiting) _ none).1, rfl⟩

theorem Transferring.enabled_call (now : Transferring n roles s) {op : Op α}
    (idle : s.thread t = .idle) (program : Program roles s (.call t op)) :
    Enabled (Mutex.step env) (Program roles) (Label.runs t) s := by
  have possible : (Mutex.step env s (.call t op)).isSome = true := by
    simp [Mutex.step, now.inv.sound, idle]
  obtain ⟨s', moved⟩ := Option.isSome_iff_exists.mp possible
  exact ⟨.call t op, s', rfl, program, moved⟩

theorem Transferring.enabled_busy (now : Transferring n roles s) (busy : s.thread t ≠ .idle)
    (awake : (s.thread t).isWaiting = false) :
    Enabled (Mutex.step env) (Program roles) (Label.runs t) s := by
  have locks : ∀ {op}, (s.thread t).pending = some op →
      Enabled (Mutex.step env) (Program roles) (Label.runs t) s := by
    intro op pending
    refine ⟨.lock t false, criticalSection env s t op, rfl, ⟨rfl, rfl⟩, ?_⟩
    simp [Mutex.step, now.inv.sound, pending]
  cases at_pc : s.thread t with
  | idle => exact absurd at_pc busy
  | waiting v =>
    rw [at_pc] at awake
    cases awake
  | entering op | woken v => exact locks (by rw [at_pc]; rfl)
  | notifying =>
    by_cases nobody : s.blocked = 0
    · refine ⟨.notify t none, s.moves t .idle, rfl, ⟨trivial, rfl⟩, ?_⟩
      simp [Mutex.step, now.inv.sound, at_pc, notifyStep, nobody]
    · obtain ⟨u, v, waiting⟩ := exists_waiting (Nat.pos_of_ne_zero nobody)
      exact ⟨.notify t (some u), _, rfl, ⟨trivial, rfl⟩, now.inv.notify_step env at_pc waiting⟩

end Steps

end RingBuffers.Mutex
