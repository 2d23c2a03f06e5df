import RingBuffers.Mutex.Programs

/-! How far a thread is from its next critical section, from taking an element, from leaving and
from its return, and which of its steps bring it nearer. -/
namespace RingBuffers.Mutex
open Census Departure Transition

variable {T α : Type}

def PC.toSection : PC α → Nat
  | .notifying => 3
  | .idle => 2
  | .entering _ | .woken _ => 1
  | .waiting _ => 0

/-- The steps of a thread to its return, if it need not wait. -/
def PC.toReturn : PC α → Nat
  | .entering _ | .woken _ => 2
  | .notifying => 1
  | .idle | .waiting _ => 0

/-- The steps of a consumer until it takes an element, when there is one. -/
def State.toTake (s : State T α) (t : T) : Nat :=
  match s.thread t, s.result t with
  | .idle, some (.popped none) => 4
  | .entering .closed, _ | .notifying, _ => 3
  | .idle, _ => 2
  | .entering _, _ => 1
  | _, _ => 0

/-- The steps of a consumer until it leaves, when the buffer is empty and closed. -/
def State.toLeave (s : State T α) (t : T) : Nat :=
  match s.thread t, s.result t with
  | .notifying, _ => 6
  | .idle, some (.popped none) => 3
  | .idle, some (.closed true) => 0
  | .idle, _ => 5
  | .entering .closed, _ => 2
  | .entering _, _ => 4
  | _, _ => 0

section Ranks

variable [DecidableEq T] [Fintype T] {env : Environment} {n : Nat} {roles : T → Role α}
  {s s' : State T α} {t : T} {l : Label T α}

theorem Move.lowers_toSection (move : Move s l s') (mine : l.runs t)
    (between : l ≠ .lock t false) (follows : Follows roles s l) :
    (s'.thread t).toSection < (s.thread t).toSection := by
  cases move with
  | call u op idle =>
    cases mine
    simp [idle, PC.toSection]
  | notify u w v notifying waiting =>
    cases mine
    simp [State.moves, notifying, PC.toSection]
  | notifyNobody u notifying =>
    cases mine
    simp [State.moves, notifying, PC.toSection]
  | spurious u v waiting => cases mine
  | threw u op pending reached => cases follows
  | _ =>
    cases mine
    exact absurd rfl between

theorem Move.lock_pushes (move : Move s (.lock t false) s') (staged : Staged roles s)
    {items : List α} (role : roles t = .producer items) (room : s.buffer.isFull = false) :
    s'.pushed.length = s.pushed.length + 1 := by
  have emplaces : ∀ {op}, (s.thread t).pending = some op → ∃ v, op = .emplace v := by
    intro op pending
    cases staged.plays t op (PC.call_of_pending pending) with
    | push items v => exact ⟨v, rfl⟩
    | tryPop other | closed other | close other =>
      rw [role] at other
      cases other
  cases move with
  | push u op v res b pending kind => simp
  | block u v pending full =>
    rw [room] at full
    cases full
  | take u op v res b pending kind =>
    obtain ⟨w, rfl⟩ := emplaces pending
    cases kind
  | refuse u v pending | miss u pending | front u pending | close u pending | closed u pending =>
    obtain ⟨w, eq⟩ := emplaces pending
    cases eq

theorem Move.lock_closes (move : Move s (.lock t false) s') (staged : Staged roles s)
    (role : roles t = .closer) : s'.buffer.closed_ = true := by
  have closing : ∀ {op}, (s.thread t).pending = some op → op = .close := by
    intro op pending
    cases staged.plays t op (PC.call_of_pending pending) with
    | close => rfl
    | push items v other | tryPop other | closed other =>
      rw [role] at other
      cases other
  cases move with
  | close u pending => rfl
  | push u op v res b pending kind | take u op v res b pending kind =>
    cases closing pending
    cases kind
  | block u v pending | refuse u v pending | miss u pending | front u pending
  | closed u pending => cases closing pending

theorem Move.notifies (move : Move s l s') (notifying : s.thread t = .notifying)
    (mine : l.runs t) : ∃ u, l = .notify t u := by
  have not_pending : ∀ {op}, (s.thread t).pending ≠ some op := by
    rw [notifying]
    exact nofun
  cases move with
  | call u op idle =>
    cases mine
    rw [notifying] at idle
    cases idle
  | notify u w =>
    cases mine
    exact ⟨_, rfl⟩
  | notifyNobody u =>
    cases mine
    exact ⟨_, rfl⟩
  | spurious u v waiting => cases mine
  | block u v pending | push u op v res b pending | refuse u v pending | take u op v res b pending
  | miss u pending | front u pending | close u pending | closed u pending | threw u op pending =>
    cases mine
    exact absurd pending not_pending

theorem Move.locks (move : Move s l s') {v : α} (woken : s.thread t = .woken v)
    (mine : l.runs t) (follows : Follows roles s l) : l = .lock t false := by
  cases move with
  | call u op idle =>
    cases mine
    rw [woken] at idle
    cases idle
  | notify u w v notifying | notifyNobody u notifying =>
    cases mine
    rw [woken] at notifying
    cases notifying
  | spurious u v waiting => cases mine
  | threw u op pending => cases follows
  | _ =>
    cases mine
    rfl

theorem Move.consumes (move : Move s l s') (staged : Staged roles s)
    (follows : Follows roles s l) (role : roles t = .consumer) (mine : l.runs t) :
    (∃ op, s.thread t = .idle ∧ consumerLoop (s.result t) = some op ∧
      s'.thread t = .entering op) ∨
    (s.thread t = .notifying ∧ s'.thread t = .idle ∧ s'.result t = s.result t) ∨
    (s.thread t = .entering .tryPop ∧ s'.popped.length = s.popped.length + 1) ∨
    (s.thread t = .entering .tryPop ∧ s.buffer.count_ = 0 ∧ s'.thread t = .idle ∧
      s'.result t = some (.popped none)) ∨
    (s.thread t = .entering .closed ∧ s'.thread t = .idle ∧
      s'.result t = some (.closed s.buffer.closed_)) := by
  have plays : ∀ {op}, (s.thread t).pending = some op →
      s.thread t = .entering op ∧ (op = .tryPop ∨ op = .closed) := by
    intro op pending
    refine ⟨staged.entering pending role, ?_⟩
    cases staged.plays t op (PC.call_of_pending pending) with
    | tryPop => exact .inl rfl
    | closed => exact .inr rfl
    | push items v other | close other =>
      rw [role] at other
      cases other
  cases move with
  | call u op idle =>
    cases mine
    simp only [Follows, role] at follows
    exact .inl ⟨op, idle, follows, Function.update_self _ _ _⟩
  | notify u w v notifying waiting =>
    cases mine
    exact .inr (.inl ⟨notifying, Function.update_self _ _ _, rfl⟩)
  | notifyNobody u notifying =>
    cases mine
    exact .inr (.inl ⟨notifying, Function.update_self _ _ _, rfl⟩)
  | take u op v res b pending kind =>
    cases mine
    obtain ⟨at_pc, rfl | rfl⟩ := plays pending
    · exact .inr (.inr (.inl ⟨at_pc, by simp⟩))
    · cases kind
  | miss u pending empty =>
    cases mine
    exact .inr (.inr (.inr (.inl ⟨(plays pending).1, empty, Function.update_self _ _ _,
      Function.update_self _ _ _⟩)))
  | closed u pending =>
    cases mine
    exact .inr (.inr (.inr (.inr ⟨(plays pending).1, Function.update_self _ _ _,
      Function.update_self _ _ _⟩)))
  | push u op v res b pending kind =>
    cases mine
    obtain ⟨_, rfl | rfl⟩ := plays pending <;> cases kind
  | block u v pending | refuse u v pending | front u pending | close u pending =>
    cases mine
    obtain ⟨_, eq | eq⟩ := plays pending <;> cases eq
  | threw u op pending reached => cases follows
  | spurious u v waiting => cases mine

theorem Move.lowers_toTake (move : Move s l s') (staged : Staged roles s)
    (follows : Follows roles s l) (role : roles t = .consumer) (mine : l.runs t)
    (some_left : 0 < s.buffer.count_) (popped : s'.popped.length = s.popped.length)
    (stays : phase s' t ≠ .left) : s'.toTake t < s.toTake t := by
  rcases move.consumes staged follows role mine with ⟨op, idle, loop, at_pc⟩ |
    ⟨notifying, idle, kept⟩ | ⟨_, longer⟩ | ⟨_, empty, _⟩ | ⟨entering, idle, result⟩
  · unfold consumerLoop at loop
    split at loop
    · rename_i missed
      cases loop
      simp [State.toTake, idle, missed, at_pc]
    · cases loop
    · cases loop
      simp [State.toTake, at_pc, idle]
  · obtain ⟨v, result⟩ := staged.took t notifying
    simp [State.toTake, notifying, idle, kept, result]
  · omega
  · omega
  · cases shut : s.buffer.closed_ with
    | true =>
      rw [shut] at result
      exact absurd (by simp only [phase, idle, result]) stays
    | false => simp [State.toTake, entering, idle, result, shut]

theorem Move.lowers_toLeave (move : Move s l s') (staged : Staged roles s)
    (follows : Follows roles s l) (role : roles t = .consumer) (mine : l.runs t)
    (popped : s'.popped.length = s.popped.length) (shut : s.buffer.closed_ = true) :
    s'.toLeave t < s.toLeave t := by
  rcases move.consumes staged follows role mine with ⟨op, idle, loop, at_pc⟩ |
    ⟨notifying, idle, kept⟩ | ⟨_, longer⟩ | ⟨entering, _, idle, result⟩ |
    ⟨entering, idle, result⟩
  · unfold consumerLoop at loop
    split at loop
    · rename_i missed
      cases loop
      simp [State.toLeave, idle, missed, at_pc]
    · cases loop
    · cases loop
      simp [State.toLeave, at_pc, idle]
  · obtain ⟨v, result⟩ := staged.took t notifying
    simp [State.toLeave, notifying, idle, kept, result]
  · omega
  · simp [State.toLeave, entering, idle, result]
  · simp [State.toLeave, entering, idle, result, shut]

theorem Move.grows (move : Move s l s') : s.pushed <+: s'.pushed ∧
    s.popped.length ≤ s'.popped.length ∧ (s.buffer.closed_ = true → s'.buffer.closed_ = true) := by
  cases move with
  | push t op v res b pending kind room built =>
    refine ⟨List.prefix_append _ _, Nat.le_refl _, fun closed => ?_⟩
    exact (MutexBuffer.pushBack_closed built).trans closed
  | take t op v res b pending kind some_left live destroyed =>
    refine ⟨List.prefix_rfl, by simp, fun closed => ?_⟩
    exact (MutexBuffer.popFront_closed destroyed).trans closed
  | close => exact ⟨List.prefix_rfl, Nat.le_refl _, fun _ => rfl⟩
  | _ => exact ⟨List.prefix_rfl, Nat.le_refl _, id⟩

theorem blocked_eq (s' : State T α) {pc : PC α}
    (thread : s'.thread = Function.update s.thread t pc)
    (before : (s.thread t).isWaiting = false) (after : pc.isWaiting = false) :
    s'.blocked = s.blocked := by
  have counts := (counts_update s' rfl thread).1
  rw [before, after] at counts
  exact counts

/-- While the buffer has room nobody goes to sleep, and every notice wakes a sleeper. -/
theorem Move.wakes (move : Move s l s') (room : s.buffer.isFull = false) :
    s'.blocked ≤ s.blocked ∧
      (∀ t u, l = .notify t u → 0 < s.blocked → s'.blocked < s.blocked) := by
  cases move with
  | call t op idle =>
    exact ⟨Nat.le_of_eq (blocked_eq _ rfl (by rw [idle]; rfl) rfl), nofun⟩
  | block t v pending full =>
    rw [room] at full
    cases full
  | push t op v res b pending | refuse t v pending | take t op v res b pending | miss t pending
  | front t pending | close t pending | closed t pending | threw t op pending =>
    exact ⟨Nat.le_of_eq (blocked_eq _ rfl (awake_of_pending pending) rfl), nofun⟩
  | notify t u v notifying waiting =>
    have fewer := (notify_counts notifying waiting).1
    exact ⟨by omega, fun _ _ _ _ => by omega⟩
  | notifyNobody t notifying nobody =>
    have same := blocked_eq (s.moves t .idle) rfl (by rw [notifying]; rfl) rfl
    exact ⟨Nat.le_of_eq same, fun _ _ _ some_sleep => by omega⟩
  | spurious t v waiting =>
    have fewer := (counts_update (s.moves t (.woken v)) waiting rfl).1
    exact ⟨(Nat.le_succ _).trans (Nat.le_of_eq fewer), nofun⟩

end Ranks

end RingBuffers.Mutex
