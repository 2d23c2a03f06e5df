import RingBuffers.Library.BoundedQueue
import RingBuffers.Mutex.Machine

/-! `MutexBuffer` is a bounded first-in first-out queue for any number of producers and
consumers: every critical section is one event of the queue, and a blocked `emplace` that
comes back finds whatever the others have made of it. -/
namespace RingBuffers.Mutex
open BoundedQueue Transition

variable {T α : Type}

def oldest (b : MutexBuffer α) : Option α := b.front.bind b.slots

def sectionEvent (b : MutexBuffer α) : Op α → Event α
  | .emplace v => if b.isFull then .silent else .push v
  | .tryEmplace v => if b.isFull then .full else .push v
  | .tryPop | .pop => match oldest b with
    | some v => .pop v
    | none => .empty
  | .front => match oldest b with
    | some v => .peek v
    | none => .empty
  | .close | .closed => .silent

def event (s : State T α) : Label T α → Event α
  | .lock t false => match (s.thread t).pending with
    | some op => sectionEvent s.buffer op
    | none => .silent
  | _ => .silent

def itemsOf [DecidableEq T] (t : T) (xs : List (T × α)) : List α :=
  (xs.filter fun x => x.1 = t).map Prod.snd

/-- The values popped that thread `t` pushed: the `k`-th pop delivers the `k`-th push. -/
def deliveredFrom [DecidableEq T] (t : T) (pushed popped : List (T × α)) : List α :=
  ((pushed.zip popped).filter fun x => x.1.1 = t).map fun x => x.2.2

/-- What one critical section of thread `t` answers, by the queue it finds: `emplace` blocks
and `try_emplace` answers false exactly on `n` stored elements, `try_pop` answers nullopt
exactly on none and otherwise with the oldest, and every answer says what was done. -/
def Answered [DecidableEq T] (n : Nat) (s : State T α) (t : T) (s' : State T α) : Op α → Prop
  | .emplace v =>
    if s.buffer.stored.length = n then s'.thread t = .waiting v ∧ s'.pushed = s.pushed
    else s'.result t = some .done ∧ s'.pushed = s.pushed ++ [(t, v)]
  | .tryEmplace v =>
    if s.buffer.stored.length = n then
      s'.result t = some (.pushed false) ∧ s'.pushed = s.pushed
    else s'.result t = some (.pushed true) ∧ s'.pushed = s.pushed ++ [(t, v)]
  | .tryPop => match s.buffer.stored with
    | [] => s'.result t = some (.popped none) ∧ s'.popped = s.popped
    | v :: _ => s'.result t = some (.popped (some v)) ∧ s'.popped = s.popped ++ [(t, v)]
  | .pop => match s.buffer.stored with
    | [] => False
    | v :: _ => s'.result t = some .done ∧ s'.popped = s.popped ++ [(t, v)]
  | .front => match s.buffer.stored with
    | [] => s'.result t = some (.front none)
    | v :: _ => ∃ i, s'.result t = some (.front (some i)) ∧ s.buffer.slots i = some v
  | .close => s'.buffer.closed_ = true
  | .closed => s'.result t = some (.closed s.buffer.closed_)

section Contents

variable {n : Nat} {s s' : State T α}

theorem Inv.stored_eq (inv : Inv n s) :
    s.buffer.stored = (s.pushed.map Prod.snd).drop s.popped.length :=
  inv.holds.stored_eq

theorem Inv.stored_length (inv : Inv n s) : s.buffer.stored.length = s.buffer.count_ :=
  inv.holds.stored_length

theorem Inv.stored_nil_iff (inv : Inv n s) : s.buffer.stored = [] ↔ s.buffer.count_ = 0 := by
  rw [← inv.stored_length, List.eq_nil_iff_length_eq_zero]

theorem Inv.full_iff (inv : Inv n s) : s.buffer.isFull = true ↔ s.buffer.stored.length = n := by
  rw [inv.stored_length, MutexBuffer.isFull, beq_iff_eq, inv.holds.capacity]

theorem Inv.oldest_eq (inv : Inv n s) : oldest s.buffer = s.buffer.stored.head? := by
  by_cases empty : s.buffer.count_ = 0
  · rw [oldest, MutexBuffer.front, if_pos empty, inv.stored_nil_iff.mpr empty]
    rfl
  · obtain ⟨v, present, live⟩ := inv.holds.oldest (Nat.pos_of_ne_zero empty)
    rw [oldest, MutexBuffer.front, if_neg empty, Option.bind_some, live, inv.stored_eq,
      List.head?_drop, present]

theorem Inv.fifo (inv : Inv n s) :
    s.popped.map Prod.snd ++ s.buffer.stored = s.pushed.map Prod.snd := by
  rw [inv.stored_eq, inv.popped]
  exact List.take_append_drop _ _

theorem Inv.push_stored (inv : Inv n s) {t : T} {v : α} (inv' : Inv n s')
    (pushed : s'.pushed = s.pushed ++ [(t, v)]) (popped : s'.popped = s.popped) :
    s'.buffer.stored = s.buffer.stored ++ [v] := by
  rw [inv.stored_eq, inv'.stored_eq, pushed, popped, List.map_append,
    List.drop_append_of_le_length inv.holds.ordered]
  rfl

theorem Inv.pop_stored (inv : Inv n s) {t : T} {v : α} (inv' : Inv n s')
    (some_left : 0 < s.buffer.count_) (live : s.buffer.slots s.buffer.popCursor_ = some v)
    (pushed : s'.pushed = s.pushed) (popped : s'.popped = s.popped ++ [(t, v)]) :
    s.buffer.stored = v :: s'.buffer.stored := by
  obtain ⟨w, present, live'⟩ := inv.holds.oldest some_left
  have eq : w = v := Option.some.inj (live'.symm.trans live)
  obtain ⟨lt, at_head⟩ := List.getElem?_eq_some_iff.mp present
  rw [inv.stored_eq, inv'.stored_eq, pushed, popped, List.length_append, List.length_singleton,
    List.drop_eq_getElem_cons lt, at_head, eq]

theorem Inv.live_iff (inv : Inv n s) (i : Nat) : (s.buffer.slots i).isSome = true ↔
    ∃ k, k < s.buffer.count_ ∧ i = (s.buffer.popCursor_ + k) % s.buffer.capacity_ := by
  have count := inv.holds.count
  rw [inv.holds.capacity, Option.isSome_iff_exists]
  constructor
  · rintro ⟨v, at_i⟩
    obtain ⟨k, lt, same, _⟩ := (inv.holds.slots_iff i v).mp at_i
    exact ⟨k, lt, same⟩
  · rintro ⟨k, lt, same⟩
    have present := List.getElem?_eq_getElem (l := s.pushed.map Prod.snd)
      (i := s.popped.length + k) (by omega)
    exact ⟨_, (inv.holds.slots_iff i _).mpr ⟨k, lt, same, present⟩⟩

theorem Inv.perm_iff (inv : Inv n s) :
    (s.popped.map Prod.snd).Perm (s.pushed.map Prod.snd) ↔ s.buffer.stored = [] := by
  rw [← inv.fifo]
  constructor
  · intro perm
    have length := perm.length_eq
    rw [List.length_append] at length
    exact List.eq_nil_of_length_eq_zero (by omega)
  · intro empty
    rw [empty, List.append_nil]

theorem event_lock {t : T} {op : Op α} (pending : (s.thread t).pending = some op) :
    event s (.lock t false) = sectionEvent s.buffer op := by
  simp only [event, pending]

theorem deliveredFrom_prefix [DecidableEq T] (t : T) (pushed popped : List (T × α))
    (same : popped.map Prod.snd = (pushed.map Prod.snd).take popped.length) :
    deliveredFrom t pushed popped <+: itemsOf t pushed := by
  induction popped generalizing pushed with
  | nil =>
    rw [deliveredFrom, List.zip_nil_right]
    exact List.nil_prefix
  | cons x popped ih =>
    cases pushed with
    | nil => exact List.nil_prefix
    | cons y pushed =>
      simp only [List.map_cons, List.length_cons, List.take_succ_cons, List.cons.injEq] at same
      have rest := ih pushed same.2
      by_cases mine : y.1 = t
      · simp only [deliveredFrom, itemsOf, List.zip_cons_cons, List.filter_cons, mine,
          decide_true, if_true, List.map_cons, same.1]
        exact List.cons_prefix_cons.mpr ⟨rfl, rest⟩
      · simp only [deliveredFrom, itemsOf, List.zip_cons_cons, List.filter_cons, mine,
          decide_false, Bool.false_eq_true, if_false]
        exact rest

end Contents

section Queue

variable [DecidableEq T] [Fintype T] {n : Nat} {s s' : State T α}

theorem Move.takes {l : Label T α} (move : Move s l s') (inv : Inv n s) :
    Takes n s.buffer.stored (event s l) s'.buffer.stored := by
  have inv' := move.inv inv
  have full_iff := inv.full_iff
  have nil_iff := inv.stored_nil_iff
  have head := inv.oldest_eq
  cases move with
  | block t v pending full =>
    rw [event_lock pending, sectionEvent, if_pos full]
    exact .silent _
  | push t op v res b pending kind room built =>
    have grown := inv.push_stored inv' rfl rfl
    have bounded : s.buffer.stored.length < n := by
      have not_full : s.buffer.stored.length ≠ n := fun eq => by
        rw [full_iff.mpr eq] at room
        cases room
      have := inv.holds.bounded
      have := inv.holds.count
      have := inv.stored_length
      omega
    have act : event s (.lock t false) = .push v := by
      rw [event_lock pending]
      cases op <;> cases kind <;> simp [sectionEvent, room]
    rw [act, grown]
    exact .push v bounded
  | refuse t v pending full =>
    rw [event_lock pending, sectionEvent, if_pos full]
    exact .full (full_iff.mp full)
  | take t op v res b pending kind some_left live destroyed =>
    have shrunk := inv.pop_stored inv' some_left live rfl rfl
    have first : oldest s.buffer = some v := by rw [head, shrunk, List.head?_cons]
    have act : event s (.lock t false) = .pop v := by
      rw [event_lock pending]
      cases op <;> cases kind <;> simp [sectionEvent, first]
    rw [act, shrunk]
    exact .pop v _
  | miss t pending empty =>
    have nil := nil_iff.mpr empty
    have none_left : oldest s.buffer = none := by rw [head, nil, List.head?_nil]
    rw [event_lock pending, sectionEvent, none_left]
    change Takes n s.buffer.stored .empty s.buffer.stored
    rw [nil]
    exact .empty
  | front t pending =>
    rw [event_lock pending, sectionEvent, head]
    change Takes n s.buffer.stored _ s.buffer.stored
    cases stored : s.buffer.stored with
    | nil => exact .empty
    | cons v rest => exact .peek v rest
  | close t pending | closed t pending =>
    rw [event_lock pending]
    exact .silent _
  | call | threw | notify | notifyNobody | spurious => exact .silent _

theorem Move.answered {t : T} {op : Op α} (move : Move s (.lock t false) s') (inv : Inv n s)
    (pending : (s.thread t).pending = some op) : Answered n s t s' op := by
  have inv' := move.inv inv
  have full_iff := inv.full_iff
  have nil_iff := inv.stored_nil_iff
  have head := inv.oldest_eq
  cases move with
  | block _ v now full | refuse _ v now full =>
    cases Option.some.inj (now.symm.trans pending)
    simp only [Answered, if_pos (full_iff.mp full), State.moves, State.answers,
      Function.update_self, and_self]
  | push _ _ v res b now kind room =>
    cases Option.some.inj (now.symm.trans pending)
    have not_full : ¬ s.buffer.stored.length = n := by
      rw [← full_iff, room]
      exact Bool.false_ne_true
    cases op <;> cases kind <;>
      simp only [Answered, if_neg not_full, State.answers, Function.update_self, and_self]
  | take _ _ v res b now kind some_left live destroyed =>
    cases Option.some.inj (now.symm.trans pending)
    have shrunk := inv.pop_stored inv' some_left live rfl rfl
    cases op <;> cases kind <;>
      simp only [Answered, shrunk, State.answers, Function.update_self, and_self]
  | miss _ now empty =>
    cases Option.some.inj (now.symm.trans pending)
    simp only [Answered, nil_iff.mpr empty, State.answers, Function.update_self, and_self]
  | front _ now =>
    cases Option.some.inj (now.symm.trans pending)
    simp only [Answered, State.answers, Function.update_self]
    cases stored : s.buffer.stored with
    | nil => simp [MutexBuffer.front, nil_iff.mp stored]
    | cons v rest =>
      have first : oldest s.buffer = some v := by rw [head, stored, List.head?_cons]
      obtain ⟨i, at_front, live⟩ := Option.bind_eq_some_iff.mp first
      exact ⟨i, by rw [at_front], live⟩
  | close _ now =>
    cases Option.some.inj (now.symm.trans pending)
    rfl
  | closed _ now =>
    cases Option.some.inj (now.symm.trans pending)
    simp only [Answered, State.answers, Function.update_self]

theorem Move.pushes {l : Label T α} (move : Move s l s') :
    s'.pushed.map Prod.snd = s.pushed.map Prod.snd ++ (event s l).pushed := by
  cases move with
  | push t op v res b pending kind room =>
    have act : event s (.lock t false) = .push v := by
      rw [event_lock pending]
      cases op <;> cases kind <;> simp [sectionEvent, room]
    simp [act, Event.pushed]
  | block t v pending full =>
    simp [event_lock pending, sectionEvent, full, Event.pushed, State.moves]
  | refuse t v pending full =>
    simp [event_lock pending, sectionEvent, full, Event.pushed, State.answers]
  | take t op v res b pending kind =>
    have act : (event s (.lock t false)).pushed = [] := by
      rw [event_lock pending]
      cases op <;> cases kind <;> (simp only [sectionEvent]; split <;> rfl)
    simp [act, State.answers]
  | miss t pending | front t pending =>
    have act : (event s (.lock t false)).pushed = [] := by
      rw [event_lock pending]
      simp only [sectionEvent]
      split <;> rfl
    simp [act, State.answers]
  | close t pending | closed t pending =>
    simp [event_lock pending, sectionEvent, Event.pushed, State.answers]
  | call | threw | notify | notifyNobody | spurious =>
    simp [event, Event.pushed, State.answers, State.moves]

end Queue

/-- What holds of a run `ls` from the constructed buffer to `s`: the three members agree, the
live slots are the `count_` slots from `popCursor_` onward, the critical sections are a path
of the bounded queue and answer as it does, and what was popped and then what is stored is
what was pushed, also for each producer. -/
structure Linearizes [DecidableEq T] [Fintype T] (env : Environment) (n : Nat)
    (b : MutexBuffer α) (ls : List (Label T α)) (s : State T α) : Prop where
  count : s.buffer.count_ ≤ s.buffer.capacity_
  capacity : s.buffer.capacity_ = n
  cursors : s.buffer.pushCursor_ =
    (s.buffer.popCursor_ + s.buffer.count_) % s.buffer.capacity_
  live : ∀ i, (s.buffer.slots i).isSome = true ↔
    ∃ k, k < s.buffer.count_ ∧ i = (s.buffer.popCursor_ + k) % s.buffer.capacity_
  path : Path (Takes n) [] (trace (step env) event (start T b) ls) s.buffer.stored
  answers : Along (step env) (fun u l => ∀ t op u', l = .lock t false →
    (u.thread t).pending = some op → step env u l = some u' → Answered n u t u' op)
    (start T b) ls
  pushes : s.pushed.map Prod.snd = (trace (step env) event (start T b) ls).flatMap Event.pushed
  pops : s.popped.map Prod.snd = (trace (step env) event (start T b) ls).flatMap Event.popped
  fifo : s.popped.map Prod.snd ++ s.buffer.stored = s.pushed.map Prod.snd
  producers : ∀ t, deliveredFrom t s.pushed s.popped <+: itemsOf t s.pushed
  sound : s.fault = none

section Runs

variable [DecidableEq T] [Fintype T] {env : Environment} {n : Nat} {s : State T α}

theorem linearizes {b : MutexBuffer α} (holds : b.Holds n [] 0) {ls : List (Label T α)}
    (run : Run (step env) (fun s l => nonemptyPop s l = true) (start T b) ls s) :
    Linearizes env n b ls s := by
  have preserved : ∀ (s : State T α) l s', Inv n s → nonemptyPop s l = true →
      step env s l = some s' → Inv n s' := fun _ _ _ inv contract h => step_inv inv contract h
  have initial : Inv n (start T b) := inv_start holds
  have inv := run.invariant (Inv n) preserved initial
  have nothing : (start T b).buffer.stored = [] := initial.stored_eq
  have count := inv.holds.count
  have bounded := inv.holds.bounded
  have capacity := inv.holds.capacity
  have path : Path (Takes n) (start T b).buffer.stored
      (trace (step env) event (start T b) ls) s.buffer.stored :=
    run.simulates (Takes n) (fun s => s.buffer.stored) event (Inv n) preserved
      (fun _ _ _ inv contract h => (step_move inv contract h).takes inv) initial
  have pushes : s.pushed.map Prod.snd =
      (trace (step env) event (start T b) ls).flatMap Event.pushed :=
    run.records event (fun s => s.pushed.map Prod.snd) Event.pushed (Inv n) preserved
      (fun _ _ _ inv contract h => (step_move inv contract h).pushes) initial
  rw [nothing] at path
  have conserved := path_conserves path
  rw [List.nil_append, ← pushes, ← inv.fifo] at conserved
  exact {
    count := by omega
    capacity := capacity
    cursors := by
      rw [capacity]
      exact inv.holds.pushCursor_eq
    live := inv.live_iff
    path := path
    answers := run.along (Inv n) _ preserved
      (fun _ _ _ inv contract _ t op u' same pending h' => by
        subst same
        exact (step_move inv contract h').answered inv pending) initial
    pushes := pushes
    pops := List.append_cancel_right conserved
    fifo := inv.fifo
    producers := fun t => deliveredFrom_prefix t _ _ inv.popped
    sound := inv.sound }

end Runs

/-- `MutexBuffer(n)` is linearizable for any threads and any interleaving of their critical
sections, with spurious wake-ups and with exceptions of the element type. -/
theorem mutex_linearizable [DecidableEq T] [Fintype T] (env : Environment) (n : Nat)
    (small : n < sizeModulus) (b : MutexBuffer α) (made : MutexBuffer.construct α env n = .ok b)
    (ls : List (Label T α)) (s : State T α)
    (run : Run (step env) (fun s l => nonemptyPop s l = true) (start T b) ls s) :
    Linearizes env n b ls s := by
  obtain ⟨pos, rfl⟩ := MutexBuffer.construct_ok made
  exact linearizes (MutexBuffer.holds_empty pos small) run

/-- A producer blocks on a full buffer, wakes for no reason, blocks again, and gets through
once the element before its own is popped. -/
def blockedPush : List (Label (Fin 2) Nat) :=
  [.call 0 (.emplace 7), .lock 0 false, .call 1 (.emplace 8), .lock 1 false, .spurious 1,
    .lock 1 false, .call 0 .tryPop, .lock 0 false, .notify 0 (some 1), .lock 1 false]

theorem mutex_linearizable_at_one : ∃ s : State (Fin 2) Nat,
    Linearizes .desktop 1 (MutexBuffer.empty Nat 1) blockedPush s ∧ s.popped = [(0, 7)] :=
  ⟨_, mutex_linearizable .desktop 1 (by decide) _ rfl blockedPush _
    (Run.of_exec (by decide) (by decide)), by decide⟩

end RingBuffers.Mutex
