import RingBuffers.Library.Census
import RingBuffers.Library.Transition
import RingBuffers.Mutex.Buffer

/-! Any number of threads on one `MutexBuffer`. A critical section is one step; a blocked
`emplace` gives the mutex up in `cvFull_.wait` and comes back through another section, after
a notification or for no reason; `notify_one` is a step of its own after the unlock. -/
namespace RingBuffers.Mutex
open Census

inductive Op (α : Type) where
  | emplace (v : α)
  | tryEmplace (v : α)
  | front
  | tryPop
  | pop
  | close
  | closed
  deriving DecidableEq, Repr

/-- `waiting` is blocked in `cvFull_.wait`, `woken` has still to re-acquire the mutex, and
`notifying` has unlocked and not yet called `notify_one`. -/
inductive PC (α : Type) where
  | idle
  | entering (op : Op α)
  | waiting (v : α)
  | woken (v : α)
  | notifying

inductive Result (α : Type) where
  | done
  | pushed (b : Bool)
  | front (pointer : Option Nat)
  | popped (v : Option α)
  | closed (b : Bool)
  | threw
  deriving DecidableEq, Repr

/-- `result` is the answer of a thread's last call, known from its critical section on.
`pushed` and `popped` list the elements in the order of the critical sections, each with the
thread that pushed or popped it. -/
structure State (T α : Type) where
  buffer : MutexBuffer α
  thread : T → PC α
  result : T → Option (Result α)
  pushed : List (T × α)
  popped : List (T × α)
  fault : Option Fault

/-- A call, the next critical section of a thread (cut short by an exception of the element
type when `throws`), its notification with the thread it wakes, and a spurious wake-up. -/
inductive Label (T α : Type) where
  | call (t : T) (op : Op α)
  | lock (t : T) (throws : Bool)
  | notify (t : T) (target : Option T)
  | spurious (t : T)
  deriving DecidableEq, Repr

variable {T α : Type}

def PC.isWaiting : PC α → Bool
  | .waiting _ => true
  | _ => false

def PC.isWoken : PC α → Bool
  | .woken _ => true
  | _ => false

def PC.isNotifying : PC α → Bool
  | .notifying => true
  | _ => false

/-- The operation whose critical section the thread runs next; a woken `emplace` tests its
predicate again. -/
def PC.pending : PC α → Option (Op α)
  | .entering op => some op
  | .woken v => some (.emplace v)
  | _ => none

theorem pending_cases {s : State T α} {t : T} {op : Op α}
    (pending : (s.thread t).pending = some op) :
    s.thread t = .entering op ∨ ∃ v, op = .emplace v ∧ s.thread t = .woken v := by
  cases at_pc : s.thread t with
  | entering o =>
    rw [at_pc] at pending
    exact .inl (by rw [Option.some.inj pending])
  | woken v =>
    rw [at_pc] at pending
    exact .inr ⟨v, (Option.some.inj pending).symm, rfl⟩
  | idle | waiting | notifying =>
    rw [at_pc] at pending
    cases pending

def start (T : Type) (b : MutexBuffer α) : State T α where
  buffer := b
  thread _ := .idle
  result _ := none
  pushed := []
  popped := []
  fault := none

section Operations

variable [DecidableEq T]

def State.moves (s : State T α) (t : T) (pc : PC α) : State T α :=
  { s with thread := Function.update s.thread t pc }

def State.answers (s : State T α) (t : T) (pc : PC α) (res : Result α) : State T α :=
  { s with
    thread := Function.update s.thread t pc
    result := Function.update s.result t (some res) }

def pushes (s : State T α) (t : T) (v : α) (res : Result α) : State T α :=
  match s.buffer.pushBack v with
  | .error f => { s with fault := some f }
  | .ok b => { s.answers t .idle res with buffer := b, pushed := s.pushed ++ [(t, v)] }

/-- `try_pop` reads the element before it destroys it; `pop` only destroys it. -/
def pops (s : State T α) (t : T) (dead : Fault) (res : α → Result α) : State T α :=
  match s.buffer.slots s.buffer.popCursor_ with
  | none => { s with fault := some dead }
  | some v => match s.buffer.popFront with
    | .error f => { s with fault := some f }
    | .ok b => { s.answers t .notifying (res v) with buffer := b, popped := s.popped ++ [(t, v)] }

def criticalSection (env : Environment) (s : State T α) (t : T) : Op α → State T α
  -- the predicate of `cvFull_.wait` is tested before blocking and after every wake-up
  | .emplace v => if s.buffer.isFull then s.moves t (.waiting v) else pushes s t v .done
  | .tryEmplace v =>
    if s.buffer.isFull then s.answers t .idle (.pushed false) else pushes s t v (.pushed true)
  | .front => s.answers t .idle (.front s.buffer.front)
  | .tryPop =>
    if s.buffer.count_ = 0 then s.answers t .idle (.popped none)
    else pops s t .readOfDead (fun v => .popped (some v))
  | .pop =>
    if s.buffer.count_ = 0 ∧ env.ndebug = false then { s with fault := some .assertionFailed }
    else pops s t .destroyOfDead (fun _ => .done)
  | .close => { s.answers t .idle .done with buffer := { s.buffer with closed_ := true } }
  | .closed => s.answers t .idle (.closed s.buffer.closed_)

def constructs (b : MutexBuffer α) : Op α → Bool
  | .emplace _ | .tryEmplace _ => !b.isFull
  | .tryPop => b.count_ != 0
  | _ => false

variable [Fintype T]

/-- The number of threads blocked, woken but not yet back, and about to notify. -/
def State.blocked (s : State T α) : Nat := census PC.isWaiting s.thread
def State.woken (s : State T α) : Nat := census PC.isWoken s.thread
def State.notifying (s : State T α) : Nat := census PC.isNotifying s.thread
def State.free (s : State T α) : Nat := s.buffer.capacity_ - s.buffer.count_

def notifyStep (s : State T α) (t : T) : Option T → Option (State T α)
  | none => if s.blocked = 0 then some (s.moves t .idle) else none
  | some u => match s.thread u with
    | .waiting v => some ((s.moves u (.woken v)).moves t .idle)
    | _ => none

def step (env : Environment) (s : State T α) (l : Label T α) : Option (State T α) :=
  if s.fault.isSome then none else
  match l with
  | .call t op => match s.thread t with
    | .idle => some { s with
        thread := Function.update s.thread t (.entering op)
        result := Function.update s.result t none }
    | _ => none
  | .lock t throws => match (s.thread t).pending with
    | none => none
    | some op =>
      if throws then
        if constructs s.buffer op then some (s.answers t .idle .threw) else none
      else some (criticalSection env s t op)
  | .notify t target => match s.thread t with
    | .notifying => notifyStep s t target
    | _ => none
  | .spurious t => match s.thread t with
    | .waiting v => some (s.moves t (.woken v))
    | _ => none

def nonemptyPop (s : State T α) : Label T α → Bool
  | .lock t _ => match (s.thread t).pending with
    | some .pop => s.buffer.count_ != 0
    | _ => true
  | _ => true

def Op.pushes : Op α → Option (α × Result α)
  | .emplace v => some (v, .done)
  | .tryEmplace v => some (v, .pushed true)
  | _ => none

def Op.takes (v : α) : Op α → Option (Result α)
  | .tryPop => some (.popped (some v))
  | .pop => some .done
  | _ => none

/-- What a step can do when the buffer holds what it should. -/
inductive Move (s : State T α) : Label T α → State T α → Prop where
  | call (t : T) (op : Op α) : s.thread t = .idle →
      Move s (.call t op)
        { s with
          thread := Function.update s.thread t (.entering op)
          result := Function.update s.result t none }
  | block (t : T) (v : α) : (s.thread t).pending = some (.emplace v) →
      s.buffer.isFull = true → Move s (.lock t false) (s.moves t (.waiting v))
  | push (t : T) (op : Op α) (v : α) (res : Result α) (b : MutexBuffer α) :
      (s.thread t).pending = some op → op.pushes = some (v, res) → s.buffer.isFull = false →
      s.buffer.pushBack v = .ok b →
      Move s (.lock t false)
        { s.answers t .idle res with buffer := b, pushed := s.pushed ++ [(t, v)] }
  | refuse (t : T) (v : α) : (s.thread t).pending = some (.tryEmplace v) →
      s.buffer.isFull = true → Move s (.lock t false) (s.answers t .idle (.pushed false))
  | take (t : T) (op : Op α) (v : α) (res : Result α) (b : MutexBuffer α) :
      (s.thread t).pending = some op → op.takes v = some res → 0 < s.buffer.count_ →
      s.buffer.slots s.buffer.popCursor_ = some v → s.buffer.popFront = .ok b →
      Move s (.lock t false)
        { s.answers t .notifying res with buffer := b, popped := s.popped ++ [(t, v)] }
  | miss (t : T) : (s.thread t).pending = some .tryPop → s.buffer.count_ = 0 →
      Move s (.lock t false) (s.answers t .idle (.popped none))
  | front (t : T) : (s.thread t).pending = some .front →
      Move s (.lock t false) (s.answers t .idle (.front s.buffer.front))
  | close (t : T) : (s.thread t).pending = some .close →
      Move s (.lock t false)
        { s.answers t .idle .done with buffer := { s.buffer with closed_ := true } }
  | closed (t : T) : (s.thread t).pending = some .closed →
      Move s (.lock t false) (s.answers t .idle (.closed s.buffer.closed_))
  | threw (t : T) (op : Op α) : (s.thread t).pending = some op →
      constructs s.buffer op = true → Move s (.lock t true) (s.answers t .idle .threw)
  | notify (t u : T) (v : α) : s.thread t = .notifying → s.thread u = .waiting v →
      Move s (.notify t (some u)) ((s.moves u (.woken v)).moves t .idle)
  | notifyNobody (t : T) : s.thread t = .notifying → s.blocked = 0 →
      Move s (.notify t none) (s.moves t .idle)
  | spurious (t : T) (v : α) : s.thread t = .waiting v →
      Move s (.spurious t) (s.moves t (.woken v))

end Operations

/-- The buffer holds the elements pushed and not yet popped, in the order of the sections. -/
structure Inv (n : Nat) (s : State T α) : Prop where
  sound : s.fault = none
  holds : s.buffer.Holds n (s.pushed.map Prod.snd) s.popped.length
  popped : s.popped.map Prod.snd = (s.pushed.map Prod.snd).take s.popped.length

theorem inv_start {n : Nat} {b : MutexBuffer α} (holds : b.Holds n [] 0) : Inv n (start T b) :=
  ⟨rfl, holds, rfl⟩

theorem still_notifying [DecidableEq T] {s : State T α} {t u : T} {v : α}
    (notifying : s.thread t = .notifying) (waiting : s.thread u = .waiting v) :
    (s.moves u (.woken v)).thread t = .notifying := by
  have other : t ≠ u := fun same => by
    rw [← same, notifying] at waiting
    cases waiting
  exact (Function.update_of_ne other _ _).trans notifying

section Steps

variable [DecidableEq T] [Fintype T] {env : Environment} {n : Nat} {s s' : State T α}

theorem Inv.pushes_move (inv : Inv n s) {t : T} {op : Op α} {v : α} {res : Result α}
    (pending : (s.thread t).pending = some op) (kind : op.pushes = some (v, res))
    (room : s.buffer.isFull = false) : Move s (.lock t false) (pushes s t v res) := by
  obtain ⟨b, built, _⟩ := inv.holds.pushBack_eq room v
  simp only [pushes, built]
  exact .push t op v res b pending kind room built

theorem Inv.pops_move (inv : Inv n s) {t : T} {op : Op α} {dead : Fault} {res : α → Result α}
    (pending : (s.thread t).pending = some op) (kind : ∀ v, op.takes v = some (res v))
    (some_left : 0 < s.buffer.count_) : Move s (.lock t false) (pops s t dead res) := by
  obtain ⟨v, _, live⟩ := inv.holds.oldest some_left
  obtain ⟨b, destroyed, _⟩ := inv.holds.popFront_eq some_left
  simp only [pops, live, destroyed]
  exact .take t op v (res v) b pending (kind v) some_left live destroyed

theorem Inv.section_move (inv : Inv n s) {t : T} {op : Op α}
    (pending : (s.thread t).pending = some op)
    (contract : op = .pop → 0 < s.buffer.count_) :
    Move s (.lock t false) (criticalSection env s t op) := by
  cases op with
  | emplace v =>
    cases full : s.buffer.isFull with
    | true => simpa [criticalSection, full] using Move.block t v pending full
    | false => simpa [criticalSection, full] using inv.pushes_move pending rfl full
  | tryEmplace v =>
    cases full : s.buffer.isFull with
    | true => simpa [criticalSection, full] using Move.refuse t v pending full
    | false => simpa [criticalSection, full] using inv.pushes_move pending rfl full
  | front => exact .front t pending
  | tryPop =>
    by_cases empty : s.buffer.count_ = 0
    · simpa [criticalSection, empty] using Move.miss t pending empty
    · simp only [criticalSection, if_neg empty]
      exact inv.pops_move pending (fun _ => rfl) (Nat.pos_of_ne_zero empty)
  | pop =>
    have some_left := contract rfl
    simp only [criticalSection]
    rw [if_neg (by omega)]
    exact inv.pops_move pending (fun _ => rfl) some_left
  | close => exact .close t pending
  | closed => exact .closed t pending

theorem step_move (inv : Inv n s) {l : Label T α} (contract : nonemptyPop s l = true)
    (h : step env s l = some s') : Move s l s' := by
  have sound : s.fault.isSome = false := by rw [inv.sound]; rfl
  simp only [step, sound, Bool.false_eq_true, if_false] at h
  cases l with
  | call t op =>
    simp only at h
    split at h
    · rename_i idle
      cases h
      exact .call t op idle
    · cases h
  | lock t throws =>
    simp only at h
    split at h
    · cases h
    · rename_i op pending
      cases throws with
      | true =>
        simp only [if_true] at h
        split at h
        · rename_i reached
          cases h
          exact .threw t op pending reached
        · cases h
      | false =>
        cases h
        apply inv.section_move pending
        rintro rfl
        simpa [nonemptyPop, pending, Nat.pos_iff_ne_zero] using contract
  | notify t target =>
    simp only at h
    split at h
    · rename_i notifying
      cases target with
      | none =>
        simp only [notifyStep] at h
        split at h
        · rename_i nobody
          cases h
          exact .notifyNobody t notifying nobody
        · cases h
      | some u =>
        simp only [notifyStep] at h
        split at h
        · rename_i v waiting
          cases h
          exact .notify t u v notifying waiting
        · cases h
    · cases h
  | spurious t =>
    simp only at h
    split at h
    · rename_i v waiting
      cases h
      exact .spurious t v waiting
    · cases h

theorem Move.inv {l : Label T α} (move : Move s l s') (inv : Inv n s) : Inv n s' := by
  cases move with
  | push t op v res b pending kind room built =>
    obtain ⟨b', built', holds⟩ := inv.holds.pushBack_eq room v
    have same : b' = b := Except.ok.inj (built'.symm.trans built)
    subst same
    have elements : (s.pushed ++ [(t, v)]).map Prod.snd = s.pushed.map Prod.snd ++ [v] := by simp
    refine ⟨inv.sound, ?_, ?_⟩
    · change b'.Holds n ((s.pushed ++ [(t, v)]).map Prod.snd) s.popped.length
      rw [elements]
      exact holds
    · simp only [elements, State.answers]
      rw [List.take_append_of_le_length inv.holds.ordered]
      exact inv.popped
  | take t op v res b pending kind some_left live destroyed =>
    obtain ⟨w, present, live'⟩ := inv.holds.oldest some_left
    obtain ⟨b', destroyed', holds⟩ := inv.holds.popFront_eq some_left
    have same : b' = b := Except.ok.inj (destroyed'.symm.trans destroyed)
    have eq : w = v := Option.some.inj (live'.symm.trans live)
    subst same eq
    have length : (s.popped ++ [(t, w)]).length = s.popped.length + 1 := by simp
    refine ⟨inv.sound, ?_, ?_⟩
    · change b'.Holds n (s.pushed.map Prod.snd) (s.popped ++ [(t, w)]).length
      rw [length]
      exact holds
    · simp only [length, State.answers]
      rw [List.map_append, inv.popped, List.take_add_one, present]
      rfl
  | close t pending =>
    have holds := inv.holds
    exact ⟨inv.sound, { holds with }, inv.popped⟩
  | _ => exact ⟨inv.sound, inv.holds, inv.popped⟩

theorem step_inv {l : Label T α} (inv : Inv n s) (contract : nonemptyPop s l = true)
    (h : step env s l = some s') : Inv n s' :=
  (step_move inv contract h).inv inv

theorem Inv.run (inv : Inv n s) {ls : List (Label T α)}
    (run : Transition.Run (step env) (fun s l => nonemptyPop s l = true) s ls s') : Inv n s' :=
  run.invariant (Inv n) (fun _ _ _ inv contract h => step_inv inv contract h) inv

end Steps

end RingBuffers.Mutex
