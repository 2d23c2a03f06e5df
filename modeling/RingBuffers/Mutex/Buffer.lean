import RingBuffers.Storage

/-! `MutexBuffer`: its constructor and the critical sections of its operations, as functions
on the members the mutex guards, with the relation to the elements they hold. -/
namespace RingBuffers

/-- The members of `MutexBuffer`; `slots` is the allocation. -/
structure MutexBuffer (α : Type) where
  capacity_ : Nat
  count_ : Nat
  pushCursor_ : Nat
  popCursor_ : Nat
  closed_ : Bool
  slots : Nat → Option α

namespace MutexBuffer

variable {α : Type}

def empty (α : Type) (bufferSize : Nat) : MutexBuffer α :=
  ⟨bufferSize, 0, 0, 0, false, fun _ => none⟩

def construct (α : Type) (env : Environment) (bufferSize : Nat) :
    Except ConstructError (MutexBuffer α) :=
  if bufferSize < 1 then
    .error (.invalidArgument "MutexBuffer capacity must be greater than or equal to 1")
  else if env.allocates bufferSize then .ok (empty α bufferSize)
  else .error .badAllocation

/-- `construct_at` in the slot of `pushCursor_`, then the updates of `pushCursor_` and `count_`. -/
def pushBack (b : MutexBuffer α) (v : α) : Except Fault (MutexBuffer α) :=
  match b.slots b.pushCursor_ with
  | some _ => .error .constructOnLive
  | none => match sizeMod (sizeAdd b.pushCursor_ 1) b.capacity_ with
    | none => .error .divisionByZero
    | some next => .ok { b with
        slots := Function.update b.slots b.pushCursor_ (some v)
        pushCursor_ := next
        count_ := sizeAdd b.count_ 1 }

/-- `destroy_at` in the slot of `popCursor_`, then the updates of `popCursor_` and `count_`. -/
def popFront (b : MutexBuffer α) : Except Fault (MutexBuffer α) :=
  match b.slots b.popCursor_ with
  | none => .error .destroyOfDead
  | some _ => match sizeMod (sizeAdd b.popCursor_ 1) b.capacity_ with
    | none => .error .divisionByZero
    | some next => .ok { b with
        slots := Function.update b.slots b.popCursor_ none
        popCursor_ := next
        count_ := sizeSub b.count_ 1 }

def isFull (b : MutexBuffer α) : Bool := b.count_ == b.capacity_

def front (b : MutexBuffer α) : Option Nat :=
  if b.count_ = 0 then none else some b.popCursor_

def stored (b : MutexBuffer α) : List α :=
  (List.range b.count_).filterMap fun k => b.slots ((b.popCursor_ + k) % b.capacity_)

/-- `b` has room for `n` elements and holds `pushed` less its first `popped` elements. -/
structure Holds (n : Nat) (b : MutexBuffer α) (pushed : List α) (popped : Nat) : Prop where
  pos : 0 < n
  small : n < sizeModulus
  capacity : b.capacity_ = n
  ordered : popped ≤ pushed.length
  bounded : pushed.length ≤ popped + n
  count : b.count_ = pushed.length - popped
  pushCursor : b.pushCursor_ = pushed.length % n
  popCursor : b.popCursor_ = popped % n
  laid : Window.Laid (fun k => k % n) b.slots pushed popped

section Sections

variable {n popped : Nat} {b : MutexBuffer α} {pushed : List α}

theorem construct_ok {env : Environment} (made : construct α env n = .ok b) :
    0 < n ∧ b = empty α n := by
  unfold construct at made
  split at made
  · cases made
  · split at made
    · exact ⟨by omega, (Except.ok.inj made).symm⟩
    · cases made

theorem pushBack_closed {b b' : MutexBuffer α} {v : α} (built : b.pushBack v = .ok b') :
    b'.closed_ = b.closed_ := by
  unfold pushBack at built
  split at built
  · cases built
  · split at built <;> cases built
    rfl

theorem popFront_closed {b b' : MutexBuffer α} (destroyed : b.popFront = .ok b') :
    b'.closed_ = b.closed_ := by
  unfold popFront at destroyed
  split at destroyed
  · cases destroyed
  · split at destroyed <;> cases destroyed
    rfl

theorem holds_empty (pos : 0 < n) (small : n < sizeModulus) : Holds n (empty α n) [] 0 where
  pos := pos
  small := small
  capacity := rfl
  ordered := Nat.le_refl _
  bounded := Nat.zero_le _
  count := rfl
  pushCursor := (Nat.zero_mod _).symm
  popCursor := (Nat.zero_mod _).symm
  laid := Window.laid_empty

theorem next_cursor (pos : 0 < n) (small : n < sizeModulus) (k : Nat) :
    sizeMod (sizeAdd (k % n) 1) n = some ((k + 1) % n) := by
  have lt : k % n < n := Nat.mod_lt k pos
  have sum : sizeAdd (k % n) 1 = k % n + 1 := Nat.mod_eq_of_lt (by omega)
  rw [sizeMod, if_neg (Nat.ne_of_gt pos), sum, Nat.mod_add_mod]

theorem Holds.full_iff (holds : Holds n b pushed popped) :
    b.isFull = true ↔ pushed.length = popped + n := by
  have ordered := holds.ordered
  have count := holds.count
  rw [isFull, beq_iff_eq, holds.capacity]
  omega

theorem Holds.pushBack_eq (holds : Holds n b pushed popped) (room : b.isFull = false) (v : α) :
    ∃ b', b.pushBack v = .ok b' ∧ Holds n b' (pushed ++ [v]) popped := by
  have ordered := holds.ordered
  have bounded := holds.bounded
  have count := holds.count
  have small := holds.small
  have not_full : pushed.length ≠ popped + n := fun full => by
    rw [holds.full_iff.mpr full] at room
    cases room
  have free : b.slots (pushed.length % n) = none :=
    holds.laid.vacant (Window.apart_mod n) (by omega)
  have sum : sizeAdd b.count_ 1 = b.count_ + 1 := Nat.mod_eq_of_lt (by omega)
  refine ⟨{ b with
      slots := Function.update b.slots (pushed.length % n) (some v)
      pushCursor_ := (pushed.length + 1) % n
      count_ := b.count_ + 1 }, ?_, ?_⟩
  · simp only [pushBack, holds.pushCursor, free, holds.capacity,
      next_cursor holds.pos small, sum]
  · have length : (pushed ++ [v]).length = pushed.length + 1 := by simp
    exact { holds with
      ordered := by omega
      bounded := by omega
      count := by simp only [length]; omega
      pushCursor := by rw [length]
      laid := holds.laid.construct (Window.apart_mod n) (by omega) ordered v }

theorem Holds.oldest (holds : Holds n b pushed popped) (some_left : 0 < b.count_) :
    ∃ v, pushed[popped]? = some v ∧ b.slots b.popCursor_ = some v := by
  have count := holds.count
  have present := List.getElem?_eq_getElem (l := pushed) (i := popped) (by omega)
  refine ⟨_, present, ?_⟩
  rw [holds.popCursor]
  exact holds.laid.at (Nat.le_refl _) present

theorem Holds.popFront_eq (holds : Holds n b pushed popped) (some_left : 0 < b.count_) :
    ∃ b', b.popFront = .ok b' ∧ Holds n b' pushed (popped + 1) := by
  have ordered := holds.ordered
  have bounded := holds.bounded
  have count := holds.count
  have small := holds.small
  obtain ⟨v, _, live⟩ := holds.oldest some_left
  have difference : sizeSub b.count_ 1 = b.count_ - 1 := by
    simp only [sizeSub, sizeModulus] at small ⊢
    omega
  refine ⟨{ b with
      slots := Function.update b.slots (popped % n) none
      popCursor_ := (popped + 1) % n
      count_ := b.count_ - 1 }, ?_, ?_⟩
  · rw [holds.popCursor] at live
    simp only [popFront, holds.popCursor, live, holds.capacity, next_cursor holds.pos small,
      difference]
  · exact { holds with
      ordered := by omega
      bounded := by omega
      count := by simp only; omega
      popCursor := rfl
      laid := holds.laid.destroy (Window.apart_mod n) (by omega) }

theorem Holds.slots_iff (holds : Holds n b pushed popped) (i : Nat) (v : α) :
    b.slots i = some v ↔
      ∃ k, k < b.count_ ∧ i = (b.popCursor_ + k) % n ∧ pushed[popped + k]? = some v := by
  have count := holds.count
  rw [holds.laid i v]
  constructor
  · rintro ⟨k, le, present, at_i⟩
    have lt := (List.getElem?_eq_some_iff.mp present).1
    refine ⟨k - popped, by omega, ?_, ?_⟩
    · rw [holds.popCursor, Nat.mod_add_mod, Nat.add_sub_cancel' le]
      exact at_i.symm
    · rw [Nat.add_sub_cancel' le, present]
  · rintro ⟨k, lt, at_i, present⟩
    refine ⟨popped + k, Nat.le_add_right _ _, present, ?_⟩
    rw [at_i, holds.popCursor, Nat.mod_add_mod]

theorem Holds.pushCursor_eq (holds : Holds n b pushed popped) :
    b.pushCursor_ = (b.popCursor_ + b.count_) % n := by
  have ordered := holds.ordered
  rw [holds.pushCursor, holds.popCursor, holds.count, Nat.mod_add_mod,
    Nat.add_sub_cancel' ordered]

/-- What the slots hold, read in circular order, is what was pushed and not popped. -/
theorem Holds.stored_eq (holds : Holds n b pushed popped) : b.stored = pushed.drop popped := by
  have count := holds.count
  have reads : ∀ k, k < b.count_ →
      b.slots ((b.popCursor_ + k) % b.capacity_) = (pushed.drop popped)[k]? := by
    intro k lt
    have present := List.getElem?_eq_getElem (l := pushed) (i := popped + k) (by omega)
    rw [List.getElem?_drop, present, holds.capacity]
    exact (holds.slots_iff _ _).mpr ⟨k, lt, rfl, present⟩
  have length : (pushed.drop popped).length = b.count_ := by simp [count]
  rw [stored, ← length]
  exact Window.filterMap_range_eq _ _ (fun k lt => reads k (length ▸ lt))

theorem Holds.stored_length (holds : Holds n b pushed popped) : b.stored.length = b.count_ := by
  rw [holds.stored_eq, holds.count, List.length_drop]

end Sections

end MutexBuffer

end RingBuffers
