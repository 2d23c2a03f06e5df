import Mathlib.Data.Nat.ModEq
import RingBuffers.Spsc.Monotonic
import RingBuffers.Spsc.Sequential

/-! The class that takes the remainder of a counting cursor. Its full test admits `capacity_`
elements, and `capacity_` need not divide 2^64: across the end of `std::size_t` the remainders
jump, so that elements 2^64 % `capacity_` pushes apart share a slot. -/
namespace RingBuffers.Spsc

/-- The slot of the `k`-th push: the remainder of its wrapped cursor. -/
def wrappedSlot (m k : Nat) : Nat := k % sizeModulus % m

/-- The push after `pushes` others lands on an element still stored: its cursor has wrapped
less than 2^64 % `m` pushes ago, and at least that many elements are stored. -/
def Clash (m pushes stored : Nat) : Prop :=
  sizeModulus ≤ pushes ∧ pushes % sizeModulus < sizeModulus % m ∧ sizeModulus % m ≤ stored

instance decidableClash (m pushes stored : Nat) : Decidable (Clash m pushes stored) :=
  inferInstanceAs (Decidable (_ ∧ _ ∧ _))

section Slots

variable {m p : Nat}

theorem wrapped_sub {d : Nat} (le : d ≤ p) (small : d < sizeModulus) :
    (p - d) % sizeModulus =
      if p % sizeModulus < d then p % sizeModulus + (sizeModulus - d)
      else p % sizeModulus - d := by
  by_cases wraps : p % sizeModulus < d
  · rw [if_pos wraps]
    simp only [sizeModulus] at small wraps ⊢
    omega
  · rw [if_neg wraps]
    simp only [sizeModulus] at small wraps ⊢
    omega

theorem wrappedSlot_eq_iff {d : Nat} (pos : 0 < d) (lt : d < m) (le : d ≤ p)
    (small : m < sizeModulus) :
    wrappedSlot m (p - d) = wrappedSlot m p ↔
      sizeModulus ≤ p ∧ p % sizeModulus < d ∧ sizeModulus % m = d := by
  unfold wrappedSlot
  rw [wrapped_sub le (by omega)]
  by_cases wraps : p % sizeModulus < d
  · have later : sizeModulus ≤ p := by
      by_contra early
      rw [Nat.mod_eq_of_lt (by omega)] at wraps
      omega
    have divides : (p % sizeModulus + (sizeModulus - d)) % m = p % sizeModulus % m ↔
        m ∣ sizeModulus - d := by
      constructor
      · intro same
        have zero := Nat.sub_mod_eq_zero_of_mod_eq same
        rw [Nat.add_sub_cancel_left] at zero
        exact Nat.dvd_of_mod_eq_zero zero
      · rintro ⟨q, eq⟩
        rw [eq, Nat.add_mul_mod_self_left]
    have remainder : m ∣ sizeModulus - d ↔ sizeModulus % m = d := by
      rw [← Nat.modEq_iff_dvd' (by omega), Nat.ModEq, Nat.mod_eq_of_lt lt]
      exact eq_comm
    rw [if_pos wraps, divides, remainder]
    simp only [later, wraps, true_and]
  · rw [if_neg wraps]
    have apart := Window.apart_mod m (p % sizeModulus - d) (p % sizeModulus) (by omega) (by omega)
    simp only [wraps, false_and, and_false, iff_false]
    exact apart

theorem clash_iff {q : Nat} (le : q ≤ p) (room : q < m) (small : m < sizeModulus) :
    Clash m p q ↔ ∃ j, p - q ≤ j ∧ j < p ∧ wrappedSlot m j = wrappedSlot m p := by
  constructor
  · rintro ⟨later, recent, stored⟩
    refine ⟨p - sizeModulus % m, by omega, by omega, ?_⟩
    exact (wrappedSlot_eq_iff (by omega) (by omega) (by omega) small).mpr ⟨later, recent, rfl⟩
  · rintro ⟨j, first, last, same⟩
    have back : p - (p - j) = j := by omega
    rw [← back, wrappedSlot_eq_iff (by omega) (by omega) (by omega) small] at same
    obtain ⟨later, recent, distance⟩ := same
    exact ⟨later, by omega, by omega⟩

theorem no_clash {q : Nat} (early : p < sizeModulus) : ¬ Clash m p q := by
  rintro ⟨later, _⟩
  omega

end Slots

structure Remainder (m : Nat) (r : Ring) : Prop where
  cursors : r.cursors = .monoModulus
  uncached : r.cached = false
  capacity : r.capacity_ = m
  base : r.base = 0
  pos : 0 < m
  small : m < sizeModulus

/-- The members of a buffer of this class, and that no stored element has lost its slot. -/
structure Counts {α : Type} (m : Nat) (b : Buffer α) : Prop where
  pushCursor : b.pushCursor = b.pushed.length % sizeModulus
  popCursor : b.popCursor = b.consumed.length % sizeModulus
  ordered : b.consumed.length ≤ b.pushed.length
  bounded : b.pushed.length ≤ b.consumed.length + m
  laid : Window.Laid (wrappedSlot m) b.slots b.pushed b.consumed.length
  distinct : ∀ j k, b.consumed.length ≤ j → j < k → k < b.pushed.length →
    wrappedSlot m j ≠ wrappedSlot m k
  consumed : b.consumed = b.pushed.take b.consumed.length

variable {α : Type}

theorem remainder_of_construct {env : Environment} {n : Nat} {r : Ring}
    (made : spscBufferMonoModulus.construct env n = .ok r) (fits : n + 1 < sizeModulus) :
    Remainder (n + 1) r := by
  have sum : sizeAdd n 1 = n + 1 := Nat.mod_eq_of_lt fits
  rw [(construct_ok made).2.2]
  exact ⟨rfl, rfl, sum, rfl, Nat.succ_pos n, fits⟩

theorem counts_start (m : Nat) : Counts m (Buffer.start α) where
  pushCursor := rfl
  popCursor := rfl
  ordered := Nat.le_refl _
  bounded := Nat.zero_le _
  laid := Window.laid_empty
  distinct := by intro j k _ _ impossible; cases impossible
  consumed := rfl

section Calls

variable {r : Ring} {m : Nat} {b : Buffer α}

theorem Remainder.slot_wrapped (shape : Remainder m r) (k : Nat) :
    r.slot (k % sizeModulus) = some (wrappedSlot m k) := by
  have pos := shape.pos
  simp only [Ring.slot, shape.cursors, shape.capacity, shape.base, sizeMod,
    if_neg (Nat.ne_of_gt pos), Option.map_some, Nat.zero_add, wrappedSlot]

theorem Remainder.next_wrapped (shape : Remainder m r) (k : Nat) :
    r.next (k % sizeModulus) = some ((k + 1) % sizeModulus) := by
  simp only [Ring.next, shape.cursors, sizeAdd_mod]

theorem Counts.stored_eq (counts : Counts m b) :
    b.pushed.length - b.queue.length = b.consumed.length := by
  have ordered := counts.ordered
  have length := b.queue_length
  omega

theorem Counts.full_iff (counts : Counts m b) (shape : Remainder m r) (next : Nat) :
    r.full b.pushCursor next b.popCursor = true ↔ b.queue.length = m := by
  have bounded := counts.bounded
  have small := shape.small
  have length := b.queue_length
  simp only [Ring.full, shape.cursors, shape.capacity, counts.pushCursor, counts.popCursor]
  rw [sizeSub_mod counts.ordered (by omega), decide_eq_true_eq, length]

theorem Counts.queue_le (counts : Counts m b) : b.queue.length ≤ m := by
  have bounded := counts.bounded
  have length := b.queue_length
  omega

theorem Counts.queue_nil_iff (counts : Counts m b) :
    b.queue = [] ↔ b.consumed.length = b.pushed.length := by
  have ordered := counts.ordered
  rw [List.eq_nil_iff_length_eq_zero, Buffer.queue_length]
  omega

theorem Counts.cursors_eq_iff (counts : Counts m b) (shape : Remainder m r) :
    b.popCursor = b.pushCursor ↔ b.queue = [] := by
  have bounded := counts.bounded
  have small := shape.small
  rw [counts.popCursor, counts.pushCursor, counts.queue_nil_iff]
  exact wrapped_eq_iff counts.ordered (by omega)

theorem Counts.findRoom_eq (counts : Counts m b) (shape : Remainder m r) (next : Nat) :
    findRoom r b next =
      (decide (b.queue.length < m), { b with popCursorCache := b.popCursor }) := by
  have bounded := counts.queue_le
  have full := counts.full_iff shape next
  have test : (!r.full b.pushCursor next b.popCursor) = decide (b.queue.length < m) := by
    rw [Bool.eq_iff_iff, Bool.not_eq_true', ← Bool.not_eq_true, full, decide_eq_true_eq]
    omega
  simp only [findRoom, shape.uncached, Bool.false_and, Bool.false_eq_true, if_false, test]

theorem Counts.recorded (counts : Counts m b) (c : Nat) :
    Counts m { b with popCursorCache := c } :=
  { counts with }

theorem Counts.vacant_iff (counts : Counts m b) (shape : Remainder m r)
    (room : b.queue.length < m) :
    b.slots (wrappedSlot m b.pushed.length) = none ↔
      ¬ Clash m b.pushed.length b.queue.length := by
  have length := b.queue_length
  rw [clash_iff (by omega) room shape.small, counts.stored_eq]
  constructor
  · rintro free ⟨j, first, last, same⟩
    have live := counts.laid.at first (List.getElem?_eq_getElem last)
    rw [same, free] at live
    cases live
  · intro apart
    apply counts.laid.none_of
    intro k first last same
    exact apart ⟨k, first, last, same⟩

theorem Counts.construct_ok (counts : Counts m b) (shape : Remainder m r)
    (room : b.queue.length < m) (clear : ¬ Clash m b.pushed.length b.queue.length) (v : α) :
    ∃ b', constructNext r b v ((b.pushed.length + 1) % sizeModulus) = .ok b' ∧ Counts m b' ∧
      b'.pushed = b.pushed ++ [v] ∧ b'.consumed = b.consumed ∧ b'.closed = b.closed := by
  have ordered := counts.ordered
  have length := b.queue_length
  have free := (counts.vacant_iff shape room).mpr clear
  have alone : ∀ k, b.consumed.length ≤ k → k < b.pushed.length →
      wrappedSlot m k ≠ wrappedSlot m b.pushed.length := by
    intro k first last same
    apply clear
    rw [clash_iff (by omega) room shape.small, counts.stored_eq]
    exact ⟨k, first, last, same⟩
  have slot : r.slot b.pushCursor = some (wrappedSlot m b.pushed.length) := by
    rw [counts.pushCursor]
    exact shape.slot_wrapped _
  refine ⟨{ b with
      slots := Function.update b.slots (wrappedSlot m b.pushed.length) (some v)
      pushCursor := (b.pushed.length + 1) % sizeModulus
      pushed := b.pushed ++ [v] }, by simp only [constructNext, slot, free], ?_, rfl, rfl, rfl⟩
  have pushes : (b.pushed ++ [v]).length = b.pushed.length + 1 := by simp
  exact { counts with
    pushCursor := by rw [pushes]
    ordered := by simp only [pushes]; omega
    bounded := by simp only [pushes]; omega
    laid := counts.laid.construct_free ordered alone v
    distinct := by
      intro j k first lt last
      simp only [pushes] at last
      rcases Nat.lt_or_ge k b.pushed.length with old | new
      · exact counts.distinct j k first lt old
      · have eq : k = b.pushed.length := by omega
        rw [eq]
        exact alone j first (by omega)
    consumed := counts.consumed.trans (List.take_append_of_le_length ordered).symm }

theorem Counts.construct_clash (counts : Counts m b) (shape : Remainder m r)
    (room : b.queue.length < m) (clash : Clash m b.pushed.length b.queue.length) (v : α)
    (next : Nat) : constructNext r b v next = .error (.fault .constructOnLive) := by
  have slot : r.slot b.pushCursor = some (wrappedSlot m b.pushed.length) := by
    rw [counts.pushCursor]
    exact shape.slot_wrapped _
  cases live : b.slots (wrappedSlot m b.pushed.length) with
  | none => exact absurd clash ((counts.vacant_iff shape room).mp live)
  | some w => simp only [constructNext, slot, live]

theorem Counts.next_eq (counts : Counts m b) (shape : Remainder m r) :
    r.next b.pushCursor = some ((b.pushed.length + 1) % sizeModulus) := by
  rw [counts.pushCursor]
  exact shape.next_wrapped _

theorem Counts.tryEmplace_full (counts : Counts m b) (shape : Remainder m r)
    (full : b.queue.length = m) (v : α) :
    tryEmplace r v b = .ok (false, { b with popCursorCache := b.popCursor }) := by
  simp only [tryEmplace, counts.next_eq shape, counts.findRoom_eq shape, full, Nat.lt_irrefl,
    decide_false]

theorem Counts.tryEmplace_room (counts : Counts m b) (shape : Remainder m r)
    (room : b.queue.length < m) (clear : ¬ Clash m b.pushed.length b.queue.length) (v : α) :
    ∃ b', tryEmplace r v b = .ok (true, b') ∧ Counts m b' ∧ b'.pushed = b.pushed ++ [v] ∧
      b'.consumed = b.consumed ∧ b'.closed = b.closed := by
  obtain ⟨b', built, done, same⟩ := (counts.recorded b.popCursor).construct_ok shape room clear v
  refine ⟨b', ?_, done, same⟩
  simp only [tryEmplace, counts.next_eq shape, counts.findRoom_eq shape, decide_eq_true room]
  rw [built]
  rfl

theorem Counts.tryEmplace_clash (counts : Counts m b) (shape : Remainder m r)
    (room : b.queue.length < m) (clash : Clash m b.pushed.length b.queue.length) (v : α) :
    tryEmplace r v b = .error (.fault .constructOnLive) := by
  have lost := (counts.recorded b.popCursor).construct_clash shape room clash v
    ((b.pushed.length + 1) % sizeModulus)
  simp only [tryEmplace, counts.next_eq shape, counts.findRoom_eq shape, decide_eq_true room]
  rw [lost]
  rfl

theorem Counts.emplace_room (counts : Counts m b) (shape : Remainder m r)
    (room : b.queue.length < m) (clear : ¬ Clash m b.pushed.length b.queue.length) (v : α) :
    ∃ b', emplace r v b = .ok b' ∧ Counts m b' ∧ b'.pushed = b.pushed ++ [v] ∧
      b'.consumed = b.consumed ∧ b'.closed = b.closed := by
  obtain ⟨b', built, done, same⟩ := (counts.recorded b.popCursor).construct_ok shape room clear v
  refine ⟨b', ?_, done, same⟩
  simp only [emplace, counts.next_eq shape, counts.findRoom_eq shape, decide_eq_true room]
  exact built

theorem Counts.oldest (counts : Counts m b) (some_left : b.queue ≠ []) :
    ∃ v, b.queue.head? = some v ∧ b.slots (wrappedSlot m b.consumed.length) = some v := by
  have ordered := counts.ordered
  have lt : b.consumed.length < b.pushed.length := by
    have other := mt counts.queue_nil_iff.mpr some_left
    omega
  have present := List.getElem?_eq_getElem lt
  refine ⟨_, ?_, counts.laid.at (Nat.le_refl _) present⟩
  rw [Buffer.queue, List.head?_drop, present]

theorem Counts.front_eq (counts : Counts m b) (shape : Remainder m r) :
    front r b = .ok (if b.queue = [] then none else some (wrappedSlot m b.consumed.length),
      { b with pushCursorCache := b.pushCursor }) := by
  have slot : r.slot b.popCursor = some (wrappedSlot m b.consumed.length) := by
    rw [counts.popCursor]
    exact shape.slot_wrapped _
  have empty := counts.cursors_eq_iff shape
  simp only [front, shape.uncached, Bool.false_and, Bool.false_eq_true, if_false, pointer, slot,
    empty]
  split <;> rfl

theorem Counts.pop_eq (counts : Counts m b) (shape : Remainder m r) (some_left : b.queue ≠ []) :
    ∃ v b', pop r b = .ok b' ∧ Counts m b' ∧ b.queue.head? = some v ∧
      b'.pushed = b.pushed ∧ b'.consumed = b.consumed ++ [v] ∧ b'.closed = b.closed := by
  have ordered := counts.ordered
  have bounded := counts.bounded
  have lt : b.consumed.length < b.pushed.length := by
    have other := mt counts.queue_nil_iff.mpr some_left
    omega
  have differ : (b.popCursor == b.pushCursor) = false := by
    rw [beq_eq_false_iff_ne]
    exact mt (counts.cursors_eq_iff shape).mp some_left
  have slot : r.slot b.popCursor = some (wrappedSlot m b.consumed.length) := by
    rw [counts.popCursor]
    exact shape.slot_wrapped _
  have next : r.next b.popCursor = some ((b.consumed.length + 1) % sizeModulus) := by
    rw [counts.popCursor]
    exact shape.next_wrapped _
  obtain ⟨v, head, live⟩ := counts.oldest some_left
  refine ⟨v, { b with
      slots := Function.update b.slots (wrappedSlot m b.consumed.length) none
      popCursor := (b.consumed.length + 1) % sizeModulus
      consumed := b.consumed ++ [v] },
    by simp [pop, differ, slot, live, next], ?_, head, rfl, rfl, rfl⟩
  have pops : (b.consumed ++ [v]).length = b.consumed.length + 1 := by simp
  have present : b.pushed[b.consumed.length]? = some v := by
    rwa [Buffer.queue, List.head?_drop] at head
  exact { counts with
    popCursor := by rw [pops]
    ordered := by simp only [pops]; omega
    bounded := by simp only [pops]; omega
    laid := by
      rw [pops]
      exact counts.laid.destroy_alone (fun k gt last => counts.distinct _ k (Nat.le_refl _) gt last)
    distinct := by
      intro j k first
      simp only [pops] at first
      exact counts.distinct j k (by omega)
    consumed := by
      have eq : b.pushed.take b.consumed.length = b.consumed := counts.consumed.symm
      rw [pops, List.take_add_one, eq, present, Option.toList_some] }

end Calls

end RingBuffers.Spsc
