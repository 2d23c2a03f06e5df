import RingBuffers.Library.Lifetime
import RingBuffers.Mutex.Machine

/-! Constructions and destructions in the slots of a `MutexBuffer`, along a run of any number
of threads and then in the destructor. -/
namespace RingBuffers
open Lifetime Transition

variable {T α : Type}

/-- The loop of the destructor, for at most `fuel` rounds: what it destroys and what it leaves.
Undefined when it meets a dead slot. -/
def MutexBuffer.drain : Nat → MutexBuffer α → Option (List (Event α) × MutexBuffer α)
  | 0, _ => none
  | fuel + 1, b =>
    if b.count_ > 0 then
      match b.popFront with
      | .error _ => none
      | .ok c => (drain fuel c).map fun (es, d) => (.destroy b.popCursor_ :: es, d)
    else some ([], b)

namespace MutexBuffer

variable {n popped : Nat} {b b' : MutexBuffer α} {pushed : List α}

theorem pushBack_slots {v : α} (built : b.pushBack v = .ok b') :
    b.slots b.pushCursor_ = none ∧ b'.slots = Function.update b.slots b.pushCursor_ (some v) := by
  unfold pushBack at built
  split at built
  · cases built
  · rename_i free
    split at built
    · cases built
    · cases built
      exact ⟨free, rfl⟩

theorem popFront_slots (destroyed : b.popFront = .ok b') :
    ∃ v, b.slots b.popCursor_ = some v ∧
      b'.slots = Function.update b.slots b.popCursor_ none := by
  unfold popFront at destroyed
  split at destroyed
  · cases destroyed
  · rename_i v live
    split at destroyed
    · cases destroyed
    · cases destroyed
      exact ⟨v, live, rfl⟩

theorem Holds.drain_sweeps (holds : b.Holds n pushed popped) (fuel : Nat)
    (enough : b.count_ < fuel) :
    ∃ d, b.drain fuel = some (sweep (fun k => (popped + k) % n) b.count_, d) ∧
      Path Lawful b.slots (sweep (fun k => (popped + k) % n) b.count_) d.slots ∧
      d.count_ = 0 ∧ d.slots = fun _ => none := by
  -- each round takes the front away and counts one less
  induction fuel generalizing b popped with
  | zero => omega
  | succ fuel ih =>
    have count := holds.count
    have ordered := holds.ordered
    by_cases some_left : b.count_ > 0
    · obtain ⟨c, destroyed, after⟩ := holds.popFront_eq some_left
      obtain ⟨v, live, slots⟩ := popFront_slots destroyed
      have fewer : b.count_ = c.count_ + 1 := by
        have := after.count
        omega
      obtain ⟨d, drained, lawful, none_left⟩ := ih after (by omega)
      have rounds : (sweep (fun k => (popped + k) % n) b.count_ : List (Event α)) =
          .destroy b.popCursor_ :: sweep (fun k => (popped + 1 + k) % n) c.count_ := by
        rw [fewer, holds.popCursor]
        exact sweep_from (fun k => k % n) popped c.count_
      refine ⟨d, ?_, ?_, none_left⟩
      · rw [drain, if_pos some_left, destroyed, rounds]
        simp only [drained, Option.map_some]
      · rw [rounds]
        rw [slots] at lawful
        exact Path.cons (Lawful.destroy _ v live) lawful
    · have none_left : b.count_ = 0 := by omega
      have dead : b.slots = fun _ => none := by
        funext i
        exact holds.laid.none_of (fun k lo hi => by omega)
      refine ⟨b, ?_, ?_, none_left, dead⟩
      · rw [drain, if_neg some_left, none_left]
        rfl
      · rw [none_left]
        exact Path.nil _

end MutexBuffer

namespace Mutex

variable [DecidableEq T] [Fintype T] {env : Environment} {n : Nat} {s t : State T α}

/-- What a step does to the elements. A section that throws does it while it constructs or
moves, and leaves no new element behind and the old one in place. -/
def slotEvents (s : State T α) : Label T α → List (Event α)
  | .lock t false => match (s.thread t).pending with
    | some (.emplace v) | some (.tryEmplace v) =>
      if s.buffer.isFull then [] else [.construct s.buffer.pushCursor_ v]
    | some .tryPop => if s.buffer.count_ = 0 then [] else [.destroy s.buffer.popCursor_]
    | some .pop => [.destroy s.buffer.popCursor_]
    | _ => []
  | _ => []

theorem Move.lawful {l : Label T α} (move : Move s l t) :
    Path Lawful s.buffer.slots (slotEvents s l) t.buffer.slots := by
  cases move with
  | push u op v res b pending kind room built =>
    obtain ⟨free, slots⟩ := MutexBuffer.pushBack_slots built
    have events : slotEvents s (.lock u false) = [.construct s.buffer.pushCursor_ v] := by
      cases op with
      | emplace w | tryEmplace w =>
        cases kind
        simp [slotEvents, pending, room]
      | front | tryPop | pop | close | closed => cases kind
    rw [events]
    change Path Lawful s.buffer.slots _ b.slots
    rw [slots]
    exact Path.cons (Lawful.construct _ v free) (Path.nil _)
  | take u op v res b pending kind some_left live destroyed =>
    obtain ⟨w, live, slots⟩ := MutexBuffer.popFront_slots destroyed
    have left : s.buffer.count_ ≠ 0 := Nat.ne_of_gt some_left
    have events : slotEvents s (.lock u false) = [.destroy s.buffer.popCursor_] := by
      cases op with
      | tryPop | pop => simp [slotEvents, pending, left]
      | emplace w | tryEmplace w | front | close | closed => cases kind
    rw [events]
    change Path Lawful s.buffer.slots _ b.slots
    rw [slots]
    exact Path.cons (Lawful.destroy _ w live) (Path.nil _)
  | block u v pending full | refuse u v pending full =>
    simp only [slotEvents, pending, full, if_true]
    exact Path.nil _
  | miss u pending empty =>
    simp only [slotEvents, pending, empty, if_true]
    exact Path.nil _
  | front u pending | close u pending | closed u pending =>
    simp only [slotEvents, pending]
    exact Path.nil _
  | call | threw | notify | notifyNobody | spurious => exact Path.nil _

theorem run_lawful {s₀ : State T α} {ls : List (Label T α)} (inv : Inv n s₀)
    (run : Run (step env) (fun s l => nonemptyPop s l = true) s₀ ls s) :
    Path Lawful s₀.buffer.slots (trace (step env) slotEvents s₀ ls).flatten s.buffer.slots := by
  apply run.performs Lawful (fun s => s.buffer.slots) slotEvents (Inv n)
  · intro s l t inv contract h
    exact step_inv inv contract h
  · intro s l t inv contract h
    exact (step_move inv contract h).lawful
  · exact inv

theorem mutex_exact {b : MutexBuffer α} (holds : b.Holds n [] 0) {ls : List (Label T α)}
    (run : Run (step env) (fun s l => nonemptyPop s l = true) (start T b) ls s) {fuel : Nat}
    (enough : s.buffer.stored.length < fuel) :
    ∃ ds d, s.buffer.drain fuel = some (ds, d) ∧ d.count_ = 0 ∧
      Exact s.buffer.stored s.buffer.slots (trace (step env) slotEvents (start T b) ls).flatten
        ds d.slots := by
  have inv := (inv_start holds).run run
  have stored := inv.holds.stored_eq
  have length := inv.holds.stored_length
  obtain ⟨d, drained, lawful, none_left, dead⟩ := inv.holds.drain_sweeps fuel (by omega)
  have nothing : (start T b).buffer.slots = fun _ => none := by
    funext i
    exact holds.laid.none_of (fun k lo hi => by cases hi)
  have history := run_lawful (inv_start holds) run
  rw [nothing] at history
  rw [← length] at drained lawful
  refine ⟨_, d, drained, none_left, exact_of_sweep history lawful (fun i => by rw [dead]) ?_⟩
  intro k v present
  apply inv.holds.laid.at (Nat.le_add_right _ _)
  rwa [stored, List.getElem?_drop] at present

end Mutex

end RingBuffers
