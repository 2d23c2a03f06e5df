import Mathlib.Data.Fintype.Basic
import RingBuffers.Spsc.Pointer
import RingBuffers.Mutex.Pointer

/-! The pointer that `front` returns is stable until `pop`, in both designs. -/
namespace RingBuffers
open Transition

variable {T α : Type}

/-- From every state in which the consumer holds a pointer `p`, as long as it does not come to
the destruction of a `pop`, no step constructs in the slot of `p`, the value there and the
answer of `front` stay the same, and the next `pop` destroys that slot and no other. -/
theorem front_pointer_stable [DecidableEq T] [Fintype T] (env : Environment) (n : Nat)
    (fits : n + 1 + 2 * env.padding < sizeModulus) :
    (∀ (r : Ring) (ls : List (Spsc.Label α)) (s : Spsc.State α) (p : Nat),
      spscBuffer.construct env n = .ok r →
      Run (Spsc.step r) (fun s l => Spsc.frontFirst s l = true) (Spsc.start α) ls s →
      s.held = some p →
      ∃ v, s.slots p = some v ∧ ∀ ks t,
        Run (Spsc.step r) (fun s l => Spsc.frontFirst s l = true ∧ Spsc.spares s l = true) s ks t →
          Spsc.StablePointer r p v t) ∧
    ∀ (c : T) (b : MutexBuffer α) (ls : List (Mutex.Label T α)) (s : Mutex.State T α) (p : Nat),
      MutexBuffer.construct α env n = .ok b →
      Run (Mutex.step env) (fun s l => Mutex.nonemptyPop s l = true ∧
        Mutex.singleConsumer c l = true) (Mutex.start T b) ls s →
      s.result c = some (.front (some p)) →
      ∃ v, s.buffer.slots p = some v ∧ ∀ ks t,
        Run (Mutex.step env) (fun s l => (Mutex.nonemptyPop s l = true ∧
          Mutex.singleConsumer c l = true) ∧ Mutex.spares s l = true) s ks t →
            Mutex.StablePointer env c p v t := by
  constructor
  · intro r ls s p made run held
    exact Spsc.spsc_pointer (spscBuffer_slack.encoding made (by omega))
      (Spsc.spscBuffer_synchronizes made) run held
  · intro c b ls s p made run answer
    obtain ⟨pos, rfl⟩ := MutexBuffer.construct_ok made
    exact Mutex.mutex_pointer (MutexBuffer.holds_empty pos (by omega)) run answer

def pushThenFront : List (Spsc.Label Nat) :=
  [.tryEmplace 7, .producer 0, .producer 0, .producer 0, .producer 0,
    .front, .consumer 0, .consumer 0, .consumer 1, .consumer 0, .consumer 0]

def fillAround : List (Spsc.Label Nat) :=
  [.emplace 8, .producer 1, .producer 0, .producer 0, .producer 0,
    .tryEmplace 9, .producer 2, .producer 0, .producer 0, .producer 0, .producer 0,
    .front, .consumer 0, .consumer 0, .read, .pop, .consumer 0, .consumer 2]

def lockedFront : List (Mutex.Label Bool Nat) :=
  [.call true (.emplace 7), .lock true false, .call false .front, .lock false false]

def lockedFill : List (Mutex.Label Bool Nat) :=
  [.call true (.emplace 8), .lock true true, .call true (.tryEmplace 8), .lock true false,
    .call true (.emplace 9), .lock true false, .call false .front, .lock false false,
    .call false .pop]

theorem front_pointer_stable_at_two :
    (∃ v t, Spsc.StablePointer (spscBuffer.ring .desktop 2) 16 v t ∧ t.queue = [7, 8]) ∧
    ∃ v t, Mutex.StablePointer .desktop false 0 v t ∧ t.buffer.stored = [7, 8] := by
  have stable := @front_pointer_stable Bool Nat _ _ .desktop 2 (by decide)
  constructor
  · obtain ⟨v, _, after⟩ := stable.1 _ pushThenFront _ 16 rfl
      (Run.of_exec (by decide) (by decide)) (by decide)
    exact ⟨v, _, after fillAround _ (Run.of_exec (by decide) (by decide)), by decide⟩
  · obtain ⟨v, _, after⟩ := stable.2 false _ lockedFront _ 0 rfl
      (Run.of_exec (by decide) (by decide)) (by decide)
    exact ⟨v, _, after lockedFill _ (Run.of_exec (by decide) (by decide)), by decide⟩

end RingBuffers
