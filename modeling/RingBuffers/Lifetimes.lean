import Mathlib.Data.Fintype.Basic
import RingBuffers.Spsc.Lifetimes
import RingBuffers.Mutex.Lifetimes

/-! From construction to destruction of a buffer every element lives exactly once. -/
namespace RingBuffers
open Lifetime Transition

variable {T α : Type}

/-- Constructions find dead slots and destructions live ones, whatever throws; the destructor
makes as many rounds as elements are stored, destroys them oldest first and leaves all slots
dead; then every element that was ever constructed has been destroyed exactly once. -/
theorem lifetimes_exact [DecidableEq T] [Fintype T] (env : Environment) (n : Nat)
    (fits : n + 1 + 2 * env.padding < sizeModulus) :
    (∀ (r : Ring) (ls : List (Spsc.Label α)) (s : Spsc.State α),
      spscBuffer.construct env n = .ok r →
      Run (Spsc.step r) (fun s l => Spsc.frontFirst s l = true) (Spsc.start α) ls s → s.quiet →
      ∀ fuel, s.queue.length < fuel →
        ∃ ds d, Spsc.drain r fuel s.toBuffer = .ok (ds, d) ∧ d.consumed = s.pushed ∧
          Exact s.queue s.slots
            (trace (Spsc.step r) (Spsc.slotEvents r) (Spsc.start α) ls).flatten ds d.slots) ∧
    ∀ (b : MutexBuffer α) (ls : List (Mutex.Label T α)) (s : Mutex.State T α),
      MutexBuffer.construct α env n = .ok b →
      Run (Mutex.step env) (fun s l => Mutex.nonemptyPop s l = true) (Mutex.start T b) ls s →
      ∀ fuel, s.buffer.stored.length < fuel →
        ∃ ds d, s.buffer.drain fuel = some (ds, d) ∧ d.count_ = 0 ∧
          Exact s.buffer.stored s.buffer.slots
            (trace (Mutex.step env) Mutex.slotEvents (Mutex.start T b) ls).flatten ds d.slots := by
  constructor
  · intro r ls s made run quiet fuel enough
    exact Spsc.spsc_exact (spscBuffer_slack.encoding made (by omega))
      (Spsc.spscBuffer_synchronizes made) run quiet enough
  · intro b ls s made run fuel enough
    obtain ⟨pos, rfl⟩ := MutexBuffer.construct_ok made
    exact Mutex.mutex_exact (MutexBuffer.holds_empty pos (by omega)) run enough

/-- A constructor throws, an element comes and goes, and the next one wraps and stays. -/
def throwThenWrap : List (Spsc.Label Nat) :=
  [.emplace 5, .producer 0, .producer 0, .throw,
    .tryEmplace 7, .producer 0, .producer 0, .producer 0, .producer 0,
    .front, .consumer 0, .consumer 0, .consumer 1, .consumer 0, .consumer 0, .read,
    .pop, .consumer 0, .consumer 1, .consumer 0, .consumer 0,
    .emplace 8, .producer 1, .producer 0, .producer 1, .producer 0, .producer 0, .producer 0,
    .producer 0]

/-- The same by two threads, of which one pops; its first move out of the buffer throws. -/
def throwThenPop : List (Mutex.Label Bool Nat) :=
  [.call true (.emplace 5), .lock true true, .call true (.emplace 7), .lock true false,
    .call false .tryPop, .lock false true, .call false .tryPop, .lock false false,
    .notify false none, .call true (.tryEmplace 8), .lock true false]

theorem lifetimes_exact_at_one :
    (∃ (s : Spsc.State Nat) (ds : List (Event Nat)) (d : Spsc.Buffer Nat),
      Spsc.drain (spscBuffer.ring .desktop 1) 2 s.toBuffer = .ok (ds, d) ∧
      d.consumed = s.pushed ∧
      Exact s.queue s.slots (trace (Spsc.step (spscBuffer.ring .desktop 1))
        (Spsc.slotEvents (spscBuffer.ring .desktop 1)) (Spsc.start Nat) throwThenWrap).flatten
        ds d.slots ∧ s.queue = [8]) ∧
    ∃ (s : Mutex.State Bool Nat) (ds : List (Event Nat)) (d : MutexBuffer Nat),
      s.buffer.drain 2 = some (ds, d) ∧
      Exact s.buffer.stored s.buffer.slots
        (trace (Mutex.step .desktop) Mutex.slotEvents (Mutex.start Bool (MutexBuffer.empty Nat 1))
          throwThenPop).flatten ds d.slots ∧ s.buffer.stored = [8] := by
  have exact_at_one := @lifetimes_exact Bool Nat _ _ .desktop 1 (by decide)
  constructor
  · obtain ⟨ds, d, drained, all, lived⟩ := exact_at_one.1 _ throwThenWrap _ rfl
      (Run.of_exec (by decide) (by decide)) ⟨rfl, rfl⟩ 2 (by decide)
    exact ⟨_, ds, d, drained, all, lived, by decide⟩
  · obtain ⟨ds, d, drained, _, lived⟩ := exact_at_one.2 _ throwThenPop _ rfl
      (Run.of_exec (by decide) (by decide)) 2 (by decide)
    exact ⟨_, ds, d, drained, lived, by decide⟩

end RingBuffers
