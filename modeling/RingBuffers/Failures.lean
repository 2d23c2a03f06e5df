import Mathlib.Data.Fintype.Basic
import RingBuffers.Spsc.Failure
import RingBuffers.Mutex.Failure

/-! Failing operations leave the queue as it was, in both designs. -/
namespace RingBuffers
open BoundedQueue Calls Lifetime Transition

variable {T α : Type}

/-- Between operations a push that throws or is refused changes nothing that a later call could
tell; in `SPSCBuffer` it refreshes at most `popCursorCache_`, in `MutexBuffer` it changes
nothing. A `try_pop` that throws leaves its element to be destroyed exactly once later. -/
theorem failures_leave_queue [DecidableEq T] [Fintype T] (env : Environment) (n : Nat)
    (fits : n + 1 + 2 * env.padding < sizeModulus) :
    (∀ (r : Ring) (ls : List (Spsc.Label α)) (s : Spsc.State α),
      spscBuffer.construct env n = .ok r →
      Run (Spsc.step r) (fun s l => Spsc.frontFirst s l = true) (Spsc.start α) ls s → s.quiet →
      Spsc.FailsSoftly r n s.session) ∧
    ∀ (b : MutexBuffer α) (ls : List (Mutex.Label T α)) (s : Mutex.State T α) (t : T),
      MutexBuffer.construct α env n = .ok b →
      Run (Mutex.step env) (fun s l => Mutex.nonemptyPop s l = true) (Mutex.start T b) ls s →
      s.thread t = .idle → Mutex.FailsSoftly env s t := by
  constructor
  · intro r ls s made run quiet
    have inv := Spsc.run_inv (spscBuffer_slack.encoding made (by omega))
      (Spsc.spscBuffer_synchronizes made) run
    exact (inv.session_represents quiet).failsSoftly (spscBuffer_slack.capacity_eq made fits)
  · intro b ls s t made run idle
    obtain ⟨pos, rfl⟩ := MutexBuffer.construct_ok made
    have holds : (MutexBuffer.empty α n).Holds n [] 0 := MutexBuffer.holds_empty pos (by omega)
    have inv := (Mutex.inv_start holds).run run
    exact inv.failsSoftly idle env

/-- The ring is full and the consumer has made room since: the cache is stale. -/
def staleCache : List (Spsc.Label Nat) :=
  [.tryEmplace 7, .producer 0, .producer 0, .producer 0, .producer 0,
    .front, .consumer 0, .consumer 0, .consumer 1, .consumer 0, .consumer 0, .read,
    .pop, .consumer 0, .consumer 1, .consumer 0, .consumer 0]

theorem failures_leave_queue_at_one :
    (∃ (s : Spsc.State Nat) (c : Nat),
      Spsc.operate (spscBuffer.ring .desktop 1) s.session (.throwing .emplace) =
        .ok (.threw, s.session.recache c) ∧
      Spsc.Indistinct (spscBuffer.ring .desktop 1) s.session (s.session.recache c)) ∧
    ∃ s : Mutex.State Bool Nat, Mutex.FailsSoftly .desktop s true ∧ s.buffer.stored = [7] := by
  have soft := @failures_leave_queue Bool Nat _ _ .desktop 1 (by decide)
  constructor
  · obtain ⟨c, fails, indistinct⟩ := (soft.1 _ staleCache _ rfl
      (Run.of_exec (by decide) (by decide)) ⟨rfl, rfl⟩).throws .emplace (by decide)
    exact ⟨_, c, fails, indistinct⟩
  · exact ⟨_, soft.2 _ [.call false (.emplace 7), .lock false false] _ true rfl
      (Run.of_exec (by decide) (by decide)) rfl, by decide⟩

end RingBuffers
