import RingBuffers.Spsc.MonoModulus
import RingBuffers.Spsc.Staleness

/-! The variants under two threads. What is known of the machine for one lawful encoding of
the cursors is known of every class but `SPSCBufferMonoModulus`, whose cursors lose count
when they wrap unless its `capacity_` divides 2^64. -/
namespace RingBuffers.Spsc
open Transition

variable {α : Type}

/-- The classes that are queues in runs of any length. -/
def queueClasses : List Class := spscBufferMonoBitmask :: slackClasses

theorem queueClasses_synchronize {c : Class} (member : c ∈ queueClasses) :
    c.other.acquires = true ∧ c.store.releases = true := by
  have all : ∀ c ∈ queueClasses, c.other.acquires = true ∧ c.store.releases = true := by decide
  exact all c member

theorem queue_encoding {c : Class} (member : c ∈ queueClasses) {env : Environment} {n : Nat}
    {r : Ring} (made : c.construct env n = .ok r) (fits : c.Fits env n) :
    ∃ e : Encoding r, e.bound = r.capacity ∧ n ≤ r.capacity ∧ Synchronizes r := by
  have sync : Synchronizes r := by
    obtain ⟨acquires, releases⟩ := queueClasses_synchronize member
    rw [(construct_ok made).2.2]
    exact ⟨acquires, releases⟩
  rcases List.mem_cons.mp member with rfl | slack
  · have masked := masked_of_construct made
    have capacity := masked.capacity_eq
    refine ⟨masked.encoding, capacity.symm, ?_, sync⟩
    rw [capacity]
    exact le_bitCeil n
  · have kind := slackClasses_slack c slack
    have capacity := kind.capacity_eq made fits
    exact ⟨kind.encoding made fits.capacity, capacity.symm, capacity.ge, sync⟩

/-- Every class is linearizable when no load is stale and safe when loads are: under two
threads each variant is a queue of `capacity()` elements, which is what was asked for or, for
the class with the mask, more. -/
theorem spsc_classes_queue (c : Class) (member : c ∈ queueClasses) (env : Environment) (n : Nat)
    (r : Ring) (made : c.construct env n = .ok r) (fits : c.Fits env n) :
    n ≤ r.capacity ∧
      (∀ (ls : List (Label α)) s,
        Run (step r) (fun s l => newest s l = true ∧ frontFirst s l = true) (start α) ls s →
        Linearizes r r.capacity ls s) ∧
      ∀ (ls : List (Label α)) s,
        Run (step r) (fun s l => frontFirst s l = true) (start α) ls s → StaleSafe r s := by
  obtain ⟨e, bound, enough, sync⟩ := queue_encoding member made fits
  refine ⟨enough, ?_, ?_⟩
  · intro ls s run
    rw [← bound]
    exact linearizes e sync ls s run
  · intro ls s run
    exact (run_inv e sync run).staleSafe

theorem spsc_classes_queue_at_one :
    ∃ s : State Nat, Linearizes (spscBufferBaseline.ring .desktop 1) 1
        [.tryEmplace 7, .producer 0, .producer 0, .producer 0, .producer 0, .producer 0] s ∧
      s.queue = [7] :=
  have queue := (spsc_classes_queue spscBufferBaseline (by simp [queueClasses, slackClasses])
    .desktop 1 _ rfl (by decide)).2.1
  ⟨_, queue _ _ (Run.of_exec (by decide) (by decide)), by decide⟩

section Remainders

variable {m : Nat} {r : Ring}

theorem Remainder.full_iff (shape : Remainder m r) (c p : Nat) (le : c ≤ p) (near : p ≤ c + m) :
    r.full (p % sizeModulus) ((p + 1) % sizeModulus) (c % sizeModulus) = true ↔ p = c + m := by
  have small := shape.small
  simp only [Ring.full, shape.cursors, shape.capacity, decide_eq_true_eq]
  rw [sizeSub_mod le (by omega)]
  omega

theorem Remainder.empty_iff (shape : Remainder m r) (c p : Nat) (le : c ≤ p) (near : p ≤ c + m) :
    c % sizeModulus = p % sizeModulus ↔ c = p := by
  have small := shape.small
  exact wrapped_eq_iff le (by omega)

/-- When `capacity_` divides 2^64 the remainders do not jump. -/
theorem wrappedSlot_apart (divides : m ∣ sizeModulus) : Window.Apart (wrappedSlot m) m := by
  intro j k lt near
  simp only [wrappedSlot, Nat.mod_mod_of_dvd _ divides]
  exact Window.apart_mod m j k lt near

def Remainder.encoding (shape : Remainder m r) (divides : m ∣ sizeModulus) : Encoding r where
  bound := m
  cursor k := k % sizeModulus
  index := wrappedSlot m
  bound_pos := shape.pos
  cursor_zero := Nat.zero_mod _
  next_cursor := shape.next_wrapped
  full_iff := shape.full_iff
  empty_iff := shape.empty_iff
  slot_cursor := shape.slot_wrapped
  apart := wrappedSlot_apart divides

end Remainders

/-- Under two threads `SPSCBufferMonoModulus(n)` is, in runs of any length, a queue of one
element more than its `capacity()`, as long as n + 1 is a power of two. -/
theorem mono_modulus_queue (env : Environment) (n : Nat) (r : Ring)
    (made : spscBufferMonoModulus.construct env n = .ok r) (fits : n + 1 < sizeModulus)
    (divides : n + 1 ∣ sizeModulus) :
    r.capacity = n ∧
      (∀ (ls : List (Label α)) s,
        Run (step r) (fun s l => newest s l = true ∧ frontFirst s l = true) (start α) ls s →
        Linearizes r (n + 1) ls s) ∧
      ∀ (ls : List (Label α)) s,
        Run (step r) (fun s l => frontFirst s l = true) (start α) ls s → StaleSafe r s := by
  have shape := remainder_of_construct made fits
  have sync : Synchronizes r := by
    rw [(construct_ok made).2.2]
    exact ⟨rfl, rfl⟩
  refine ⟨?_, fun ls s run => linearizes (shape.encoding divides) sync ls s run,
    fun ls s run => (run_inv (shape.encoding divides) sync run).staleSafe⟩
  simp only [Ring.capacity, shape.cursors, shape.capacity, sizeSub, sizeModulus] at fits ⊢
  omega

theorem mono_modulus_queue_at_one :
    ∃ s : State Nat, Linearizes (spscBufferMonoModulus.ring .desktop 1) 2
        [.tryEmplace 7, .producer 0, .producer 0, .producer 0, .producer 0, .producer 0,
          .tryEmplace 8, .producer 1, .producer 0, .producer 0, .producer 0, .producer 0] s ∧
      s.queue = [7, 8] :=
  have queue := (mono_modulus_queue .desktop 1 _ rfl (by decide) (by decide)).2.1
  ⟨_, queue _ _ (Run.of_exec (by decide) (by decide)), by decide⟩

end RingBuffers.Spsc
