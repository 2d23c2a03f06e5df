import RingBuffers.Spsc.Footprint
import RingBuffers.Spsc.Linearizable

/-! Cursors that only count up and wrap at the end of `std::size_t`. Differences of wrapped
cursors are true differences while fewer than 2^64 elements are stored. A power of two divides
2^64, so masking a wrapped cursor gives the slot of the ordinal it stands for: the class with
the mask is a queue for runs of any length. -/
namespace RingBuffers

section Arithmetic

theorem sizeAdd_mod (k : Nat) : sizeAdd (k % sizeModulus) 1 = (k + 1) % sizeModulus :=
  Nat.mod_add_mod k sizeModulus 1

theorem sizeSub_mod {c p : Nat} (le : c ≤ p) (near : p - c < sizeModulus) :
    sizeSub (p % sizeModulus) (c % sizeModulus) = p - c := by
  simp only [sizeSub, sizeModulus] at near ⊢
  omega

theorem wrapped_eq_iff {c p : Nat} (le : c ≤ p) (near : p - c < sizeModulus) :
    c % sizeModulus = p % sizeModulus ↔ c = p := by
  simp only [sizeModulus] at near ⊢
  omega

theorem le_bitCeil (n : Nat) : n ≤ bitCeil n := Nat.le_pow_clog (by decide) n

theorem bitCeil_pos (n : Nat) : 0 < bitCeil n := Nat.two_pow_pos _

theorem bitCeil_le {n : Nat} (small : n ≤ 2 ^ 63) : bitCeil n ≤ 2 ^ 63 := by
  unfold bitCeil
  apply Nat.pow_le_pow_right (by decide)
  exact Nat.clog_le_of_le_pow small

theorem bitCeil_dvd {n : Nat} (small : n ≤ 2 ^ 63) : bitCeil n ∣ sizeModulus := by
  unfold bitCeil
  apply Nat.pow_dvd_pow
  have exponent : Nat.clog 2 n ≤ 63 := Nat.clog_le_of_le_pow small
  omega

theorem mask_bitCeil (n cursor : Nat) : cursor &&& (bitCeil n - 1) = cursor % bitCeil n :=
  Nat.and_two_pow_sub_one_eq_mod cursor (Nat.clog 2 n)

end Arithmetic

section Bitmask

variable {env : Environment} {n : Nat} {r : Ring}

structure Masked (n : Nat) (r : Ring) : Prop where
  cursors : r.cursors = .monoBitmask
  small : n ≤ 2 ^ 63
  capacity : r.capacity_ = bitCeil n
  bitmask : r.bitmask_ = bitCeil n - 1
  base : r.base = 0

theorem masked_of_construct (made : spscBufferMonoBitmask.construct env n = .ok r) :
    Masked n r := by
  have small : n ≤ 2 ^ 63 := by
    unfold Class.construct at made
    split at made
    · cases made
    · split at made
      · cases made
      · rename_i representable
        have kind : spscBufferMonoBitmask.cursors = .monoBitmask := rfl
        exact Nat.le_of_not_gt fun large => representable ⟨kind, large⟩
  have pos := bitCeil_pos n
  have bound := bitCeil_le small
  have mask : sizeSub (bitCeil n) 1 = bitCeil n - 1 := by
    simp only [sizeSub, sizeModulus]
    omega
  rw [(construct_ok made).2.2]
  exact ⟨rfl, small, rfl, mask, rfl⟩

theorem Masked.slot_eq (masked : Masked n r) (cursor : Nat) :
    r.slot cursor = some (cursor % bitCeil n) := by
  simp only [Ring.slot, masked.cursors, masked.base, masked.bitmask, mask_bitCeil, Nat.zero_add]

theorem Masked.slot_wrapped (masked : Masked n r) (k : Nat) :
    r.slot (k % sizeModulus) = some (k % bitCeil n) := by
  rw [masked.slot_eq, Nat.mod_mod_of_dvd k (bitCeil_dvd masked.small)]

theorem Masked.mask_wrapped (masked : Masked n r) (k : Nat) :
    (k % sizeModulus) &&& r.bitmask_ = k % bitCeil n := by
  rw [masked.bitmask, mask_bitCeil, Nat.mod_mod_of_dvd k (bitCeil_dvd masked.small)]

theorem Masked.capacity_eq (masked : Masked n r) : r.capacity = bitCeil n := by
  rw [Ring.capacity, masked.cursors, masked.capacity]

theorem Masked.full_iff (masked : Masked n r) (c p : Nat) (le : c ≤ p)
    (near : p ≤ c + bitCeil n) :
    r.full (p % sizeModulus) ((p + 1) % sizeModulus) (c % sizeModulus) = true ↔
      p = c + bitCeil n := by
  have bound := bitCeil_le masked.small
  have small : p - c < sizeModulus := by
    simp only [sizeModulus]
    omega
  rw [Ring.full, masked.cursors, masked.capacity]
  simp only [sizeSub_mod le small, decide_eq_true_eq]
  omega

theorem Masked.empty_iff (masked : Masked n r) (c p : Nat) (le : c ≤ p)
    (near : p ≤ c + bitCeil n) : c % sizeModulus = p % sizeModulus ↔ c = p := by
  have bound := bitCeil_le masked.small
  apply wrapped_eq_iff le
  simp only [sizeModulus]
  omega

theorem Masked.next_eq (masked : Masked n r) (k : Nat) :
    r.next (k % sizeModulus) = some ((k + 1) % sizeModulus) := by
  rw [Ring.next, masked.cursors]
  exact congrArg some (sizeAdd_mod k)

def Masked.encoding (masked : Masked n r) : Encoding r where
  bound := bitCeil n
  cursor k := k % sizeModulus
  index k := k % bitCeil n
  bound_pos := bitCeil_pos n
  cursor_zero := Nat.zero_mod _
  next_cursor := masked.next_eq
  full_iff := masked.full_iff
  empty_iff := masked.empty_iff
  slot_cursor := masked.slot_wrapped
  apart := Window.apart_mod _

end Bitmask

namespace Spsc
open ReleaseAcquire Transition

variable {α : Type} {env : Environment} {n : Nat} {r : Ring}

/-- What holds of a run `ls` of the masked class to `s`: it is a run of the queue bounded by
`capacity()`, which is no less than what was asked for; every slot accessed or changed lies in
the allocation; and each stored element lies in the slot of its own masked cursor. -/
structure BitmaskFifo (n : Nat) (r : Ring) (ls : List (Label α)) (s : State α) : Prop where
  capacity : n ≤ r.capacity
  linearizes : Linearizes r r.capacity ls s
  inside : Along (step r) (fun u l => ∀ i, accesses r u l = some i → i < r.capacity_)
    (start α) ls
  changes : Along (step r) (fun u l => ∀ t i, step r u l = some t → t.slots i ≠ u.slots i →
    i < r.capacity_) (start α) ls
  masks : ∀ cursor, cursor &&& r.bitmask_ < r.capacity_
  stored : ∀ k v, s.torn ≤ k → s.pushed[k]? = some v →
    s.slots ((k % sizeModulus) &&& r.bitmask_) = some v
  distinct : ∀ j k, s.consumed.length ≤ j → j < k → k < s.pushed.length →
    (j % sizeModulus) &&& r.bitmask_ ≠ (k % sizeModulus) &&& r.bitmask_

theorem access_lt (masked : Masked n r) {s : State α} (inv : Inv masked.encoding s)
    (l : Label α) (i : Nat) (access : accesses r s l = some i) : i < r.capacity_ := by
  have pos : 0 < bitCeil n := Nat.two_pow_pos _
  have slot : ∀ cursor j, r.slot cursor = some j → j < r.capacity_ := by
    intro cursor j at_j
    rw [masked.slot_eq] at at_j
    rw [← Option.some.inj at_j, masked.capacity]
    exact Nat.mod_lt _ pos
  cases l with
  | producer k | throw =>
    simp only [accesses] at access
    split at access
    · exact slot _ _ access
    · cases access
  | consumer k =>
    simp only [accesses] at access
    split at access
    · exact slot _ _ access
    · cases access
  | read =>
    rw [(inv.held i access).2, masked.capacity]
    exact Nat.mod_lt _ pos
  | _ => cases access

/-- `SPSCBufferMonoBitmask` is a bounded queue in runs of any length, also when its cursors
wrap: under every interleaving it has room for exactly `capacity()` elements. -/
theorem mono_bitmask_fifo (env : Environment) (bufferSize : Nat) (r : Ring)
    (made : spscBufferMonoBitmask.construct env bufferSize = .ok r)
    (ls : List (Label α)) (s : State α)
    (run : Run (step r) (fun s l => newest s l = true ∧ frontFirst s l = true) (start α) ls s) :
    BitmaskFifo bufferSize r ls s := by
  have masked := masked_of_construct made
  have sync : Synchronizes r := by
    rw [(construct_ok made).2.2]
    exact ⟨rfl, rfl⟩
  have preserved : ∀ (s : State α) l t, Inv masked.encoding s →
      newest s l = true ∧ frontFirst s l = true → step r s l = some t → Inv masked.encoding t :=
    fun _ _ _ inv admitted h => step_inv sync inv admitted.2 h
  have inv := run.invariant (Inv masked.encoding) preserved (inv_start _)
  have bounded := inv.bounded
  exact {
    capacity := by
      rw [masked.capacity_eq]
      exact le_bitCeil bufferSize
    linearizes := by
      rw [masked.capacity_eq]
      exact linearizes masked.encoding sync ls s run
    inside := run.along (Inv masked.encoding) _ preserved
      (fun _ l _ inv _ _ i access => access_lt masked inv l i access) (inv_start _)
    changes := run.along (Inv masked.encoding) _ preserved
      (fun _ l _ inv _ _ _ i h changed => access_lt masked inv l i (step_changes h changed))
      (inv_start _)
    masks := by
      intro cursor
      rw [masked.bitmask, mask_bitCeil, masked.capacity]
      exact Nat.mod_lt _ (Nat.two_pow_pos _)
    stored := by
      intro k v alive present
      rw [masked.mask_wrapped]
      apply inv.laid.at alive
      have lt := (List.getElem?_eq_some_iff.mp present).1
      rw [State.built, List.getElem?_append_left lt, present]
    distinct := by
      intro j k first lt last
      rw [masked.mask_wrapped, masked.mask_wrapped]
      have near : k < j + bitCeil bufferSize := by
        change s.pushed.length ≤ s.consumed.length + bitCeil bufferSize at bounded
        omega
      exact Window.apart_mod _ j k lt near }

/-- A buffer asked for three elements holds four, and refuses a fifth. -/
def filledToCapacity : List (Label Nat) :=
  [.tryEmplace 1, .producer 0, .producer 0, .producer 0, .producer 0, .producer 0,
    .tryEmplace 2, .producer 1, .producer 0, .producer 0, .producer 0, .producer 0,
    .emplace 3, .producer 2, .producer 0, .producer 0, .producer 0, .producer 0,
    .emplace 4, .producer 3, .producer 0, .producer 0, .producer 0, .producer 0,
    .tryEmplace 5, .producer 4, .producer 0, .producer 0]

theorem mono_bitmask_fifo_at_three : ∃ s : State Nat,
    BitmaskFifo 3 (spscBufferMonoBitmask.ring .desktop 3) filledToCapacity s ∧
      s.pushed = [1, 2, 3, 4] ∧ s.pushResult = some .full :=
  ⟨_, mono_bitmask_fifo .desktop 3 _ rfl filledToCapacity _
    (Run.of_exec (by decide) (by decide)), by decide, by decide⟩

end Spsc

end RingBuffers
