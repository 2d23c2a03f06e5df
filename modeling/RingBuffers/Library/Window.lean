import Mathlib.Data.List.Basic
import Mathlib.Data.List.Induction
import Mathlib.Logic.Function.Basic

/-! A sliding window of a history laid out in a memory of reusable cells. The
history only grows at its end, the window only gives up its oldest element, and
`index` says which cell the element of each ordinal occupies. -/
namespace Window

variable {α : Type*} {index : Nat → Nat} {memory : Nat → Option α} {xs : List α}
  {first width : Nat}

/-- Elements fewer than `width` ordinals apart never share a cell. -/
def Apart (index : Nat → Nat) (width : Nat) : Prop :=
  ∀ j k, j < k → k < j + width → index j ≠ index k

/-- The memory holds the elements from ordinal `first` onward and nothing else. -/
def Laid (index : Nat → Nat) (memory : Nat → Option α) (xs : List α) (first : Nat) : Prop :=
  ∀ i v, memory i = some v ↔ ∃ k, first ≤ k ∧ xs[k]? = some v ∧ index k = i

theorem apart_mod (n : Nat) : Apart (fun k => k % n) n := by
  intro j k lt near eq
  have dvd : n ∣ k - j := Nat.dvd_of_mod_eq_zero (Nat.sub_mod_eq_zero_of_mod_eq eq.symm)
  have le : n ≤ k - j := Nat.le_of_dvd (by omega) dvd
  omega

theorem mod_eq_iff {n j k : Nat} (le : j ≤ k) (near : k < j + n) : j % n = k % n ↔ j = k := by
  constructor
  · intro eq
    by_contra other
    exact apart_mod n j k (by omega) near eq
  · intro eq
    rw [eq]

theorem succ_mod_eq_iff {n j k : Nat} (le : j ≤ k) (near : k ≤ j + n) :
    (k + 1) % (n + 1) = j % (n + 1) ↔ k = j + n := by
  constructor
  · intro eq
    by_contra other
    exact apart_mod (n + 1) j (k + 1) (by omega) (by omega) eq.symm
  · rintro rfl
    rw [Nat.add_assoc, Nat.add_mod_right]

theorem succ_mod (k n : Nat) :
    (k + 1) % (n + 1) = if k % (n + 1) + 1 = n + 1 then 0 else k % (n + 1) + 1 := by
  have small : k % (n + 1) < n + 1 := Nat.mod_lt k (Nat.succ_pos n)
  by_cases wraps : k % (n + 1) + 1 = n + 1
  · rw [if_pos wraps, ← Nat.mod_add_mod, wraps, Nat.mod_self]
  · rw [if_neg wraps, ← Nat.mod_add_mod, Nat.mod_eq_of_lt (by omega)]

theorem Apart.shift (apart : Apart index width) (base : Nat) :
    Apart (fun k => base + index k) width := by
  intro j k lt near eq
  exact apart j k lt near (Nat.add_left_cancel eq)

theorem Apart.narrow {less : Nat} (apart : Apart index width) (le : less ≤ width) :
    Apart index less :=
  fun j k lt near => apart j k lt (by omega)

theorem filterMap_range_eq (xs : List α) (read : Nat → Option α)
    (reads : ∀ k, k < xs.length → read k = xs[k]?) :
    (List.range xs.length).filterMap read = xs := by
  induction xs using List.reverseRecOn with
  | nil => rfl
  | append_singleton xs v ih =>
    rw [List.length_append, List.length_singleton] at reads ⊢
    have last : read xs.length = some v := by simpa using reads xs.length (Nat.lt_succ_self _)
    have front : (List.range xs.length).filterMap read = xs := ih (fun k lt => by
      rw [reads k (Nat.lt_succ_of_lt lt), List.getElem?_append_left lt])
    rw [List.range_succ, List.filterMap_append, front, List.filterMap_cons_some last,
      List.filterMap_nil]

theorem laid_empty : Laid index (fun _ => none : Nat → Option α) [] 0 := by
  intro i v
  simp

theorem Laid.at (laid : Laid index memory xs first) {k : Nat} {v : α} (le : first ≤ k)
    (present : xs[k]? = some v) : memory (index k) = some v :=
  (laid (index k) v).mpr ⟨k, le, present, rfl⟩

theorem Laid.none_of (laid : Laid index memory xs first) {i : Nat}
    (free : ∀ k, first ≤ k → k < xs.length → index k ≠ i) : memory i = none := by
  cases occupied : memory i with
  | none => rfl
  | some v =>
    obtain ⟨k, le, present, at_i⟩ := (laid i v).mp occupied
    have lt : k < xs.length := (List.getElem?_eq_some_iff.mp present).1
    exact absurd at_i (free k le lt)

theorem Laid.vacant (laid : Laid index memory xs first) (apart : Apart index width)
    (room : xs.length < first + width) : memory (index xs.length) = none :=
  laid.none_of (fun k le lt => apart k xs.length lt (by omega))

theorem Laid.construct_free (laid : Laid index memory xs first) (fits : first ≤ xs.length)
    (free : ∀ k, first ≤ k → k < xs.length → index k ≠ index xs.length) (v : α) :
    Laid index (Function.update memory (index xs.length) (some v)) (xs ++ [v]) first := by
  intro i w
  by_cases here : i = index xs.length
  · subst here
    rw [Function.update_self]
    constructor
    · intro eq
      exact ⟨xs.length, fits, by simpa using eq, rfl⟩
    · rintro ⟨k, le, present, same⟩
      have bound : k < xs.length + 1 := by
        simpa using (List.getElem?_eq_some_iff.mp present).1
      have last : k = xs.length := by
        by_contra other
        exact free k le (by omega) same
      subst last
      simpa using present
  · rw [Function.update_of_ne here, laid i w]
    constructor
    · rintro ⟨k, le, present, at_i⟩
      have lt : k < xs.length := (List.getElem?_eq_some_iff.mp present).1
      exact ⟨k, le, by rw [List.getElem?_append_left lt]; exact present, at_i⟩
    · rintro ⟨k, le, present, at_i⟩
      have bound : k < xs.length + 1 := by
        simpa using (List.getElem?_eq_some_iff.mp present).1
      have lt : k < xs.length := by
        have other : k ≠ xs.length := fun eq => here (by rw [← at_i, eq])
        omega
      exact ⟨k, le, by rw [List.getElem?_append_left lt] at present; exact present, at_i⟩

theorem Laid.destroy_alone (laid : Laid index memory xs first)
    (alone : ∀ k, first < k → k < xs.length → index first ≠ index k) :
    Laid index (Function.update memory (index first) none) xs (first + 1) := by
  intro i w
  by_cases here : i = index first
  · subst here
    rw [Function.update_self]
    constructor
    · intro impossible
      cases impossible
    · rintro ⟨k, le, present, same⟩
      have lt : k < xs.length := (List.getElem?_eq_some_iff.mp present).1
      exact absurd same.symm (alone k (by omega) lt)
  · rw [Function.update_of_ne here, laid i w]
    constructor
    · rintro ⟨k, le, present, at_i⟩
      have other : k ≠ first := fun eq => here (by rw [← at_i, eq])
      exact ⟨k, by omega, present, at_i⟩
    · rintro ⟨k, le, present, at_i⟩
      exact ⟨k, by omega, present, at_i⟩

theorem Laid.construct (laid : Laid index memory xs first) (apart : Apart index width)
    (room : xs.length < first + width) (fits : first ≤ xs.length) (v : α) :
    Laid index (Function.update memory (index xs.length) (some v)) (xs ++ [v]) first :=
  laid.construct_free fits (fun k le lt => apart k xs.length lt (by omega)) v

theorem Laid.destroy (laid : Laid index memory xs first) (apart : Apart index width)
    (held : xs.length ≤ first + width) :
    Laid index (Function.update memory (index first) none) xs (first + 1) :=
  laid.destroy_alone (fun k gt lt => apart first k gt (by omega))

end Window
