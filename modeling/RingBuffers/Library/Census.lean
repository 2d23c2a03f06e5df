import Mathlib.Algebra.BigOperators.Group.Finset.Basic
import Mathlib.Data.Fintype.BigOperators

/-! How many members of a finite population are in a given condition, when one member at
a time changes its condition. -/
namespace Census

variable {T P : Type*} [Fintype T]

def census (p : P → Bool) (f : T → P) : Nat := (Finset.univ.filter fun t => p (f t) = true).card

variable {p : P → Bool} {f : T → P}

theorem census_eq_sum (p : P → Bool) (f : T → P) : census p f = ∑ t, (p (f t)).toNat := by
  rw [census, Finset.card_filter]
  refine Finset.sum_congr rfl fun t _ => ?_
  cases p (f t) <;> rfl

/-- A weight summed over the population, when one member changes. -/
theorem total_update [DecidableEq T] (weight : P → Nat) (f : T → P) (t : T) (x : P) :
    ∑ u, weight (Function.update f t x u) + weight (f t) = ∑ u, weight (f u) + weight x := by
  have others : ∑ u ∈ Finset.univ.erase t, weight (Function.update f t x u) =
      ∑ u ∈ Finset.univ.erase t, weight (f u) := by
    refine Finset.sum_congr rfl fun u mem => ?_
    rw [Function.update_of_ne (Finset.ne_of_mem_erase mem)]
  rw [← Finset.add_sum_erase _ _ (Finset.mem_univ t),
    ← Finset.add_sum_erase _ (fun t => weight (f t)) (Finset.mem_univ t), others,
    Function.update_self]
  omega

theorem census_update [DecidableEq T] (p : P → Bool) (f : T → P) (t : T) (x : P) :
    census p (Function.update f t x) + (p (f t)).toNat = census p f + (p x).toNat := by
  rw [census_eq_sum, census_eq_sum]
  exact total_update (fun x => (p x).toNat) f t x

theorem census_congr {Q : Type*} {q : Q → Bool} {g : T → Q} (same : ∀ t, p (f t) = q (g t)) :
    census p f = census q g := by
  simp only [census, same]

theorem census_pos_iff : 0 < census p f ↔ ∃ t, p (f t) = true := by
  simp only [census, Finset.card_pos, Finset.Nonempty, Finset.mem_filter, Finset.mem_univ,
    true_and]

theorem census_eq_zero (none_holds : ∀ t, p (f t) = false) : census p f = 0 := by
  rw [census, Finset.card_eq_zero, Finset.filter_eq_empty_iff]
  intro t _ holds
  rw [none_holds t] at holds
  cases holds

end Census
