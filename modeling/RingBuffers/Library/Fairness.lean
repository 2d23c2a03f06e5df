import Mathlib.Order.Filter.AtTopBot.Basic
import Mathlib.Order.Filter.Finite
import RingBuffers.Library.Transition

/-! Runs that never end. A machine at rest stays where it is, so that a run that stops is
one that does nothing from some time on. Fairness says that who can always take a step takes
one; a rank that its steps lower and no step raises then shows that it cannot always. -/
namespace Fairness
open Transition

variable {S L : Type*} {step : S → L → Option S} {allowed : S → L → Prop}

/-- From one instant to the next: a step that the policy admits, or nothing. -/
def Goes (step : S → L → Option S) (allowed : S → L → Prop) (s : S) : Option L → S → Prop
  | none, t => t = s
  | some l, t => allowed s l ∧ step s l = some t

def Behavior (step : S → L → Option S) (allowed : S → L → Prop) (σ : Nat → S)
    (ls : Nat → Option L) : Prop :=
  ∀ i, Goes step allowed (σ i) (ls i) (σ (i + 1))

def Enabled (step : S → L → Option S) (allowed : S → L → Prop) (mine : L → Prop) (s : S) : Prop :=
  ∃ l t, mine l ∧ allowed s l ∧ step s l = some t

/-- Weak fairness: who is enabled from some time on takes a step. -/
def Fair (step : S → L → Option S) (allowed : S → L → Prop) (mine : L → Prop) (σ : Nat → S)
    (ls : Nat → Option L) : Prop :=
  ∀ i, (∀ j, i ≤ j → Enabled step allowed mine (σ j)) → ∃ j l, i ≤ j ∧ ls j = some l ∧ mine l

variable {σ : Nat → S} {ls : Nat → Option L} {mine : L → Prop}

theorem Behavior.step_at (behavior : Behavior step allowed σ ls) {i : Nat} {l : L}
    (taken : ls i = some l) : allowed (σ i) l ∧ step (σ i) l = some (σ (i + 1)) := by
  have goes := behavior i
  rw [taken] at goes
  exact goes

theorem Behavior.rest_at (behavior : Behavior step allowed σ ls) {i : Nat}
    (rests : ls i = none) : σ (i + 1) = σ i := by
  have goes := behavior i
  rw [rests] at goes
  exact goes

theorem Behavior.invariant (behavior : Behavior step allowed σ ls) (I : S → Prop)
    (preserved : ∀ s l t, I s → allowed s l → step s l = some t → I t) (initial : I (σ 0))
    (i : Nat) : I (σ i) := by
  induction i with
  | zero => exact initial
  | succ i ih =>
    cases taken : ls i with
    | none =>
      rw [behavior.rest_at taken]
      exact ih
    | some l =>
      obtain ⟨admitted, moved⟩ := behavior.step_at taken
      exact preserved _ l _ ih admitted moved

theorem Behavior.stays (behavior : Behavior step allowed σ ls) (P : S → Prop) {i : Nat}
    (preserved : ∀ j l, i ≤ j → ls j = some l → P (σ j) → P (σ (j + 1))) (now : P (σ i))
    {j : Nat} (le : i ≤ j) : P (σ j) := by
  induction j, le using Nat.le_induction with
  | base => exact now
  | succ j le ih =>
    cases taken : ls j with
    | none =>
      rw [behavior.rest_at taken]
      exact ih
    | some l => exact preserved j l le taken ih

theorem settles_down (f : Nat → Nat) (m : Nat) (falls : ∀ i, m ≤ i → f (i + 1) ≤ f i) :
    ∃ k, m ≤ k ∧ ∀ j, k ≤ j → f j = f k := by
  have antitone : AntitoneOn f (Set.Ici m) := antitoneOn_nat_Ici_of_succ_le falls
  have later : (Set.Ici m).Nonempty := ⟨m, Set.self_mem_Ici⟩
  have first : m ≤ Function.argminOn f (Set.Ici m) later := Function.argminOn_mem f _ later
  refine ⟨_, first, fun j le => Nat.le_antisymm (antitone first (first.trans le) le) ?_⟩
  exact Function.argminOn_le f _ (first.trans le)

theorem settles (f : Nat → Nat) (bound : Nat) (grows : ∀ i, f i ≤ f (i + 1))
    (bounded : ∀ i, f i ≤ bound) : ∃ i, ∀ j, i ≤ j → f j = f i := by
  obtain ⟨k, _, same⟩ := settles_down (fun i => bound - f i) 0 fun i _ =>
    Nat.sub_le_sub_left (grows i) bound
  refine ⟨k, fun j le => ?_⟩
  have left := same j le
  have limit := bounded j
  have limit' := bounded k
  omega

theorem Behavior.settles (behavior : Behavior step allowed σ ls) (f : S → Nat) (bound : Nat)
    (I : S → Prop) (always : ∀ i, I (σ i))
    (grows : ∀ s l t, I s → allowed s l → step s l = some t → f s ≤ f t)
    (bounded : ∀ s, I s → f s ≤ bound) : ∃ i, ∀ j, i ≤ j → f (σ j) = f (σ i) := by
  refine Fairness.settles (fun i => f (σ i)) bound (fun i => ?_) (fun i => bounded _ (always i))
  cases taken : ls i with
  | none => rw [behavior.rest_at taken]
  | some l =>
    obtain ⟨admitted, moved⟩ := behavior.step_at taken
    exact grows _ l _ (always i) admitted moved

/-- The ranking rule: a rank that every own step lowers, and no step raises, runs out, so
nobody is enabled for ever. -/
theorem Fair.exhausts (fair : Fair step allowed mine σ ls)
    (behavior : Behavior step allowed σ ls) (rank : S → Nat) (i : Nat)
    (enabled : ∀ j, i ≤ j → Enabled step allowed mine (σ j))
    (lowers : ∀ j l, i ≤ j → ls j = some l → mine l → rank (σ (j + 1)) < rank (σ j))
    (keeps : ∀ j l, i ≤ j → ls j = some l → ¬ mine l → rank (σ (j + 1)) ≤ rank (σ j)) :
    False := by
  have falls : ∀ j, i ≤ j → rank (σ (j + 1)) ≤ rank (σ j) := by
    intro j le
    cases taken : ls j with
    | none => rw [behavior.rest_at taken]
    | some l =>
      by_cases own : mine l
      · exact Nat.le_of_lt (lowers j l le taken own)
      · exact keeps j l le taken own
  obtain ⟨k, le, same⟩ := settles_down (fun j => rank (σ j)) i falls
  obtain ⟨j, l, later, taken, own⟩ := fair k fun j after => enabled j (le.trans after)
  have lower := lowers j l (le.trans later) taken own
  rw [same (j + 1) (by omega), same j later] at lower
  exact Nat.lt_irrefl _ lower

/-- Who is enabled as long as `P` holds, and only whose own steps can end `P`, takes a step
in `P`. -/
theorem Fair.acts (fair : Fair step allowed mine σ ls) (behavior : Behavior step allowed σ ls)
    (P : S → Prop) {i : Nat} (now : P (σ i))
    (enabled : ∀ j, i ≤ j → P (σ j) → Enabled step allowed mine (σ j))
    (keeps : ∀ j l, i ≤ j → ls j = some l → ¬ mine l → P (σ j) → P (σ (j + 1))) :
    ∃ j l, i ≤ j ∧ ls j = some l ∧ mine l ∧ P (σ j) := by
  by_contra idle
  push Not at idle
  have always : ∀ j, i ≤ j → P (σ j) := fun j le =>
    behavior.stays P (fun k l after taken holds =>
      keeps k l after taken (fun own => idle k l after taken own holds) holds) now le
  obtain ⟨j, l, le, taken, own⟩ := fair i fun j le => enabled j le (always j le)
  exact idle j l le taken own (always j le)

theorem together {T : Type*} [Finite T] {P : T → Nat → Prop}
    (each : ∀ t, ∃ n, ∀ j, n ≤ j → P t j) : ∃ n, ∀ j, n ≤ j → ∀ t, P t j := by
  have eventually : ∀ t, ∀ᶠ j in Filter.atTop, P t j :=
    fun t => Filter.eventually_atTop.mpr (each t)
  exact Filter.eventually_atTop.mp (Filter.eventually_all.mpr eventually)

section Finite

/-- The states of a finite run, the last one repeated for ever. -/
def states (step : S → L → Option S) : S → List L → Nat → S
  | s, [], _ => s
  | s, _ :: _, 0 => s
  | s, l :: ks, i + 1 => match step s l with
    | none => s
    | some t => states step t ks i

theorem states_zero (s : S) (ks : List L) : states step s ks 0 = s := by
  cases ks <;> rfl

variable {s t : S} {ks : List L}

theorem states_of_le (run : Run step allowed s ks t) {i : Nat} (le : ks.length ≤ i) :
    states step s ks i = t := by
  induction ks generalizing s i with
  | nil => exact (run_nil s t).mp run
  | cons k ks ih =>
    obtain ⟨_, u, moved, rest⟩ := (run_cons s t k ks).mp run
    cases i with
    | zero => cases le
    | succ i =>
      simp only [states, moved]
      exact ih rest (Nat.le_of_succ_le_succ le)

theorem behavior_of_run (run : Run step allowed s ks t) :
    Behavior step allowed (states step s ks) (fun i => ks[i]?) := by
  induction ks generalizing s with
  | nil => exact fun _ => rfl
  | cons k ks ih =>
    obtain ⟨admitted, u, moved, rest⟩ := (run_cons s t k ks).mp run
    intro i
    cases i with
    | zero =>
      refine ⟨admitted, ?_⟩
      simp only [states, moved, states_zero]
    | succ i =>
      have later := ih rest i
      simpa only [states, moved, List.getElem?_cons_succ] using later

theorem fair_of_run (run : Run step allowed s ks t) (done : ¬ Enabled step allowed mine t) :
    Fair step allowed mine (states step s ks) (fun i => ks[i]?) := by
  intro i enabled
  refine absurd (enabled (i + ks.length) (Nat.le_add_right _ _)) ?_
  rw [states_of_le run (Nat.le_add_left _ _)]
  exact done

end Finite

end Fairness
