import Mathlib.Logic.Function.Basic
import RingBuffers.Library.Transition

/-! Lives of elements in a memory of slots. An element is constructed in a dead slot and
destroyed in a live one; once a slot is dead in the end, its events pair up into lives. -/
namespace Lifetime
open Transition

variable {α : Type*}

inductive Event (α : Type*) where
  | construct (i : Nat) (v : α)
  | destroy (i : Nat)
  deriving DecidableEq

def Event.slot : Event α → Nat
  | .construct i _ => i
  | .destroy i => i

inductive Lawful : (Nat → Option α) → Event α → (Nat → Option α) → Prop where
  | construct {memory : Nat → Option α} (i : Nat) (v : α) : memory i = none →
      Lawful memory (.construct i v) (Function.update memory i (some v))
  | destroy {memory : Nat → Option α} (i : Nat) (v : α) : memory i = some v →
      Lawful memory (.destroy i) (Function.update memory i none)

def eventsOf (i : Nat) (es : List (Event α)) : List (Event α) := es.filter (·.slot == i)

def lives (i : Nat) (vs : List α) : List (Event α) :=
  vs.flatMap fun v => [.construct i v, .destroy i]

/-- The destructions of `n` elements, the oldest first. -/
def sweep (index : Nat → Nat) (n : Nat) : List (Event α) :=
  (List.range n).map fun k => Event.destroy (index k)

/-- The events of a slot, from what lives in it to when it is dead. -/
def Lived (es : List (Event α)) (i : Nat) : Option α → Prop
  | none => ∃ vs, eventsOf i es = lives i vs
  | some _ => ∃ vs, eventsOf i es = .destroy i :: lives i vs

section Paths

variable {memory memory' : Nat → Option α} {es ds : List (Event α)}

theorem eventsOf_construct (i : Nat) (v : α) (es : List (Event α)) :
    eventsOf i (.construct i v :: es) = .construct i v :: eventsOf i es := by
  simp [eventsOf, Event.slot]

theorem eventsOf_destroy (i : Nat) (es : List (Event α)) :
    eventsOf i (.destroy i :: es) = .destroy i :: eventsOf i es := by
  simp [eventsOf, Event.slot]

theorem eventsOf_elsewhere {a : Event α} {i : Nat} (other : a.slot ≠ i) (es : List (Event α)) :
    eventsOf i (a :: es) = eventsOf i es := by
  simp [eventsOf, other]

/-- Every element of a lawful history is destroyed exactly once by the time its slot is dead. -/
theorem path_lived (path : Path Lawful memory es memory') (i : Nat) (dead : memory' i = none) :
    Lived es i (memory i) := by
  induction path with
  | nil memory =>
    rw [dead]
    exact ⟨[], rfl⟩
  | cons first _ ih =>
    have rest := ih dead
    cases first with
    | construct j v free =>
      by_cases here : j = i
      · subst here
        rw [Function.update_self] at rest
        obtain ⟨vs, eq⟩ := rest
        rw [free]
        refine ⟨v :: vs, ?_⟩
        rw [eventsOf_construct, eq]
        rfl
      · rw [Function.update_of_ne (Ne.symm here)] at rest
        have same := eventsOf_elsewhere (show (Event.construct j v).slot ≠ i from here)
        unfold Lived at rest ⊢
        rwa [same _]
    | destroy j v live =>
      by_cases here : j = i
      · subst here
        rw [Function.update_self] at rest
        obtain ⟨vs, eq⟩ := rest
        rw [live]
        exact ⟨vs, by rw [eventsOf_destroy, eq]⟩
      · rw [Function.update_of_ne (Ne.symm here)] at rest
        have same := eventsOf_elsewhere (show (Event.destroy j : Event α).slot ≠ i from here)
        unfold Lived at rest ⊢
        rwa [same _]

end Paths

/-- A history `es` that leaves `queue` in the memory, oldest first, and a destructor that then
performs `ds` and leaves `left`. -/
structure Exact (queue : List α) (memory : Nat → Option α) (es ds : List (Event α))
    (left : Nat → Option α) : Prop where
  lawful : Path Lawful (fun _ => none) es memory
  rounds : ds.length = queue.length
  oldestFirst : ∀ (k : Nat) v, queue[k]? = some v →
    ∃ i, ds[k]? = some (Event.destroy i) ∧ memory i = some v
  drains : Path Lawful memory ds left
  dead : ∀ i, left i = none
  once : ∀ i, ∃ vs, eventsOf i (es ++ ds) = lives i vs

theorem exact_of_sweep {queue : List α} {memory left : Nat → Option α} {es : List (Event α)}
    {index : Nat → Nat} (lawful : Path Lawful (fun _ => none) es memory)
    (drains : Path Lawful memory (sweep index queue.length) left) (dead : ∀ i, left i = none)
    (stored : ∀ (k : Nat) v, queue[k]? = some v → memory (index k) = some v) :
    Exact queue memory es (sweep index queue.length) left where
  lawful := lawful
  rounds := by simp [sweep]
  oldestFirst := by
    intro k v present
    have lt := (List.getElem?_eq_some_iff.mp present).1
    exact ⟨index k, by simp [sweep, List.getElem?_range lt], stored k v present⟩
  drains := drains
  dead := dead
  once := fun i => path_lived (lawful.append drains) i (dead i)

theorem sweep_from (index : Nat → Nat) (c n : Nat) :
    (sweep (fun k => index (c + k)) (n + 1) : List (Event α)) =
      .destroy (index c) :: sweep (fun k => index (c + 1 + k)) n := by
  simp only [sweep, List.range_succ_eq_map, List.map_cons, List.map_map, Nat.add_zero]
  congr 1
  apply List.map_congr_left
  intro k _
  rw [Function.comp_apply, Nat.succ_eq_add_one, Nat.add_assoc c 1 k, Nat.add_comm 1 k]

end Lifetime
