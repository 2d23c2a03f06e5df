import Mathlib.Logic.Function.Basic

/-! A lock and the threads it admits one at a time. A thread is inside or outside by where it
is in its program; the discipline says that who is inside holds the lock. -/
namespace Exclusion

variable {T P : Type*} {inside : P → Bool} {owner : Option T} {place : T → P} {t u : T}

/-- The thread inside is the one that holds the lock. -/
def Exclusive (inside : P → Bool) (owner : Option T) (place : T → P) : Prop :=
  ∀ t, inside (place t) = true ↔ owner = some t

theorem Exclusive.unique (exclusive : Exclusive inside owner place)
    (mine : inside (place t) = true) (theirs : inside (place u) = true) : t = u := by
  have holds := (exclusive t).mp mine
  rw [(exclusive u).mp theirs] at holds
  exact (Option.some.inj holds).symm

theorem exclusive_start (outside : ∀ t, inside (place t) = false) :
    Exclusive inside none place := by
  intro t
  simp [outside t]

variable [DecidableEq T] {p : P}

theorem Exclusive.enter (exclusive : Exclusive inside owner place) (free : owner = none)
    (entered : inside p = true) : Exclusive inside (some t) (Function.update place t p) := by
  subst free
  intro u
  by_cases mine : u = t
  · subst mine
    simp [entered]
  · have outside := exclusive u
    simp only [reduceCtorEq, iff_false] at outside
    simp only [Function.update_of_ne mine, Option.some.injEq]
    exact ⟨fun inner => absurd inner outside, fun same => absurd same.symm mine⟩

theorem Exclusive.leave (exclusive : Exclusive inside owner place) (holds : owner = some t)
    (left : inside p = false) : Exclusive inside none (Function.update place t p) := by
  subst holds
  intro u
  by_cases mine : u = t
  · subst mine
    simp [left]
  · have outside := exclusive u
    simp only [Option.some.injEq] at outside
    simp only [Function.update_of_ne mine, reduceCtorEq, iff_false]
    exact fun inner => mine (outside.mp inner).symm

theorem Exclusive.stay (exclusive : Exclusive inside owner place)
    (same : inside p = inside (place t)) :
    Exclusive inside owner (Function.update place t p) := by
  intro u
  by_cases mine : u = t
  · subst mine
    rw [Function.update_self, same]
    exact exclusive u
  · rw [Function.update_of_ne mine]
    exact exclusive u

end Exclusion
