import Mathlib.Logic.Function.Basic
import RingBuffers.Library.Transition

/-! Takers of a common store that leave when they find it empty and afterwards see it closed.
The two looks are apart, so something may be put in between: the question is when the takers
have left the store empty. -/
namespace Departure
open Transition

/-- A taker is looking for an item, has found none and not yet looked for the closing, or has
left. -/
inductive Phase where
  | looking
  | missed
  | left
  deriving DecidableEq, Repr

@[ext] structure Store (C V : Type*) where
  closed : Bool
  items : List V
  phase : C → Phase

variable {C V : Type*} [DecidableEq C]

def Store.turns (s : Store C V) (c : C) (p : Phase) : Store C V :=
  { s with phase := Function.update s.phase c p }

inductive Step (s : Store C V) : Store C V → Prop where
  | stay : Step s s
  | put (v : V) : s.closed = false → Step s { s with items := s.items ++ [v] }
  | take (v : V) (rest : List V) (c : C) : s.phase c = .looking → s.items = v :: rest →
      Step s { s with items := rest }
  | miss (c : C) : s.phase c = .looking → s.items = [] → Step s (s.turns c .missed)
  | retry (c : C) : s.phase c = .missed → s.closed = false → Step s (s.turns c .looking)
  | leave (c : C) : s.phase c = .missed → s.closed = true → Step s (s.turns c .left)
  | close : s.closed = false → Step s { s with closed := true }

def Sound (s : Store C V) : Prop := ∀ c, s.phase c = .left → s.closed = true

/-- The store is closed and nobody will look for an item again. -/
structure Settled (s : Store C V) : Prop where
  closed : s.closed = true
  nobody : ∀ c, s.phase c ≠ .looking

/-- The store may be closed when it is empty or somebody is still looking. -/
def InTime (s : Store C V) : Prop := s.items = [] ∨ ∃ c, s.phase c = .looking

variable {s s' : Store C V}

theorem Step.of_eq {s'' : Store C V} (eq : s'' = s') (step : Step s s') : Step s s'' := eq ▸ step

theorem Step.sound (step : Step s s') (sound : Sound s) : Sound s' := by
  intro c left
  cases step with
  | miss d looking none_left | retry d missed shut =>
    by_cases same : c = d
    · subst same
      simp [Store.turns] at left
    · exact sound c (by simpa [Store.turns, same] using left)
  | leave d missed closed => exact closed
  | close shut => rfl
  | _ => exact sound c left

theorem Step.waits (step : Step s s') (unsettled : ¬ Settled s')
    (closing : s.closed ≠ s'.closed) : InTime s := by
  cases step with
  | close shut =>
    by_contra late
    refine unsettled ⟨rfl, fun c looking => late (.inr ⟨c, looking⟩)⟩
  | _ => exact absurd rfl closing

theorem Step.enters (step : Step s s') (unsettled : ¬ Settled s) (settled : Settled s') :
    s'.items = [] ↔ (s.closed ≠ s'.closed → InTime s) := by
  cases step with
  | stay => exact absurd settled unsettled
  | put v shut =>
    have closed := settled.closed
    rw [shut] at closed
    cases closed
  | take v rest c looking present => exact absurd looking (settled.nobody c)
  | miss c looking none_left =>
    exact ⟨fun _ closing => absurd rfl closing, fun _ => none_left⟩
  | retry c missed shut =>
    have closed := settled.closed
    rw [Store.turns, shut] at closed
    cases closed
  | leave c missed closed =>
    -- the store was settled already: the one that leaves was not looking
    refine absurd ⟨closed, fun d looking => ?_⟩ unsettled
    by_cases same : d = c
    · rw [same, missed] at looking
      cases looking
    · exact settled.nobody d (by simpa [Store.turns, same] using looking)
  | close shut =>
    -- nobody is looking any more, so a closing in time can only have met an empty store
    constructor
    · exact fun empty _ => .inl empty
    · intro in_time
      rcases in_time (by simp [shut]) with empty | ⟨c, looking⟩
      · exact empty
      · exact absurd looking (settled.nobody c)

theorem Step.stays (step : Step s s') (settled : Settled s) :
    Settled s' ∧ s'.items = s.items ∧ s.closed = s'.closed := by
  cases step with
  | stay => exact ⟨settled, rfl, rfl⟩
  | put v shut | close shut | retry c missed shut =>
    have closed := settled.closed
    rw [shut] at closed
    cases closed
  | take v rest c looking present | miss c looking none_left =>
    exact absurd looking (settled.nobody c)
  | leave c missed closed =>
    refine ⟨⟨closed, fun d => ?_⟩, rfl, rfl⟩
    by_cases same : d = c
    · subst same
      simp [Store.turns]
    · simpa [Store.turns, same] using settled.nobody d

/-- A system whose runs are runs of such a store: at a settled end the store is empty exactly
when it was closed in time. -/
theorem emptied_iff {S L : Type*} {step : S → L → Option S} {allowed : S → L → Prop}
    (I : S → Prop) (abs : S → Store C V) (closes : S → L → Prop)
    (preserved : ∀ s l t, I s → allowed s l → step s l = some t → I t)
    (simulated : ∀ s l t, I s → allowed s l → step s l = some t →
      Step (abs s) (abs t) ∧ (closes s l ↔ (abs s).closed ≠ (abs t).closed))
    {s t : S} {ls : List L} (initial : I s) (run : Run step allowed s ls t)
    (unsettled : ¬ Settled (abs s)) (settled : Settled (abs t)) :
    (abs t).items = [] ↔ Along step (fun s l => closes s l → InTime (abs s)) s ls := by
  refine (run.decided I (fun s => Settled (abs s)) (fun s => (abs s).items = [])
    (fun s l => closes s l → InTime (abs s)) preserved ?_ ?_ ?_ initial settled).2 unsettled
  · intro s l t inv admitted h waits closing
    obtain ⟨move, shuts⟩ := simulated s l t inv admitted h
    exact move.waits waits (shuts.mp closing)
  · intro s l t inv admitted h before after
    obtain ⟨move, shuts⟩ := simulated s l t inv admitted h
    rw [move.enters before after, shuts]
  · intro s l t inv admitted h before
    obtain ⟨move, shuts⟩ := simulated s l t inv admitted h
    obtain ⟨after, same, kept⟩ := move.stays before
    exact ⟨after, by rw [same], fun closing => absurd kept (shuts.mp closing)⟩

end Departure
