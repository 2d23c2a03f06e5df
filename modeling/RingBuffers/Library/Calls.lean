import RingBuffers.Library.Transition

/-! Sequences of calls on a store, one after the other. A call answers and leaves a store
behind, or does not return. -/
namespace Calls
open Transition

variable {B C K A E : Type*}

/-- The answers to a sequence of calls and the store they leave, if all of them return. -/
def serve (perform : B → K → Except E (A × B)) : B → List K → Except E (List A × B)
  | b, [] => .ok ([], b)
  | b, k :: ks => match perform b k with
    | .error stop => .error stop
    | .ok (a, c) => match serve perform c ks with
      | .error stop => .error stop
      | .ok (as, d) => .ok (a :: as, d)

def next (perform : B → K → Except E (A × B)) (b : B) (k : K) : Option B :=
  (perform b k).toOption.map Prod.snd

section Rules

variable {perform : B → K → Except E (A × B)} {perform' : C → K → Except E (A × C)}

theorem serve_stops {b : B} {k : K} {stop : E} (first : perform b k = .error stop) (ks : List K) :
    serve perform b (k :: ks) = .error stop := by
  simp only [serve, first]

theorem serve_goes {b c : B} {k : K} {a : A} (first : perform b k = .ok (a, c)) (ks : List K) :
    (serve perform b (k :: ks)).map Prod.fst =
      ((serve perform c ks).map Prod.fst).map (a :: ·) := by
  simp only [serve, first]
  cases serve perform c ks <;> rfl

theorem serve_cons (b d : B) (k : K) (ks : List K) (as : List A) :
    serve perform b (k :: ks) = .ok (as, d) ↔
      ∃ a c rest, perform b k = .ok (a, c) ∧ serve perform c ks = .ok (rest, d) ∧
        as = a :: rest := by
  cases first : perform b k with
  | error stop => simp [serve, first]
  | ok x =>
    obtain ⟨a, c⟩ := x
    cases tail : serve perform c ks with
    | error stop =>
      simp only [serve, first, tail]
      constructor
      · intro impossible
        cases impossible
      · rintro ⟨_, _, _, eq, tail', _⟩
        cases eq
        rw [tail] at tail'
        cases tail'
    | ok y =>
      simp only [serve, first, tail]
      constructor
      · intro done
        cases done
        exact ⟨a, c, y.1, rfl, tail, rfl⟩
      · rintro ⟨_, _, _, eq, tail', rfl⟩
        cases eq
        rw [tail] at tail'
        cases tail'
        rfl

theorem serve_append (b d : B) (ks ls : List K) (as : List A) :
    serve perform b (ks ++ ls) = .ok (as, d) ↔
      ∃ xs c ys, serve perform b ks = .ok (xs, c) ∧ serve perform c ls = .ok (ys, d) ∧
        as = xs ++ ys := by
  induction ks generalizing b as with
  | nil =>
    constructor
    · intro rest
      exact ⟨[], b, as, rfl, rest, rfl⟩
    · rintro ⟨xs, c, ys, first, rest, rfl⟩
      cases first
      exact rest
  | cons k ks ih =>
    simp only [List.cons_append, serve_cons, ih]
    constructor
    · rintro ⟨a, c, _, now, ⟨xs, c', ys, first, rest, rfl⟩, rfl⟩
      exact ⟨a :: xs, c', ys, ⟨a, c, xs, now, first, rfl⟩, rest, rfl⟩
    · rintro ⟨_, c', ys, ⟨a, c, xs, now, first, rfl⟩, rest, rfl⟩
      exact ⟨a, c, xs ++ ys, now, ⟨xs, c', ys, first, rest, rfl⟩, rfl⟩

theorem serve_path {b c : B} {xs : List (K × Option A)}
    (path : Path (fun b x c => ∃ a, x.2 = some a ∧ perform b x.1 = .ok (a, c)) b xs c) :
    ∃ as, serve perform b (xs.map Prod.fst) = .ok (as, c) ∧ xs.map Prod.snd = as.map some := by
  induction path with
  | nil b => exact ⟨[], rfl, rfl⟩
  | cons first _ ih =>
    obtain ⟨a, told, performed⟩ := first
    obtain ⟨as, served, rest⟩ := ih
    refine ⟨a :: as, (serve_cons _ _ _ _ _).mpr ⟨a, _, as, performed, served, rfl⟩, ?_⟩
    rw [List.map_cons, List.map_cons, told, rest]

theorem serve_length {b c : B} {ks : List K} {as : List A}
    (served : serve perform b ks = .ok (as, c)) : as.length = ks.length := by
  induction ks generalizing b as with
  | nil =>
    cases served
    rfl
  | cons k ks ih =>
    obtain ⟨a, d, rest, _, tail, rfl⟩ := (serve_cons b c k ks as).mp served
    rw [List.length_cons, List.length_cons, ih tail]

theorem serve_split {b d : B} {ks ls : List K} {xs ys : List A} (length : xs.length = ks.length)
    (served : serve perform b (ks ++ ls) = .ok (xs ++ ys, d)) :
    ∃ c, serve perform b ks = .ok (xs, c) ∧ serve perform c ls = .ok (ys, d) := by
  obtain ⟨xs', c, ys', first, rest, eq⟩ := (serve_append b d ks ls (xs ++ ys)).mp served
  have long : xs.length = xs'.length := length.trans (serve_length first).symm
  obtain ⟨rfl, rfl⟩ := List.append_inj eq long
  exact ⟨c, first, rest⟩

theorem serve_invariant (I : B → Prop) (allowed : K → Prop)
    (preserved : ∀ b k a c, I b → allowed k → perform b k = .ok (a, c) → I c) {b c : B}
    {ks : List K} {as : List A} (initial : I b) (admitted : ∀ k ∈ ks, allowed k)
    (served : serve perform b ks = .ok (as, c)) : I c := by
  induction ks generalizing b as with
  | nil =>
    cases served
    exact initial
  | cons k ks ih =>
    obtain ⟨a, d, rest, now, tail, _⟩ := (serve_cons b c k ks as).mp served
    have kept := preserved b k a d initial (admitted k List.mem_cons_self) now
    exact ih kept (fun l mem => admitted l (List.mem_cons_of_mem k mem)) tail

/-- A call has the same outcome on both stores and leaves them related. -/
def Alike (R : B → C → Prop) (x : Except E (A × B)) (y : Except E (A × C)) : Prop :=
  (∃ stop, x = .error stop ∧ y = .error stop) ∨
    ∃ a b c, x = .ok (a, b) ∧ y = .ok (a, c) ∧ R b c

theorem serve_alike (R : B → C → Prop) (allowed : B → K → Prop)
    (alike : ∀ b c k, R b c → allowed b k → Alike R (perform b k) (perform' c k)) {b : B} {c : C}
    {ks : List K} (related : R b c) (admitted : Along (next perform) allowed b ks) :
    (serve perform' c ks).map Prod.fst = (serve perform b ks).map Prod.fst := by
  induction ks generalizing b c with
  | nil => rfl
  | cons k ks ih =>
    obtain ⟨now, later⟩ := admitted
    rcases alike b c k related now with ⟨stop, left, right⟩ | ⟨a, b', c', left, right, kept⟩
    · rw [serve_stops left, serve_stops right]
      rfl
    · have after : next perform b k = some b' := by
        rw [next, left]
        rfl
      rw [after] at later
      rw [serve_goes left, serve_goes right, ih kept later]

end Rules

end Calls
