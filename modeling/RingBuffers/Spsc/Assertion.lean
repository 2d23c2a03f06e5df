import RingBuffers.Library.Transition
import RingBuffers.Spsc.Sequential

/-! What guards a `pop`. Its assertion compares `popCursor_` with `pushCursor_`, but a later
`front` believes `pushCursorCache_`: a `pop` of an element that no `front` has covered passes
the assertion and leaves the cache behind `popCursor_`. The comment on `pop` asks for a
`front` first, and then both tests agree. -/
namespace RingBuffers.Spsc
open BoundedQueue Transition

variable {α : Type}

def callStep (r : Ring) (b : Buffer α) (k : Call α) : Option (Buffer α) :=
  (perform r b k).toOption.map Prod.snd

def passesAssertion (b : Buffer α) : Call α → Bool
  | .pop => b.popCursor != b.pushCursor
  | _ => true

/-- Each `pop` starts with an element that the cached `pushCursor_` covers. -/
def coveredByCache (b : Buffer α) : Call α → Bool
  | .pop => b.popCursor != b.pushCursorCache
  | _ => true

/-- `front` tells exactly whether an element is stored and designates the oldest; after it a
`pop` is covered; a covered `pop` and the loop of the destructor destroy live slots only, the
loop all of them. -/
structure FrontExact (r : Ring) (b : Buffer α) : Prop where
  null : b.queue = [] → ∃ b', front r b = .ok (none, b')
  oldest : b.queue ≠ [] → ∃ i v b', front r b = .ok (some i, b') ∧ b.queue.head? = some v ∧
    b.slots i = some v ∧ coveredByCache b' (.pop : Call α) = true
  pops : coveredByCache b (.pop : Call α) = true → passesAssertion b (.pop : Call α) = true ∧
    ∃ v b', pop r b = .ok b' ∧ b.queue = v :: b'.queue ∧ b'.consumed = b.consumed ++ [v]
  drains : ∃ ds b', drain r (b.queue.length + 1) b = .ok (ds, b') ∧ b'.consumed = b.pushed ∧
    ∀ i, b'.slots i = none

section Sequences

variable {r : Ring} {e : Encoding r} {b b' : Buffer α} {x y : Nat}

theorem Holds.covered_iff (holds : Holds e b x y) :
    coveredByCache b (.pop : Call α) = true ↔ b.consumed.length < y := by
  have behind := holds.behind
  have covered := holds.covered
  have ahead := holds.ahead
  have room := holds.room
  have against_cache := e.empty_iff b.consumed.length y covered (by omega)
  simp only [coveredByCache, bne_iff_ne, ne_eq, holds.popCursor, holds.pushCache, against_cache]
  omega

theorem Holds.passes_iff (holds : Holds e b x y) :
    passesAssertion b (.pop : Call α) = true ↔ b.queue ≠ [] := by
  have behind := holds.behind
  have covered := holds.covered
  have ahead := holds.ahead
  have room := holds.room
  have against_cursor := e.empty_iff b.consumed.length b.pushed.length (by omega) (by omega)
  simp only [passesAssertion, bne_iff_ne, ne_eq, holds.popCursor, holds.pushCursor,
    against_cursor, holds.queue_nil_iff]

theorem Holds.frontExact (holds : Holds e b x y) : FrontExact r b where
  null empty := by
    obtain ⟨c, _, answer, _⟩ := front_eq holds
    exact ⟨_, by rw [answer, if_pos empty]⟩
  oldest some_left := by
    obtain ⟨c, y', answer, after, _, covers⟩ := front_eq holds
    obtain ⟨v, head, live⟩ :=
      holds.oldest (Nat.lt_of_lt_of_le (covers some_left) after.ahead)
    exact ⟨_, v, _, by rw [answer, if_neg some_left], head, live,
      after.covered_iff.mpr (covers some_left)⟩
  pops covered := by
    obtain ⟨v, b', popped, _, head, pushed, consumed, _⟩ :=
      pop_eq holds (holds.covered_iff.mp covered)
    have split := queue_pop head pushed consumed
    refine ⟨holds.passes_iff.mpr (by rw [split]; simp), v, b', popped, split, consumed⟩
  drains := by
    obtain ⟨b', drained, _, all, dead⟩ := drain_eq holds (b.queue.length + 1) (Nat.lt_succ_self _)
    exact ⟨_, b', drained, by rw [all, holds.consumed_append_queue], fun i => by rw [dead]⟩

theorem Holds.call (holds : Holds e b x y) {k : Call α} (covered : coveredByCache b k = true)
    (h : callStep r b k = some b') : ∃ x y, Holds e b' x y := by
  have bounded := holds.bounded
  cases k with
  | push v =>
    rcases Nat.lt_or_eq_of_le bounded with room | full
    · obtain ⟨x', b'', done, after, _⟩ := emplace_room holds room v
      rw [callStep, perform, done] at h
      cases h
      exact ⟨x', y, after⟩
    · rw [callStep, perform, emplace_full holds full] at h
      cases h
  | tryPush v =>
    rcases Nat.lt_or_eq_of_le bounded with room | full
    · obtain ⟨x', b'', done, after, _⟩ := tryEmplace_room holds room v
      rw [callStep, perform, done] at h
      cases h
      exact ⟨x', y, after⟩
    · obtain ⟨x', c, refused, after⟩ := tryEmplace_full holds full v
      rw [callStep, perform, refused] at h
      cases h
      exact ⟨x', y, after⟩
  | front =>
    obtain ⟨c, y', answer, after, _, covers⟩ := front_eq holds
    rw [callStep, perform, answer] at h
    by_cases empty : b.queue = []
    · simp only [if_pos empty] at h
      cases h
      exact ⟨x, y', after⟩
    · obtain ⟨v, _, live⟩ := holds.oldest (Nat.lt_of_lt_of_le (covers empty) after.ahead)
      simp only [if_neg empty, live] at h
      cases h
      exact ⟨x, y', after⟩
  | pop =>
    obtain ⟨v, b'', popped, after, _⟩ := pop_eq holds (holds.covered_iff.mp covered)
    rw [callStep, perform, popped] at h
    cases h
    exact ⟨x, y, after⟩
  | close =>
    cases h
    exact ⟨x, y, { holds with }⟩
  | closed | capacity =>
    cases h
    exact ⟨x, y, holds⟩

theorem covered_front_exact (e : Encoding r) (ks : List (Call α))
    (run : Run (callStep r) (fun b k => coveredByCache b k = true) (Buffer.start α) ks b) :
    FrontExact r b := by
  obtain ⟨x, y, holds⟩ := run.invariant (fun b => ∃ x y, Holds e b x y)
    (fun _ _ _ ⟨_, _, holds⟩ covered h => holds.call covered h) ⟨0, 0, holds_start e⟩
  exact holds.frontExact

end Sequences

/-- In every sequence of calls on `SPSCBuffer(n)` whose pops are covered by the cache, `front`
is exact and neither a covered `pop` nor the destructor touches a dead slot. -/
theorem spsc_front_exact (env : Environment) (n : Nat) (r : Ring)
    (made : spscBuffer.construct env n = .ok r) (fits : spscBuffer.Fits env n)
    (ks : List (Call α)) (b : Buffer α)
    (run : Run (callStep r) (fun b k => coveredByCache b k = true) (Buffer.start α) ks b) :
    FrontExact r b :=
  covered_front_exact (spscBuffer_slack.encoding made fits.capacity) ks run

theorem spsc_front_exact_at_one : ∃ b : Buffer Nat,
    FrontExact (spscBuffer.ring .desktop 1) b ∧ b.queue = [8] :=
  ⟨_, spsc_front_exact .desktop 1 _ rfl (by decide) [.push 7, .front, .pop, .push 8] _
    (Run.of_exec (by decide) (by decide)), by decide⟩

/-- The pop of an element that `front` has not seen passes the assertion; then `front` gives
a pointer into an empty buffer and the destructor pops again. -/
theorem assertion_is_no_guard : ¬ ∀ (r : Ring) (ks : List (Call Nat)) (b : Buffer Nat),
    spscBuffer.construct .desktop 1 = .ok r →
    Run (callStep r) (fun b k => passesAssertion b k = true) (Buffer.start Nat) ks b →
    (∀ p b', front r b = .ok (p, b') → (p = none ↔ b.queue = [])) ∧
      ∃ ds b', drain r (b.queue.length + 1) b = .ok (ds, b') := by
  intro guarded
  obtain ⟨exact_front, _⟩ := guarded _ [.push 7, .pop] _ rfl (Run.of_exec (by decide) (by decide))
  have null := (exact_front _ _ rfl).mpr (by decide)
  revert null
  decide

end RingBuffers.Spsc
