import Mathlib.Data.List.Induction
import RingBuffers.Spsc.Moves

/-! Safety when loads may be stale. Slots are plain memory: before the producer
constructs in a slot it must have seen the destruction of everything constructed
there, and before the consumer touches an element it must have seen exactly that
element constructed. Visibility comes from release stores of the cursors only. -/
namespace RingBuffers.Spsc
open ReleaseAcquire Transition

variable {α : Type} {r : Ring}

def SlotAction.constructsAt (i : Nat) : SlotAction α → Bool
  | .construct j _ => j == i
  | .destroy _ => false

def SlotAction.destroysAt (i : Nat) : SlotAction α → Bool
  | .construct _ _ => false
  | .destroy j => j == i

/-- Slot `i` may be constructed in: it is empty, and each construction made there so far
is matched by a destruction that the producer has seen. -/
structure MayConstruct (s : State α) (i : Nat) : Prop where
  free : s.slots i = none
  destroyed : (s.memory.log .producer).countP (SlotAction.constructsAt i) =
    (s.memory.visible .producer .consumer).countP (SlotAction.destroysAt i)

/-- Slot `i` may be read or destroyed: it holds `v`, the oldest element, whose construction
the consumer has seen and which no later construction in that slot replaced. -/
structure MayUse (s : State α) (i : Nat) (v : α) : Prop where
  live : s.slots i = some v
  oldest : s.pushed[s.consumed.length]? = some v
  visible : (s.memory.visible .consumer .producer)[s.consumed.length]? = some (.construct i v)
  newest : ∀ j w, (s.memory.log .producer)[j]? = some (.construct i w) → j ≤ s.consumed.length

section Logs

variable {index : Nat → Nat}

theorem countP_range_eq {m n i : Nat} (le : m ≤ n)
    (none_beyond : ∀ k, m ≤ k → k < n → index k ≠ i) :
    (List.range n).countP (fun k => index k == i) =
      (List.range m).countP (fun k => index k == i) := by
  induction n with
  | zero => rw [Nat.le_zero.mp le]
  | succ n ih =>
    rcases Nat.lt_or_ge n m with done | more
    · rw [Nat.le_antisymm le done]
    · have other : (index n == i) = false := by simpa using none_beyond n more (by omega)
      rw [List.range_succ, List.countP_append, ih more (fun k lo hi => none_beyond k lo (by omega))]
      simp [other]

theorem countP_constructs (xs : List α) (i : Nat) :
    (xs.mapIdx fun k v => SlotAction.construct (index k) v).countP (SlotAction.constructsAt i) =
      (List.range xs.length).countP (fun k => index k == i) := by
  induction xs using List.reverseRecOn with
  | nil => rfl
  | append_singleton xs v ih =>
    rw [List.mapIdx_concat, List.countP_append, ih, List.length_append, List.length_singleton,
      List.range_succ, List.countP_append]
    rfl

theorem countP_destroys (n i : Nat) :
    ((List.range n).map fun k => (SlotAction.destroy (index k) : SlotAction α)).countP
        (SlotAction.destroysAt i) = (List.range n).countP (fun k => index k == i) := by
  rw [List.countP_map]
  rfl

end Logs

section Invariant

variable {e : Encoding r} {s : State α}

theorem Inv.mayConstruct (inv : Inv e s) {f : Frame α} (at_pc : s.producer = .construct f) :
    ∃ i, r.slot f.cursor = some i ∧ MayConstruct s i := by
  obtain ⟨slot, free⟩ := inv.construct_slot at_pc
  have ok := inv.producer
  rw [at_pc] at ok
  have room := ok.2
  have view := inv.views.agents .producer
  have seen := inv.popCache.high.trans view.popDone
  have tornBound := view.tornBound
  have torn_le := inv.torn_le
  have built : s.built = s.pushed := by simp [State.built, at_pc, ProducerPC.building]
  refine ⟨_, slot, free, ?_⟩
  rw [Memory.visible, inv.constructs, inv.destroys, countP_constructs, built, ← List.map_take,
    List.take_range, countP_destroys, Nat.min_eq_left tornBound]
  -- ordinals in the slot beyond the visible prefix would be less than a window away
  exact countP_range_eq (by omega)
    (fun k lo hi => e.apart k s.pushed.length hi (by omega))

theorem Inv.mayUse (inv : Inv e s) (still : s.consumer.tearing = 0)
    (covered : s.consumed.length < s.pushCursorCache.stamp) :
    ∃ v, MayUse s (e.index s.consumed.length) v := by
  obtain ⟨v, oldest, live⟩ := inv.oldest_slot still covered
  have view := inv.views.agents .consumer
  have seen := inv.pushCache.high.trans view.pushDone
  have lt := (List.getElem?_eq_some_iff.mp oldest).1
  have in_built : s.built[s.consumed.length]? = some v := by
    rw [State.built, List.getElem?_append_left lt, oldest]
  have built_le := inv.built_le
  have behind := inv.behind
  refine ⟨v, live, oldest, ?_, ?_⟩
  · rw [Memory.visible, List.getElem?_take_of_lt (by omega), inv.constructs, List.getElem?_mapIdx,
      in_built, Option.map_some]
  · intro j w later
    rw [inv.constructs, List.getElem?_mapIdx, Option.map_eq_some_iff] at later
    obtain ⟨x, present, same⟩ := later
    have bound := (List.getElem?_eq_some_iff.mp present).1
    injection same with index_eq _
    by_contra beyond
    exact e.apart s.consumed.length j (by omega) (by omega) index_eq.symm

end Invariant

/-- Every slot is used rightly, what is consumed is a prefix of what is pushed, and the
assertion in `pop` does not fail. -/
structure StaleSafe (r : Ring) (s : State α) : Prop where
  constructs : ∀ f, s.producer = .construct f →
    ∃ i, r.slot f.cursor = some i ∧ MayConstruct s i
  dereferences : ∀ i, s.consumer = .idle → s.held = some i → ∃ v, MayUse s i v
  destroys : ∀ pop, s.consumer = .popDestroy pop →
    ∃ i v, r.slot pop = some i ∧ MayUse s i v
  ordered : s.consumed <+: s.pushed
  assertion : s.fault = none

theorem Inv.staleSafe {e : Encoding r} {s : State α} (inv : Inv e s) : StaleSafe r s where
  constructs f at_pc := inv.mayConstruct at_pc
  dereferences i idle held := by
    obtain ⟨covered, rfl⟩ := inv.held i held
    exact inv.mayUse (by rw [idle]; rfl) covered
  destroys pop at_pc := by
    have ok := inv.consumer
    rw [at_pc] at ok
    obtain ⟨v, use⟩ := inv.mayUse (by rw [at_pc]; rfl) ok.2.1
    exact ⟨_, v, by rw [ok.2.2]; exact e.slot_cursor _, use⟩
  ordered := by
    rw [inv.consumed]
    exact List.take_prefix _ _
  assertion := inv.sound

/-- `SPSCBuffer(n)` is safe in every release/acquire run that keeps the consumer's contract. -/
theorem spsc_stale_safe (env : Environment) (n : Nat) (r : Ring)
    (made : spscBuffer.construct env n = .ok r) (fits : n + 1 + 2 * env.padding < sizeModulus)
    (ls : List (Label α)) (s : State α)
    (run : Run (step r) (fun s l => frontFirst s l = true) (start α) ls s) : StaleSafe r s := by
  have sync := spscBuffer_synchronizes made
  exact (run_inv (spscBuffer_slack.encoding made (by omega)) sync run).staleSafe

/-- Both threads read stores that are one behind before they read the current ones. -/
def staleLoads : List (Label Nat) :=
  [.tryEmplace 7, .producer 0, .producer 0, .producer 0, .producer 0,
    .front, .consumer 0, .consumer 0, .consumer 0, .consumer 0, .consumer 0,
    .front, .consumer 0, .consumer 0, .consumer 1, .consumer 0, .consumer 0, .read,
    .pop, .consumer 0, .consumer 1, .consumer 0, .consumer 0,
    .tryEmplace 8, .producer 1, .producer 0, .producer 0, .producer 0, .producer 0,
    .emplace 9, .producer 1, .producer 0, .producer 1, .producer 0, .producer 0]

theorem spsc_stale_safe_at_one : ∃ s : State Nat,
    StaleSafe (spscBuffer.ring .desktop 1) s ∧ s.pushResult = none ∧ s.consumed = [7] :=
  ⟨_, spsc_stale_safe .desktop 1 _ rfl (by decide) staleLoads _
    (Run.of_exec (by decide) (by decide)), by decide, by decide⟩

end RingBuffers.Spsc
