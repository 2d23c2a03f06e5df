import RingBuffers.Spsc.Lifetimes

/-! The pointer that `front` returned, until the next destruction by `pop`. The producer may
fill the rest of the ring around it. -/
namespace RingBuffers.Spsc
open Lifetime Transition

variable {α : Type} {r : Ring} {e : Encoding r} {s t : State α} {p : Nat} {v : α}

def spares (s : State α) : Label α → Bool
  | .consumer _ => match s.consumer with
    | .popDestroy _ => false
    | _ => true
  | _ => true

/-- The last answer of `front` is the pointer the consumer holds. -/
def Answered (s : State α) : Prop := ∀ q, s.consumerResult = some (.front q) → s.held = q

/-- The consumer's pointer designates the element `v` in slot `p`. -/
structure StablePointer (r : Ring) (p : Nat) (v : α) (t : State α) : Prop where
  value : t.slots p = some v
  untouched : ∀ l w, Event.construct p w ∉ slotEvents r t l
  front : ∀ q, t.consumerResult = some (.front q) → q = some p
  pop : ∀ pop i, t.consumer = .popDestroy pop → slotEvents r t (.consumer i) = [.destroy p] ∧
    ∃ u, step r t (.consumer i) = some u ∧ u.slots = Function.update t.slots p none

structure Pinned (e : Encoding r) (p : Nat) (v : α) (s : State α) : Prop where
  still : s.consumer.tearing = 0
  index : p = e.index s.consumed.length
  covered : s.consumed.length < s.pushCursorCache.stamp
  live : s.slots p = some v
  front : ∀ q, s.consumerResult = some (.front q) → q = some p

theorem Inv.held_none (inv : Inv e s) (empty : s.consumed.length = s.pushCursorCache.stamp) :
    s.held = none := by
  cases held : s.held with
  | none => rfl
  | some i =>
    have covered := (inv.held i held).1
    omega

theorem answered_start : Answered (start α) := by
  intro q impossible
  cases impossible

theorem Move.answered {l : Label α} (move : Move e s l t) (inv : Inv e s)
    (answered : Answered s) : Answered t := by
  cases move with
  | frontCacheHit | frontLoadedHit | frontHit =>
    intro q h
    cases h
    rfl
  | frontNull i pop at_pc empty =>
    intro q h
    cases h
    exact inv.held_none empty
  | frontLoadedNull i pop push at_pc cached empty =>
    intro q h
    cases h
    have ok := inv.consumer
    rw [at_pc] at ok
    have low := ok.2.low
    have covered := inv.pushCache.low
    exact inv.held_none (by omega)
  | front | pop | closed | giveBack | loadClosed =>
    intro q h
    cases h
  | _ => exact answered

theorem Inv.pinned (inv : Inv e s) (answered : Answered s) (held : s.held = some p) :
    ∃ v, Pinned e p v s := by
  obtain ⟨covered, index⟩ := inv.held p held
  have still : s.consumer.tearing = 0 := by
    cases at_pc : s.consumer with
    | popStore pop v =>
      have ok := inv.consumer
      rw [at_pc, held] at ok
      cases ok.1
    | _ => rfl
  obtain ⟨v, _, live⟩ := inv.oldest_slot still covered
  refine ⟨v, still, index, covered, by rwa [index], ?_⟩
  intro q h
  rw [← answered q h, held]

theorem Pinned.construct_elsewhere (pinned : Pinned e p v s) (inv : Inv e s) {f : Frame α}
    (at_pc : s.producer = .construct f) : p ≠ e.index s.pushed.length := by
  intro same
  have live := pinned.live
  rw [same, (inv.construct_slot at_pc).2] at live
  cases live

theorem Move.pinned {l : Label α} (move : Move e s l t) (inv : Inv e s)
    (spared : spares s l = true) (pinned : Pinned e p v s) : Pinned e p v t := by
  have covered := pinned.covered
  have ok := inv.consumer
  cases move with
  | emplace | tryEmplace | close | read | loadPush | cacheFull | cacheRoom | loadPop | loadedCache
  | loadedSpin | loadedFull | loadedRoom | recheckFull | recheckRoom | publish | storeClosed
  | threw => exact { pinned with }
  | construct i f at_pc =>
    exact { pinned with
      live := (Function.update_of_ne (pinned.construct_elsewhere inv at_pc) _ _).trans
        pinned.live }
  | front | pop | closed | loadClosed =>
    exact { pinned with
      still := rfl
      front := by
        intro q h
        cases h }
  | frontLoadPop i m at_pc load =>
    exact { pinned with still := by cases r.cached <;> rfl }
  | popLoadPop i m at_pc load =>
    exact { pinned with still := by cases r.ndebug <;> rfl }
  | frontCacheEmpty | frontLoadPush | popAssert => exact { pinned with still := rfl }
  | frontCacheHit | frontHit =>
    exact { pinned with
      still := rfl
      front := by
        intro q h
        cases h
        rw [pinned.index] }
  | frontLoadedCache i pop push at_pc cached =>
    rw [at_pc] at ok
    have low := ok.2.low
    exact { pinned with still := rfl, covered := by simp only; omega }
  | frontLoadedHit i pop push at_pc cached lt =>
    exact { pinned with
      still := rfl
      covered := lt
      front := by
        intro q h
        cases h
        rw [pinned.index] }
  | frontLoadedNull i pop push at_pc cached empty =>
    rw [at_pc] at ok
    have low := ok.2.low
    omega
  | frontNull i pop at_pc empty => omega
  | destroy i pop w at_pc =>
    simp [spares, at_pc] at spared
  | giveBack i pop w at_pc =>
    have still := pinned.still
    rw [at_pc] at still
    cases still

theorem Pinned.untouched (pinned : Pinned e p v t) (inv : Inv e t) (l : Label α) (w : α) :
    Event.construct p w ∉ slotEvents r t l := by
  intro mem
  cases l with
  | producer i =>
    cases at_pc : t.producer with
    | construct f =>
      have slot := (inv.construct_slot at_pc).1
      simp only [slotEvents, at_pc, slot, Option.map_some, Option.toList_some,
        List.mem_singleton, Event.construct.injEq] at mem
      exact pinned.construct_elsewhere inv at_pc mem.1
    | _ => simp [slotEvents, at_pc] at mem
  | consumer i =>
    cases at_pc : t.consumer with
    | popDestroy pop => simp [slotEvents, at_pc] at mem
    | _ => simp [slotEvents, at_pc] at mem
  | _ => cases mem

theorem Pinned.destroys (pinned : Pinned e p v t) (inv : Inv e t) {pop : Nat} (i : Nat)
    (at_pc : t.consumer = .popDestroy pop) :
    slotEvents r t (.consumer i) = [.destroy p] ∧
      ∃ u, step r t (.consumer i) = some u ∧ u.slots = Function.update t.slots p none := by
  have ok := inv.consumer
  rw [at_pc] at ok
  have slot : r.slot pop = some p := by
    rw [ok.2.2, pinned.index]
    exact e.slot_cursor _
  constructor
  · simp [slotEvents, at_pc, slot]
  · refine ⟨destroyAt r t pop, ?_, ?_⟩
    · simp [step, inv.sound, consumerStep, at_pc]
    · simp only [destroyAt, slot, pinned.live]

theorem Pinned.stable (pinned : Pinned e p v t) (inv : Inv e t) : StablePointer r p v t where
  value := pinned.live
  untouched := pinned.untouched inv
  front := pinned.front
  pop := fun _ i at_pc => pinned.destroys inv i at_pc

/-- Whatever the producer does and however the consumer looks again, the pointer keeps
designating the same element until a `pop` destroys it. -/
theorem spsc_pointer (e : Encoding r) (sync : Synchronizes r) {ls : List (Label α)}
    (run : Run (step r) (fun s l => frontFirst s l = true) (start α) ls s)
    (held : s.held = some p) :
    ∃ v, s.slots p = some v ∧ ∀ ks t,
      Run (step r) (fun s l => frontFirst s l = true ∧ spares s l = true) s ks t →
        StablePointer r p v t := by
  have before : Inv e s ∧ Answered s := by
    apply run.invariant (fun s => Inv e s ∧ Answered s) _ ⟨inv_start e, answered_start⟩
    rintro s l t ⟨inv, answered⟩ contract h
    have move := step_move inv sync contract h
    exact ⟨move.inv inv sync, move.answered inv answered⟩
  obtain ⟨inv, answered⟩ := before
  obtain ⟨v, pinned⟩ := inv.pinned answered held
  refine ⟨v, pinned.live, ?_⟩
  intro ks t rest
  have after : Inv e t ∧ Pinned e p v t := by
    apply rest.invariant (fun t => Inv e t ∧ Pinned e p v t) _ ⟨inv, pinned⟩
    rintro s l t ⟨inv, pinned⟩ ⟨contract, spared⟩ h
    have move := step_move inv sync contract h
    exact ⟨move.inv inv sync, move.pinned inv spared pinned⟩
  exact after.2.stable after.1

end RingBuffers.Spsc
