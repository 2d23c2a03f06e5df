import RingBuffers.Spsc.Machine

/-! The slot that a step touches. What a step does depends on no other slot, and it changes none:
with other contents elsewhere it does the same and leaves them as they are. -/
namespace RingBuffers.Spsc

variable {α : Type} {r : Ring} {s t : State α}

def State.withSlots (s : State α) (m : Nat → Option α) : State α := { s with slots := m }

/-- The contents `m`, but for those of `slot`, which are as in `x`. -/
def touching (slot : Option Nat) (m x : Nat → Option α) : Nat → Option α :=
  fun i => if slot = some i then x i else m i

section Touching

variable {m x : Nat → Option α} {slot : Option Nat} {i : Nat}

theorem touching_same (same : ∀ i, slot = some i → m i = x i) : touching slot m x = m := by
  funext i
  unfold touching
  split
  · rename_i here
    exact (same i here).symm
  · rfl

theorem touching_update (v : Option α) :
    touching (some i) m (Function.update x i v) = Function.update m i v := by
  funext j
  by_cases here : j = i
  · subst here
    simp [touching]
  · simp [touching, here, Ne.symm here]

theorem withSlots_same (same : ∀ i, slot = some i → m i = s.slots i) (kept : t.slots = s.slots) :
    t.withSlots m = t.withSlots (touching slot m t.slots) := by
  rw [touching_same (fun i here => (same i here).trans (congrFun kept i).symm)]

theorem constructAt_withSlots {f : Frame α}
    (same : ∀ i, r.slot f.cursor = some i → m i = s.slots i) :
    constructAt r (s.withSlots m) f =
      (constructAt r s f).withSlots (touching (r.slot f.cursor) m (constructAt r s f).slots) := by
  have slots : (s.withSlots m).slots = m := rfl
  unfold constructAt
  rw [slots]
  cases at_slot : r.slot f.cursor with
  | none =>
    exact withSlots_same (s := s) (t := { s with fault := some .divisionByZero })
      (by intro i impossible; cases impossible) rfl
  | some i =>
    have here := same i at_slot
    rw [at_slot] at same
    cases live : s.slots i with
    | some v =>
      simp only [here, live]
      exact withSlots_same (t := { s with fault := some .constructOnLive }) same rfl
    | none =>
      simp only [here, live, touching_update]
      rfl

theorem destroyAt_withSlots {pop : Nat} (same : ∀ i, r.slot pop = some i → m i = s.slots i) :
    destroyAt r (s.withSlots m) pop =
      (destroyAt r s pop).withSlots (touching (r.slot pop) m (destroyAt r s pop).slots) := by
  have slots : (s.withSlots m).slots = m := rfl
  unfold destroyAt
  rw [slots]
  cases at_slot : r.slot pop with
  | none =>
    exact withSlots_same (s := s) (t := { s with fault := some .divisionByZero })
      (by intro i impossible; cases impossible) rfl
  | some i =>
    have here := same i at_slot
    rw [at_slot] at same
    cases live : s.slots i with
    | none =>
      simp only [here, live]
      exact withSlots_same (t := { s with fault := some .destroyOfDead }) same rfl
    | some v =>
      simp only [here, live, touching_update]
      rfl

theorem enterPush_withSlots (mode : Mode) (v : α) (push : Nat) :
    enterPush r (s.withSlots m) mode v push = (enterPush r s mode v push).withSlots m := by
  unfold enterPush
  cases r.next push <;> rfl

theorem afterLoad_withSlots (f : Frame α) (pop : Seen) :
    afterLoad r (s.withSlots m) f pop = (afterLoad r s f pop).withSlots m := by
  unfold afterLoad
  cases r.cached with
  | true => cases f.mode <;> rfl
  | false => cases fullAgainst r f pop <;> cases f.mode <;> rfl

theorem returnPointer_withSlots (pop : Nat) :
    returnPointer r (s.withSlots m) pop = (returnPointer r s pop).withSlots m := by
  unfold returnPointer
  cases r.slot pop <;> rfl

theorem afterFrontLoad_withSlots (pop : Nat) (push : Seen) :
    afterFrontLoad r (s.withSlots m) pop push = (afterFrontLoad r s pop push).withSlots m := by
  unfold afterFrontLoad
  cases r.cached with
  | true => rfl
  | false =>
    by_cases empty : pop = push.value
    · simp only [empty]
      rfl
    · simp only [empty, Bool.false_eq_true, if_false]
      exact returnPointer_withSlots (s := { s with pushCursorCache := push }) pop

theorem storePop_withSlots (pop : Nat) (v : α) :
    storePop r (s.withSlots m) pop v = (storePop r s pop v).withSlots m := by
  unfold storePop
  cases r.next pop <;> rfl

theorem producerStep_withSlots (i : Nat) (still : ∀ f, s.producer ≠ .construct f) :
    producerStep r (s.withSlots m) i = (producerStep r s i).map (State.withSlots · m) := by
  have memory : (s.withSlots m).memory = s.memory := rfl
  have cache : (s.withSlots m).popCursorCache = s.popCursorCache := rfl
  have place : (s.withSlots m).producer = s.producer := rfl
  unfold producerStep
  rw [place, memory, cache]
  cases at_pc : s.producer with
  | idle => rfl
  | loadPushCursor mode v =>
    simp only [Option.map_map]
    congr 1
    funext ⟨push, m'⟩
    exact enterPush_withSlots
      (s := { s with memory := m', producer := .loadPushCursor mode v }) mode v push
  | loadPopCursor f =>
    simp only [Option.map_map]
    rfl
  | loaded f pop => simp only [afterLoad_withSlots, Option.map_some]
  | recheck f =>
    by_cases full : fullAgainst r f s.popCursorCache = true
    · simp only [full, if_true]
      rfl
    · simp only [full]
      rfl
  | construct f => exact absurd at_pc (still f)
  | readCache f | storePushCursor f | storeClosed => rfl

theorem consumerStep_withSlots (i : Nat) (still : ∀ pop, s.consumer ≠ .popDestroy pop) :
    consumerStep r (s.withSlots m) i = (consumerStep r s i).map (State.withSlots · m) := by
  have memory : (s.withSlots m).memory = s.memory := rfl
  have cache : (s.withSlots m).pushCursorCache = s.pushCursorCache := rfl
  have place : (s.withSlots m).consumer = s.consumer := rfl
  unfold consumerStep
  rw [place, memory, cache]
  cases at_pc : s.consumer with
  | idle => rfl
  | frontLoadPop | frontLoadPush pop | popLoadPop | loadClosed =>
    simp only [Option.map_map]
    rfl
  | frontReadCache pop | frontRecheck pop =>
    by_cases empty : pop = s.pushCursorCache.value
    · simp only [empty, if_true]
      rfl
    · simp only [empty, if_false, returnPointer_withSlots, Option.map_some]
  | frontLoaded pop push => simp only [afterFrontLoad_withSlots, Option.map_some]
  | popAssert pop =>
    simp only [Option.map_map]
    congr 1
    funext ⟨x, m'⟩
    by_cases empty : pop = x
    · simp only [Function.comp_apply, empty, if_true]
      rfl
    · simp only [Function.comp_apply, empty, if_false]
      rfl
  | popDestroy pop => exact absurd at_pc (still pop)
  | popStore pop v => simp only [storePop_withSlots, Option.map_some]

theorem step_keeps_slots {l : Label α} (untouched : accesses r s l = none)
    (same : step r (s.withSlots m) l = (step r s l).map (State.withSlots · m)) :
    step r (s.withSlots m) l = (step r s l).map fun t =>
      t.withSlots (touching (accesses r s l) m t.slots) := by
  rw [same, untouched]
  congr 1

end Touching

/-- A step reads and writes no slot but the one it accesses. -/
theorem step_withSlots {m : Nat → Option α} {l : Label α}
    (same : ∀ i, accesses r s l = some i → m i = s.slots i) :
    step r (s.withSlots m) l = (step r s l).map fun t =>
      t.withSlots (touching (accesses r s l) m t.slots) := by
  by_cases stopped : s.fault.isSome = true
  · have stopped' : (s.withSlots m).fault.isSome = true := stopped
    simp only [step, stopped, stopped', if_true]
    rfl
  · have goes : s.fault.isSome = false := by simpa using stopped
    have goes' : (s.withSlots m).fault.isSome = false := goes
    cases l with
    | emplace v | tryEmplace v | close =>
      apply step_keeps_slots rfl
      simp only [step, goes, callProducer, State.withSlots]
      cases s.producer <;> rfl
    | front | pop | closed =>
      apply step_keeps_slots rfl
      simp only [step, goes, callConsumer, State.withSlots]
      cases s.consumer <;> rfl
    | producer i =>
      by_cases still : ∀ f, s.producer ≠ .construct f
      · apply step_keeps_slots
        · cases at_pc : s.producer with
          | construct f => exact absurd at_pc (still f)
          | _ => simp [accesses, at_pc]
        · simp only [step, goes, goes', Bool.false_eq_true, if_false]
          exact producerStep_withSlots i still
      · simp only [not_forall, not_not] at still
        obtain ⟨f, at_pc⟩ := still
        have at_pc' : (s.withSlots m).producer = .construct f := at_pc
        simp only [accesses, at_pc] at same
        simp only [step, goes, goes', Bool.false_eq_true, if_false, producerStep, at_pc, at_pc',
          accesses, Option.map_some, constructAt_withSlots same]
    | consumer i =>
      by_cases still : ∀ pop, s.consumer ≠ .popDestroy pop
      · apply step_keeps_slots
        · cases at_pc : s.consumer with
          | popDestroy pop => exact absurd at_pc (still pop)
          | _ => simp [accesses, at_pc]
        · simp only [step, goes, goes', Bool.false_eq_true, if_false]
          exact consumerStep_withSlots i still
      · simp only [not_forall, not_not] at still
        obtain ⟨pop, at_pc⟩ := still
        have at_pc' : (s.withSlots m).consumer = .popDestroy pop := at_pc
        simp only [accesses, at_pc] at same
        simp only [step, goes, goes', Bool.false_eq_true, if_false, consumerStep, at_pc, at_pc',
          accesses, Option.map_some, destroyAt_withSlots same]
    | throw =>
      have place : (s.withSlots m).producer = s.producer := rfl
      simp only [step, goes, goes', Bool.false_eq_true, if_false, throwStep, place]
      cases at_pc : s.producer with
      | construct f =>
        simp only [Option.map_some, Option.some.injEq]
        exact withSlots_same (s := s) (t := { s with producer := .idle, pushResult := some .threw })
          same rfl
      | _ => rfl
    | read =>
      have place : (s.withSlots m).consumer = s.consumer := rfl
      have held : (s.withSlots m).held = s.held := rfl
      have slots : (s.withSlots m).slots = m := rfl
      simp only [step, goes, goes', Bool.false_eq_true, if_false, readStep, place, held, slots]
      cases s.consumer with
      | idle =>
        cases at_held : s.held with
        | none => rfl
        | some i =>
          have here := same i at_held
          cases live : s.slots i with
          | none =>
            simp only [here, live, Option.map_some, Option.some.injEq]
            exact withSlots_same (s := s)
              (t := { s with consumer := .idle, held := some i, fault := some .readOfDead }) same rfl
          | some v =>
            simp only [here, live, Option.map_some, Option.some.injEq]
            exact withSlots_same (s := s) (t := s) same rfl
      | _ => rfl

theorem step_changes {l : Label α} {i : Nat} (h : step r s l = some t)
    (changed : t.slots i ≠ s.slots i) : accesses r s l = some i := by
  by_contra elsewhere
  have moved := step_withSlots (m := s.slots) (l := l) (r := r) (s := s) (fun _ _ => rfl)
  change step r s l = _ at moved
  rw [h, Option.map_some, Option.some.injEq] at moved
  have kept := congrFun (congrArg State.slots moved) i
  simp only [State.withSlots, touching, if_neg elsewhere] at kept
  exact changed kept

end RingBuffers.Spsc
