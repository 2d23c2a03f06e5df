import RingBuffers.Spsc.Machine

/-! The consumer and the producer share the atomics and the slots and nothing else: whatever
the producer is doing, a step of the consumer does the same and leaves it to do that. -/
namespace RingBuffers.Spsc

variable {α : Type} {r : Ring} {s t : State α}

/-- The producer's place in the code and the result of its last call. -/
def State.asProducer (s : State α) (pc : ProducerPC α) (res : Option PushResult) : State α :=
  { s with producer := pc, pushResult := res }

section AsProducer

variable (s : State α) (pc : ProducerPC α) (res : Option PushResult)

theorem returnPointer_asProducer (pop : Nat) :
    returnPointer r (s.asProducer pc res) pop = (returnPointer r s pop).asProducer pc res := by
  unfold returnPointer
  cases r.slot pop <;> rfl

theorem afterFrontLoad_asProducer (pop : Nat) (push : Seen) :
    afterFrontLoad r (s.asProducer pc res) pop push =
      (afterFrontLoad r s pop push).asProducer pc res := by
  unfold afterFrontLoad
  cases r.cached with
  | true => rfl
  | false =>
    by_cases empty : pop = push.value
    · simp only [empty]
      rfl
    · simp only [empty, Bool.false_eq_true, if_false]
      exact returnPointer_asProducer { s with pushCursorCache := push } pc res pop

theorem destroyAt_asProducer (pop : Nat) :
    destroyAt r (s.asProducer pc res) pop = (destroyAt r s pop).asProducer pc res := by
  have slots : (s.asProducer pc res).slots = s.slots := rfl
  unfold destroyAt
  rw [slots]
  cases r.slot pop with
  | none => rfl
  | some i => cases live : s.slots i <;> simp only [live] <;> rfl

theorem storePop_asProducer (pop : Nat) (v : α) :
    storePop r (s.asProducer pc res) pop v = (storePop r s pop v).asProducer pc res := by
  unfold storePop
  cases r.next pop <;> rfl

theorem consumerStep_asProducer (i : Nat) :
    consumerStep r (s.asProducer pc res) i =
      (consumerStep r s i).map (fun u => u.asProducer pc res) := by
  have memory : (s.asProducer pc res).memory = s.memory := rfl
  have cache : (s.asProducer pc res).pushCursorCache = s.pushCursorCache := rfl
  have place : (s.asProducer pc res).consumer = s.consumer := rfl
  unfold consumerStep
  rw [place, memory, cache]
  cases s.consumer with
  | idle => rfl
  | frontLoadPop | frontLoadPush pop | popLoadPop | loadClosed =>
    simp only [Option.map_map]
    rfl
  | frontReadCache pop =>
    by_cases empty : pop = s.pushCursorCache.value
    · simp only [empty, if_true]
      rfl
    · simp only [empty, if_false, returnPointer_asProducer, Option.map_some]
  | frontLoaded pop push => simp only [afterFrontLoad_asProducer, Option.map_some]
  | frontRecheck pop =>
    by_cases empty : pop = s.pushCursorCache.value
    · simp only [empty, if_true]
      rfl
    · simp only [empty, if_false, returnPointer_asProducer, Option.map_some]
  | popAssert pop =>
    simp only [Option.map_map]
    congr 1
    funext ⟨x, m⟩
    by_cases empty : pop = x
    · simp only [Function.comp_apply, empty, if_true]
      rfl
    · simp only [Function.comp_apply, empty, if_false]
      rfl
  | popDestroy pop => simp only [destroyAt_asProducer, Option.map_some]
  | popStore pop v => simp only [storePop_asProducer, Option.map_some]

end AsProducer

def Label.consumers : Label α → Bool
  | .front | .pop | .closed | .consumer _ | .read => true
  | _ => false

/-- A step of the consumer neither reads nor changes what the producer is doing. -/
theorem step_asProducer (s : State α) (pc : ProducerPC α) (res : Option PushResult)
    {l : Label α} (h : l.consumers = true) :
    step r (s.asProducer pc res) l = (step r s l).map (fun u => u.asProducer pc res) := by
  have fault : (s.asProducer pc res).fault = s.fault := rfl
  unfold step
  rw [fault]
  by_cases stopped : s.fault.isSome = true
  · simp only [stopped, if_true]
    rfl
  · simp only [stopped, Bool.false_eq_true, if_false]
    cases l with
    | emplace v | tryEmplace v | close | producer i | throw => cases h
    | front | pop | closed =>
      simp only [callConsumer, State.asProducer]
      cases s.consumer <;> rfl
    | consumer i => exact consumerStep_asProducer s pc res i
    | read =>
      simp only [readStep, State.asProducer]
      cases at_pc : s.consumer with
      | idle =>
        cases held : s.held with
        | none => rfl
        | some i => cases live : s.slots i <;> simp [live, at_pc, held]
      | _ => rfl

theorem step_keeps_producer {l : Label α} (h : l.consumers = true)
    (moved : step r s l = some t) :
    t.producer = s.producer ∧ t.pushResult = s.pushResult := by
  have same := step_asProducer (r := r) s s.producer s.pushResult h
  change step r s l = _ at same
  rw [moved] at same
  have kept : t = t.asProducer s.producer s.pushResult := Option.some.inj same
  have pc := congrArg State.producer kept
  have res := congrArg State.pushResult kept
  exact ⟨pc, res⟩

end RingBuffers.Spsc
