import RingBuffers.Spsc.Independence
import RingBuffers.Spsc.Linearizable

/-! `emplace` beside a loop around `try_emplace`. The one spins on its cached cursor; the other
tests the cache, reloads, tests again and gives up, to be called again. Under one schedule
they go through the same states, so they read the same stores of `popCursor_` and find room
together. -/
namespace RingBuffers.Spsc
open ReleaseAcquire Transition

variable {α : Type}

/-- The loop calls `try_emplace` again when it has returned false. Up to its reload the new call
reads only what the producer itself has written, so these steps are taken at once. -/
def again (r : Ring) (v : α) (s : State α) : Option (State α) :=
  match s.pushResult with
  | some .full =>
    let own := (s.memory.history .pushCursor).length - 1
    exec (step r) s [.tryEmplace v, .producer own, .producer 0]
  | _ => some s

/-- A step of the consumer, or of `while (!try_emplace(v)) {}`. -/
def retryStep (r : Ring) (v : α) (s : State α) (l : Label α) : Option (State α) :=
  (step r s l).bind (again r v)

/-- A step of the running push or of the consumer, and no exception. -/
def Label.running : Label α → Bool
  | .emplace _ | .tryEmplace _ | .close | .throw => false
  | _ => true

def reload (s : State α) : Label α → Option Nat
  | .producer i => match s.producer with
    | .loadPopCursor _ => some i
    | _ => none
  | _ => none

def reloads (f : State α → Label α → Option (State α)) (s : State α) (ls : List (Label α)) :
    List Nat :=
  (trace f reload s ls).filterMap id

def current (s : State α) (l : Label α) : Bool :=
  match reload s l with
  | none => true
  | some i => i + 1 == (s.memory.history .popCursor).length

/-- The push has found room: it constructs, stores `pushCursor_` and returns. -/
def State.exited (s : State α) : Bool :=
  match s.producer with
  | .construct _ | .storePushCursor _ | .idle => true
  | _ => false

/-- `emplace` in `s` and the loop in `t`: only the producer's place in the code may differ, and
not even that once they return. -/
structure Together (s t : State α) : Prop where
  members : t = { s with producer := t.producer }
  exited : t.exited = s.exited
  returned : t.producer = .idle ↔ s.producer = .idle
  accepted : t.producer = .idle → t.pushResult = some .constructed ∧ t = s

/-- What the comparison needs of the class: `emplace` has a cache to spin on, and reading its own
cursor again changes nothing. -/
structure Caching (r : Ring) : Prop extends Synchronizes r where
  cached : r.cached = true
  relaxed : r.own.acquires = false

section Lockstep

variable {r : Ring} {e : Encoding r} {s t : State α}

/-- Where `emplace` and the loop are, with the result the last call left: a second test of the cache
is the loop condition of `emplace` and the inner test of `try_emplace`. -/
inductive Twin (v : α) : Option PushResult → ProducerPC α → ProducerPC α → Prop where
  | loadPushCursor : Twin v none (.loadPushCursor .emplace v) (.loadPushCursor .tryEmplace v)
  | readCache (push next : Nat) :
      Twin v none (.readCache ⟨.emplace, v, push, next⟩) (.readCache ⟨.tryEmplace, v, push, next⟩)
  | recheck (push next : Nat) :
      Twin v none (.readCache ⟨.emplace, v, push, next⟩) (.recheck ⟨.tryEmplace, v, push, next⟩)
  | loadPopCursor (push next : Nat) :
      Twin v none (.loadPopCursor ⟨.emplace, v, push, next⟩)
        (.loadPopCursor ⟨.tryEmplace, v, push, next⟩)
  | loaded (push next : Nat) (pop : Seen) :
      Twin v none (.loaded ⟨.emplace, v, push, next⟩ pop) (.loaded ⟨.tryEmplace, v, push, next⟩ pop)
  | construct (push next : Nat) :
      Twin v none (.construct ⟨.emplace, v, push, next⟩) (.construct ⟨.tryEmplace, v, push, next⟩)
  | storePushCursor (push next : Nat) :
      Twin v none (.storePushCursor ⟨.emplace, v, push, next⟩)
        (.storePushCursor ⟨.tryEmplace, v, push, next⟩)
  | returned : Twin v (some .constructed) .idle .idle

structure Mirrors (v : α) (s t : State α) : Prop where
  twin : Twin v s.pushResult s.producer t.producer
  same : t = { s with producer := t.producer }

theorem Mirrors.consumer_step {v : α} (mirrors : Mirrors v s t) {l : Label α}
    (h : l.consumers = true) : Option.Rel (Mirrors v) (step r s l) (retryStep r v t l) := by
  obtain ⟨twin, same⟩ := mirrors
  have same' : t = s.asProducer t.producer s.pushResult := same
  rw [same', retryStep, step_asProducer s _ _ h]
  cases moved : step r s l with
  | none => exact .none
  | some u =>
    obtain ⟨pc, res⟩ := step_keeps_producer h moved
    have stays : again r v (u.asProducer t.producer s.pushResult) =
        some (u.asProducer t.producer s.pushResult) := by
      have retried : s.pushResult ≠ some .full := by
        intro full
        rw [full] at twin
        cases twin
      unfold again State.asProducer
      split
      · contradiction
      · rfl
    simp only [Option.map_some, Option.bind_some]
    rw [stays]
    refine .some ⟨?_, ?_⟩
    · rw [pc, res]
      exact twin
    · rw [State.asProducer, ← res]

theorem Inv.load_own (inv : Inv e s) {o : Order} (relaxed : o.acquires = false) :
    s.memory.load .producer .pushCursor o ((s.memory.history .pushCursor).length - 1) =
      some (e.cursor s.pushed.length, s.memory) := by
  have length := inv.pushHistory.length
  have own := inv.ownPush
  have bound := (inv.views.agents .producer).pushBound
  have short : s.pushed.length < (s.memory.history .pushCursor).length := by omega
  have at_last := List.getElem?_eq_getElem short
  have seen : (s.memory.view .producer).stamp .pushCursor = s.pushed.length := by omega
  have value := inv.pushHistory.value _ _ at_last
  rw [length, Nat.add_sub_cancel, load_again relaxed seen at_last, value]

def Mode.call (mode : Mode) (v : α) : Label α :=
  match mode with
  | .emplace => .emplace v
  | .tryEmplace => .tryEmplace v

def State.calling (s : State α) (mode : Mode) (v : α) : State α :=
  s.asProducer (.loadPushCursor mode v) none

theorem Inv.calling (inv : Inv e s) (idle : s.producer = .idle) (mode : Mode) (v : α) :
    Inv e (s.calling mode v) :=
  (inv.toProducer (.loadPushCursor mode v) (by rw [idle]; rfl) trivial).returns none _

theorem Inv.step_call (inv : Inv e s) (idle : s.producer = .idle) (mode : Mode) (v : α) :
    step r s (mode.call v) = some (s.calling mode v) := by
  cases mode <;> simp [Mode.call, step, inv.sound, callProducer, idle, State.calling,
    State.asProducer]

def State.frame (s : State α) (e : Encoding r) (mode : Mode) (v : α) : Frame α :=
  ⟨mode, v, e.cursor s.pushed.length, e.cursor (s.pushed.length + 1)⟩

theorem Inv.step_own (inv : Inv e s) (shape : Caching r) (mode : Mode) (v : α) :
    step r (s.calling mode v) (.producer ((s.memory.history .pushCursor).length - 1)) =
      some (s.asProducer (.readCache (s.frame e mode v)) none) := by
  simp [step, inv.sound, producerStep, State.calling, State.asProducer, inv.load_own shape.relaxed,
    enterPush, e.next_cursor, shape.cached, State.frame]

theorem Inv.reading (inv : Inv e s) (idle : s.producer = .idle) (mode : Mode) (v : α) :
    Inv e (s.asProducer (.readCache (s.frame e mode v)) none) :=
  (inv.toProducer (.readCache (s.frame e mode v)) (by rw [idle]; rfl) ⟨rfl, rfl⟩).returns none _

theorem Inv.step_test (inv : Inv e s) {f : Frame α} (at_pc : s.producer = .readCache f) (i : Nat) :
    step r s (.producer i) =
      some { s with producer := if s.pushed.length = s.popCursorCache.stamp + e.bound then
        .loadPopCursor f else .construct f } := by
  have at_f := inv.producer
  rw [at_pc] at at_f
  have full := inv.fullAgainst_iff at_f inv.popCache_now inv.behind
  simp [step, inv.sound, producerStep, at_pc, full]

theorem Inv.enter_eq (inv : Inv e s) (shape : Caching r) (idle : s.producer = .idle)
    (mode : Mode) (v : α) :
    exec (step r) s [mode.call v, .producer ((s.memory.history .pushCursor).length - 1),
        .producer 0] =
      some (s.asProducer (if s.pushed.length = s.popCursorCache.stamp + e.bound then
        .loadPopCursor (s.frame e mode v)
      else .construct (s.frame e mode v)) none) := by
  have test := (inv.reading idle mode v).step_test rfl 0
  simp only [exec, inv.step_call idle, inv.step_own shape, test, Option.bind_some]
  rfl

/-- `try_emplace` returned false against a cache that shows no room: the next call tests the same
cache and comes back to its reload. -/
theorem Inv.again_full (inv : Inv e s) (shape : Caching r) (v : α)
    (full : s.pushed.length = s.popCursorCache.stamp + e.bound)
    (same : s.producer.building = []) :
    again r v (returnFull s) = some (s.asProducer
      (.loadPopCursor (s.frame e .tryEmplace v)) none) := by
  have idle : Inv e (returnFull s) :=
    (inv.toProducer .idle same.symm trivial).returns (some .full) s.consumerResult
  have entered := idle.enter_eq shape rfl .tryEmplace v
  have still : (returnFull s).pushed.length = (returnFull s).popCursorCache.stamp + e.bound := full
  rw [if_pos still] at entered
  exact entered

theorem Mirrors.producer_step {v : α} (mirrors : Mirrors v s t) (inv : Inv e s)
    (shape : Caching r) (i : Nat) :
    Option.Rel (Mirrors v) (step r s (.producer i)) (retryStep r v t (.producer i)) := by
  obtain ⟨twin, same⟩ := mirrors
  have ok := inv.producer
  have taken : step r s (.producer i) = producerStep r s i := by simp [step, inv.sound]
  have taken' : ∀ pc, retryStep r v { s with producer := pc } (.producer i) =
      (producerStep r { s with producer := pc } i).bind (again r v) := by
    intro pc
    simp [retryStep, step, inv.sound]
  generalize place : t.producer = pc at twin same
  generalize at_pc : s.producer = pc' at twin ok
  generalize result : s.pushResult = res at twin
  rw [same, taken, taken']
  cases twin with
  | loadPushCursor =>
    cases load : s.memory.load .producer .pushCursor r.own i with
    | none => simp [producerStep, at_pc, load]
    | some loaded =>
      obtain ⟨x, m⟩ := loaded
      obtain ⟨rfl, _⟩ := inv.load_own_push load
      simp only [producerStep, at_pc, load, Option.map_some, enterPush, e.next_cursor, shape.cached,
        if_true, Option.bind_some, again, result]
      exact .some ⟨.readCache _ _, rfl⟩
  | readCache push next =>
    have modes : fullAgainst r ⟨.tryEmplace, v, push, next⟩ s.popCursorCache =
        fullAgainst r ⟨.emplace, v, push, next⟩ s.popCursorCache := rfl
    simp only [producerStep, at_pc, modes, Option.bind_some, again, result]
    split
    · exact .some ⟨.loadPopCursor _ _, rfl⟩
    · exact .some ⟨.construct _ _, rfl⟩
  | recheck push next =>
    have modes : fullAgainst r ⟨.tryEmplace, v, push, next⟩ s.popCursorCache =
        fullAgainst r ⟨.emplace, v, push, next⟩ s.popCursorCache := rfl
    have full := inv.fullAgainst_iff ok inv.popCache_now inv.behind
    simp only [producerStep, at_pc, modes]
    split
    · rename_i test
      have next_call := inv.again_full shape v (full.mp test) (by rw [at_pc]; rfl)
      have push_eq : push = e.cursor s.pushed.length := ok.cursor
      have next_eq : next = e.cursor (s.pushed.length + 1) := ok.next
      have tried : returnFull { s with producer := .recheck ⟨.tryEmplace, v, push, next⟩ } =
          returnFull s := rfl
      rw [tried, Option.bind_some, next_call, push_eq, next_eq]
      refine .some ⟨?_, by rw [State.asProducer, ← result]⟩
      simp only [result]
      exact .loadPopCursor _ _
    · simp only [Option.bind_some, again, result]
      exact .some ⟨.construct _ _, rfl⟩
  | loadPopCursor push next =>
    cases load : s.memory.load .producer .popCursor r.other i with
    | none => simp [producerStep, at_pc, load]
    | some loaded =>
      obtain ⟨x, m⟩ := loaded
      simp only [producerStep, at_pc, load, Option.map_some, Option.bind_some, again, result]
      exact .some ⟨.loaded _ _ _, rfl⟩
  | loaded push next pop =>
    simp only [producerStep, at_pc, afterLoad, shape.cached, if_true, Option.bind_some, again,
      result]
    exact .some ⟨.recheck _ _, rfl⟩
  | construct push next =>
    obtain ⟨slot, free⟩ := inv.construct_slot at_pc
    simp only [producerStep, at_pc, constructAt, slot, free, Option.bind_some, again, result]
    exact .some ⟨.storePushCursor _ _, rfl⟩
  | storePushCursor push next =>
    simp only [producerStep, at_pc, Option.bind_some, again]
    exact .some ⟨.returned, rfl⟩
  | returned =>
    simp only [producerStep, at_pc, Option.bind_none]
    exact .none

theorem Mirrors.step {v : α} (mirrors : Mirrors v s t) (inv : Inv e s) (shape : Caching r)
    {l : Label α} (contract : frontFirst s l = true) (running : l.running = true) :
    Option.Rel (fun s t => Inv e s ∧ Mirrors v s t) (step r s l) (retryStep r v t l) := by
  have both : Option.Rel (Mirrors v) (Spsc.step r s l) (retryStep r v t l) := by
    cases l with
    | emplace v | tryEmplace v | close | throw => cases running
    | producer i => exact mirrors.producer_step inv shape i
    | front | pop | closed | consumer i | read => exact mirrors.consumer_step rfl
  rcases rel_cases both with ⟨stuck, stuck'⟩ | ⟨u, w, moved, moved', still⟩
  · rw [stuck, stuck']
    exact .none
  · rw [moved, moved']
    exact .some ⟨step_inv shape.toSynchronizes inv contract moved, still⟩

theorem Twin.returned_iff {v : α} {res : Option PushResult} {pc pc' : ProducerPC α}
    (twin : Twin v res pc pc') :
    (pc' = .idle ↔ pc = .idle) ∧ (pc' = .idle → res = some .constructed) := by
  cases twin <;> simp

theorem Mirrors.reload_eq {v : α} (mirrors : Mirrors v s t) (l : Label α) :
    reload s l = reload t l := by
  have twin := mirrors.twin
  generalize s.pushResult = res at twin
  cases l with
  | producer i =>
    simp only [reload]
    generalize s.producer = pc at twin
    generalize t.producer = pc' at twin
    cases twin <;> rfl
  | _ => rfl

theorem Mirrors.exited_eq {v : α} (mirrors : Mirrors v s t) : t.exited = s.exited := by
  have twin := mirrors.twin
  unfold State.exited
  generalize s.pushResult = res at twin
  generalize s.producer = pc at twin
  generalize t.producer = pc' at twin
  cases twin <;> rfl

theorem Mirrors.together {v : α} (mirrors : Mirrors v s t) : Together s t where
  members := mirrors.same
  exited := mirrors.exited_eq
  returned := mirrors.twin.returned_iff.1
  accepted := by
    intro idle
    have same := mirrors.same
    have idle' := mirrors.twin.returned_iff.1.mp idle
    have result : t.pushResult = s.pushResult := by rw [same]
    rw [idle, ← idle'] at same
    exact ⟨result.trans (mirrors.twin.returned_iff.2 idle), same⟩

theorem Inv.together (inv : Inv e s) (shape : Caching r) (idle : s.producer = .idle) (v : α)
    {ls : List (Label α)} (running : ∀ l ∈ ls, l.running = true)
    (contract : Along (step r) (fun s l => frontFirst s l = true) s (.emplace v :: ls)) :
    Option.Rel Together (exec (step r) s (.emplace v :: ls))
        (exec (retryStep r v) s (.tryEmplace v :: ls)) ∧
      reloads (step r) s (.emplace v :: ls) =
        reloads (retryStep r v) s (.tryEmplace v :: ls) := by
  have call : step r s (.emplace v) = some (s.calling .emplace v) := inv.step_call idle .emplace v
  have retry : retryStep r v s (.tryEmplace v) = some (s.calling .tryEmplace v) := by
    have call := inv.step_call idle .tryEmplace v
    rw [Mode.call] at call
    rw [retryStep, call]
    rfl
  have start : Inv e (s.calling .emplace v) ∧ Mirrors v (s.calling .emplace v)
      (s.calling .tryEmplace v) := ⟨inv.calling idle _ v, .loadPushCursor, rfl⟩
  obtain ⟨_, later⟩ := contract
  rw [call] at later
  have admitted := later.labels (fun l => l.running = true) running
  have matched : ∀ s t l, Inv e s ∧ Mirrors v s t → frontFirst s l = true ∧ l.running = true →
      Option.Rel (fun s t => Inv e s ∧ Mirrors v s t) (step r s l) (retryStep r v t l) :=
    fun s t l related admitted =>
      related.2.step related.1 shape admitted.1 admitted.2
  constructor
  · simp only [exec, call, retry, Option.bind_some]
    rcases rel_cases (lockstep _ matched start admitted) with
      ⟨stuck, stuck'⟩ | ⟨u, w, moved, moved', _, still⟩
    · rw [stuck, stuck']
      exact .none
    · rw [moved, moved']
      exact .some still.together
  · have same := lockstep_trace _ reload reload matched
      (fun s t l related => related.2.reload_eq l) start admitted
    simp only [reloads, trace, call, retry, same]
    rfl

end Lockstep

end RingBuffers.Spsc
