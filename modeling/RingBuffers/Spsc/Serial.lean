import RingBuffers.Spsc.Finish

/-! Where the machine stands when calls do not overlap. A step leaves the value of what remains of
the call alone, and the last one leaves a result that says it. -/
namespace RingBuffers.Spsc
open BoundedQueue ReleaseAcquire Transition

variable {α : Type} {r : Ring}

/-- A call starts while the other thread is idle. -/
def apart (s : State α) : Label α → Bool
  | .emplace _ | .tryEmplace _ | .close => s.consumer.isIdle
  | .front | .pop | .closed => s.producer.isIdle
  | _ => true

/-- Where the machine stands when calls do not overlap: between calls it is the session `x`,
and within a call what remains of it leads where the call leads from `x`. -/
structure Serial (r : Ring) (x : Session α) (s : State α) : Prop where
  alone : s.producer = .idle ∨ s.consumer = .idle
  rests : s.quiet → s.session = x
  reads : ∀ f pop, s.producer = .loaded f pop → pop.value = s.toBuffer.popCursor
  pushes : ∀ throws op, s.producer.operation throws = some op →
    operate r x op =
      (s.producer.finish r throws s.toBuffer).map fun (o, b) => (o, ⟨b, s.held.isSome⟩)
  pulls : ∀ k, s.consumer.call = some k →
    operate r x (.call k) = (s.consumer.finish r s.toBuffer).map fun (a, b) =>
      (.answer a, ⟨b, heldAfter s.held.isSome k a⟩)

/-- An operation of a session as a step of a specification; the client is told its outcome. -/
def Serves (r : Ring) (x : Session α) (k : Operation α × Option (Outcome α)) (y : Session α) :
    Prop :=
  ∃ o, k.2 = some o ∧ operate r x k.1 = .ok (o, y)

section Rules

variable {e : Encoding r} {x : Session α} {s t : State α}

theorem serial_quiet (quiet : s.quiet) : Serial r s.session s where
  alone := .inl quiet.1
  rests _ := rfl
  reads f pop at_pc := by
    rw [quiet.1] at at_pc
    cases at_pc
  pushes throws op pending := by
    rw [quiet.1] at pending
    cases pending
  pulls k pending := by
    rw [quiet.2] at pending
    cases pending

theorem Serial.producer_idle (serial : Serial r x s) (busy : s.consumer ≠ .idle) :
    s.producer = .idle := serial.alone.resolve_right busy

theorem Serial.consumer_idle (serial : Serial r x s) (busy : s.producer ≠ .idle) :
    s.consumer = .idle := serial.alone.resolve_left busy

theorem stays {y : Session α} (none_ : reports s t = []) (same : y = x)
    (serial : Serial r y t) : ∃ y, Path (Serves r) x (reports s t) y ∧ Serial r y t := by
  rw [none_]
  exact ⟨x, .nil x, same ▸ serial⟩

theorem Serial.keeps_push (serial : Serial r x s) {pc : ProducerPC α} (at_pc : s.producer = pc)
    (busy : pc ≠ .idle) (still : t.producer ≠ .idle) (consumer : t.consumer = s.consumer)
    (held : t.held = s.held)
    (reads : ∀ f pop, t.producer = .loaded f pop → pop.value = t.toBuffer.popCursor)
    (same : ∀ throws op, t.producer.operation throws = some op →
      pc.operation throws = some op ∧
        t.producer.finish r throws t.toBuffer = pc.finish r throws s.toBuffer) :
    ∃ y, Path (Serves r) x (reports s t) y ∧ Serial r y t := by
  subst at_pc
  have idle : t.consumer = .idle := consumer.trans (serial.consumer_idle busy)
  apply stays (reports_none (.inr still) (.inl consumer)) rfl
  constructor
  · exact .inr idle
  · exact fun quiet => absurd quiet.1 still
  · exact reads
  · intro throws op pending
    obtain ⟨before, finish⟩ := same throws op pending
    rw [finish, held]
    exact serial.pushes throws op before
  · intro k pending
    rw [idle] at pending
    cases pending

theorem Serial.keeps_pull (serial : Serial r x s) {pc : ConsumerPC α} (at_pc : s.consumer = pc)
    (busy : pc ≠ .idle) (still : t.consumer ≠ .idle) (producer : t.producer = s.producer)
    (held : t.held = s.held) (call : t.consumer.call = pc.call)
    (same : t.consumer.finish r t.toBuffer = pc.finish r s.toBuffer) :
    ∃ y, Path (Serves r) x (reports s t) y ∧ Serial r y t := by
  subst at_pc
  have idle : t.producer = .idle := producer.trans (serial.producer_idle busy)
  apply stays (reports_none (.inl producer) (.inr still)) rfl
  constructor
  · exact .inl idle
  · exact fun quiet => absurd quiet.2 still
  · intro f pop at_pc
    rw [idle] at at_pc
    cases at_pc
  · intro throws op pending
    rw [idle] at pending
    cases pending
  · intro k pending
    rw [same, held]
    exact serial.pulls k (call ▸ pending)

theorem Serial.ends_push (serial : Serial r x s) {pc : ProducerPC α} (at_pc : s.producer = pc)
    (idle : t.producer = .idle) (consumer : t.consumer = s.consumer) (held : t.held = s.held)
    {op : Operation α} {o : Outcome α}
    (pending : pc.operation (t.pushResult == some .threw) = some op)
    (told : op.outcome t.pushResult = some o)
    (finish : pc.finish r (t.pushResult == some .threw) s.toBuffer = .ok (o, t.toBuffer)) :
    ∃ y, Path (Serves r) x (reports s t) y ∧ Serial r y t := by
  subst at_pc
  have busy : s.producer ≠ .idle := by
    intro resting
    rw [resting] at pending
    cases pending
  have quiet : t.quiet := ⟨idle, consumer.trans (serial.consumer_idle busy)⟩
  have served : operate r x op = .ok (o, t.session) := by
    rw [serial.pushes _ op pending, finish, State.session, held]
    rfl
  rw [reports_push consumer idle pending]
  exact ⟨t.session, .cons ⟨o, told, served⟩ (.nil _), serial_quiet quiet⟩

theorem Serial.ends_pull (serial : Serial r x s) {pc : ConsumerPC α} (at_pc : s.consumer = pc)
    (idle : t.consumer = .idle) (producer : t.producer = s.producer) {k : Call α} {a : Answer α}
    (held : heldAfter s.held.isSome k a = t.held.isSome) (pending : pc.call = some k)
    (told : t.consumerResult.bind (·.answer t.slots) = some a)
    (finish : pc.finish r s.toBuffer = .ok (a, t.toBuffer)) :
    ∃ y, Path (Serves r) x (reports s t) y ∧ Serial r y t := by
  subst at_pc
  have busy : s.consumer ≠ .idle := by
    intro resting
    rw [resting] at pending
    cases pending
  have quiet : t.quiet := ⟨producer.trans (serial.producer_idle busy), idle⟩
  have served : operate r x (.call k) = .ok (.answer a, t.session) := by
    rw [serial.pulls k pending, finish, State.session, ← held]
    rfl
  rw [reports_pull producer idle pending, told]
  exact ⟨t.session, .cons ⟨.answer a, rfl, served⟩ (.nil _), serial_quiet quiet⟩

theorem toBuffer_load {a : Agent} {k : Loc} {o : Order} {i : Nat} {v : k.Val} {m : Atomics α}
    (load : s.memory.load a k o i = some (v, m)) (pc : ProducerPC α) (pc' : ConsumerPC α)
    (res : Option ConsumerResult) :
    State.toBuffer { s with memory := m, producer := pc, consumer := pc', consumerResult := res } =
      s.toBuffer := by
  simp only [State.toBuffer, Memory.newest, load_history load]

theorem starts_push (quiet : s.quiet) (consumer : t.consumer = s.consumer)
    (busy : t.producer ≠ .idle)
    (reads : ∀ f pop, t.producer = .loaded f pop → pop.value = t.toBuffer.popCursor)
    (starts : ∀ throws op, t.producer.operation throws = some op →
      operate r s.session op =
        (t.producer.finish r throws t.toBuffer).map fun (o, b) => (o, ⟨b, t.held.isSome⟩)) :
    Serial r s.session t where
  alone := .inr (consumer.trans quiet.2)
  rests resting := absurd resting.1 busy
  reads := reads
  pushes := starts
  pulls k pending := by
    rw [consumer, quiet.2] at pending
    cases pending

theorem operate_call (k : Call α) : operate r x (.call k) =
    (perform r x.buffer k).map fun (a, b) => (.answer a, ⟨b, heldAfter x.held k a⟩) := by
  simp only [operate, Session.call]
  cases perform r x.buffer k <;> rfl

theorem starts_pull {k : Call α} (quiet : s.quiet) (producer : t.producer = s.producer)
    (busy : t.consumer ≠ .idle) (call : t.consumer.call = some k)
    (starts : perform r s.toBuffer k = t.consumer.finish r t.toBuffer)
    (held : ∀ a : Answer α, heldAfter s.held.isSome k a = heldAfter t.held.isSome k a) :
    Serial r s.session t where
  alone := .inl (producer.trans quiet.1)
  rests resting := absurd resting.2 busy
  reads f pop at_pc := by
    rw [producer, quiet.1] at at_pc
    cases at_pc
  pushes throws op pending := by
    rw [producer, quiet.1] at pending
    cases pending
  pulls j pending := by
    rw [call] at pending
    obtain rfl := Option.some.inj pending
    rw [operate_call, ← starts]
    simp only [State.session, held]

theorem Inv.toBuffer_cursors (inv : Inv e s) :
    s.toBuffer.pushCursor = e.cursor s.pushed.length ∧
      s.toBuffer.popCursor = e.cursor s.consumed.length := by
  constructor
  · rw [State.toBuffer, inv.newest_pushCursor, Option.getD_some]
  · rw [State.toBuffer, inv.newest_popCursor, Option.getD_some]

theorem Inv.roomIn_eq (inv : Inv e s) {f : Frame α} (at_f : f.At e s.pushed.length) {pop : Seen}
    {high : Nat} (between : pop.Between e s.popCursorCache.stamp high)
    (bound : pop.stamp ≤ s.consumed.length) :
    roomIn r { s.toBuffer with popCursorCache := pop.value } f.next =
      (decide (s.pushed.length < pop.stamp + e.bound),
        { s.toBuffer with popCursorCache := pop.value }) := by
  have room := inv.room
  have low := between.low
  have test : (!fullAgainst r f pop) = decide (s.pushed.length < pop.stamp + e.bound) := by
    rw [Bool.eq_iff_iff, Bool.not_eq_true', ← Bool.not_eq_true,
      inv.fullAgainst_iff at_f between bound, decide_eq_true_eq]
    omega
  rw [← test]
  simp only [roomIn, fullAgainst, inv.toBuffer_cursors.1, at_f.cursor]

theorem Inv.roomIn_loaded (inv : Inv e s) {f : Frame α} {pop : Seen}
    (at_pc : s.producer = .loaded f pop) :
    roomIn r { s.toBuffer with popCursorCache := pop.value } f.next =
      (decide (s.pushed.length < pop.stamp + e.bound),
        { s.toBuffer with popCursorCache := pop.value }) := by
  have ok := inv.producer
  rw [at_pc] at ok
  exact inv.roomIn_eq ok.1 ok.2 (ok.2.high.trans (inv.views.agents .producer).popBound)

theorem Inv.roomIn_cache (inv : Inv e s) {f : Frame α} (at_f : f.At e s.pushed.length) :
    roomIn r s.toBuffer f.next =
      (decide (s.pushed.length < s.popCursorCache.stamp + e.bound), s.toBuffer) :=
  inv.roomIn_eq at_f inv.popCache_now inv.behind

theorem Serial.starts_mode (serial : Serial r x s) (idle : s.producer = .idle)
    (rest : s.consumer = .idle) (mode : Mode) (v : α) :
    Serial r x { s with producer := .loadPushCursor mode v, pushResult := none } := by
  have quiet : s.quiet := ⟨idle, rest⟩
  obtain rfl := serial.rests quiet
  refine starts_push quiet rfl (by simp) (by simp) ?_
  intro throws op pending
  obtain rfl := Option.some.inj pending
  exact operate_push throws mode v

theorem Serial.starts_close (serial : Serial r x s) (idle : s.producer = .idle)
    (rest : s.consumer = .idle) :
    Serial r x { s with producer := .storeClosed, pushResult := none } := by
  have quiet : s.quiet := ⟨idle, rest⟩
  obtain rfl := serial.rests quiet
  refine starts_push quiet rfl (by simp) (by simp) ?_
  intro throws op pending
  cases throws with
  | true => cases pending
  | false =>
    obtain rfl := Option.some.inj pending
    rfl

end Rules

end RingBuffers.Spsc
