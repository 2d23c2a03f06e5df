import RingBuffers.Spsc.Failure

/-! What the clients of the machine are told. A call returns with the step that makes its thread
idle; which call it is shows from the place in the code it returns from, and what it answers from
the result it leaves, read through the pointer if that is one. -/
namespace RingBuffers.Spsc
open BoundedQueue

variable {α : Type}

def Mode.operation (throws : Bool) (mode : Mode) (v : α) : Operation α :=
  if throws then .throwing mode
  else match mode with
    | .emplace => .call (.push v)
    | .tryEmplace => .call (.tryPush v)

/-- The operation a push may still turn out to be. -/
def ProducerPC.operation (throws : Bool) : ProducerPC α → Option (Operation α)
  | .idle => none
  | .loadPushCursor mode v => some (mode.operation throws v)
  | .readCache f | .loadPopCursor f | .loaded f _ | .recheck f | .construct f =>
    some (f.mode.operation throws f.value)
  | .storePushCursor f => if throws then none else some (f.mode.operation false f.value)
  | .storeClosed => if throws then none else some (.call .close)

def ConsumerPC.call : ConsumerPC α → Option (Call α)
  | .idle => none
  | .frontLoadPop | .frontReadCache _ | .frontLoadPush _ | .frontLoaded _ _ | .frontRecheck _ =>
    some .front
  | .popLoadPop | .popAssert _ | .popDestroy _ | .popStore _ _ => some .pop
  | .loadClosed => some .closed

def ProducerPC.isIdle : ProducerPC α → Bool
  | .idle => true
  | _ => false

def ConsumerPC.isIdle : ConsumerPC α → Bool
  | .idle => true
  | _ => false

/-- What the result of a push or of `close` says; a result of another call says nothing. -/
def Operation.outcome : Operation α → Option PushResult → Option (Outcome α)
  | .call (.push _), some .constructed | .call .close, none => some (.answer .done)
  | .call (.tryPush _), some .constructed => some (.answer (.pushed true))
  | .call (.tryPush _), some .full => some (.answer (.pushed false))
  | .throwing _, some .threw => some .threw
  | _, _ => none

/-- There is no answer at a pointer to a dead slot. -/
def ConsumerResult.answer (slots : Nat → Option α) : ConsumerResult → Option (Answer α)
  | .front none => some (.front none)
  | .front (some i) => (slots i).map fun v => .front (some v)
  | .popped => some .done
  | .closed b => some (.closed b)

def pushReports (s t : State α) : List (Operation α × Option (Outcome α)) :=
  if t.producer.isIdle then
    ((s.producer.operation (t.pushResult == some .threw)).map
      fun op => (op, op.outcome t.pushResult)).toList
  else []

def pullReports (s t : State α) : List (Operation α × Option (Outcome α)) :=
  if t.consumer.isIdle then
    (s.consumer.call.map fun k =>
      (.call k, (t.consumerResult.bind (·.answer t.slots)).map .answer)).toList
  else []

/-- The calls that have returned when a step has led from `s` to `t`, with what they answer. -/
def reports (s t : State α) : List (Operation α × Option (Outcome α)) :=
  pushReports s t ++ pullReports s t

section Rules

variable {s t : State α}

theorem ProducerPC.eq_idle {pc : ProducerPC α} (idle : pc.isIdle = true) : pc = .idle := by
  cases pc with
  | idle => rfl
  | _ => cases idle

theorem ConsumerPC.eq_idle {pc : ConsumerPC α} (idle : pc.isIdle = true) : pc = .idle := by
  cases pc with
  | idle => rfl
  | _ => cases idle

theorem pushReports_same (same : t.producer = s.producer) : pushReports s t = [] := by
  unfold pushReports
  rw [same]
  cases s.producer <;> rfl

theorem pullReports_same (same : t.consumer = s.consumer) : pullReports s t = [] := by
  unfold pullReports
  rw [same]
  cases s.consumer <;> rfl

theorem pushReports_busy (busy : t.producer ≠ .idle) : pushReports s t = [] := by
  unfold pushReports
  rw [if_neg (mt ProducerPC.eq_idle busy)]

theorem pullReports_busy (busy : t.consumer ≠ .idle) : pullReports s t = [] := by
  unfold pullReports
  rw [if_neg (mt ConsumerPC.eq_idle busy)]

theorem reports_push (consumer : t.consumer = s.consumer) (idle : t.producer = .idle)
    {op : Operation α}
    (pending : s.producer.operation (t.pushResult == some .threw) = some op) :
    reports s t = [(op, op.outcome t.pushResult)] := by
  rw [reports, pullReports_same consumer, pushReports, idle, pending]
  rfl

theorem reports_pull (producer : t.producer = s.producer) (idle : t.consumer = .idle)
    {k : Call α} (pending : s.consumer.call = some k) :
    reports s t = [(.call k, (t.consumerResult.bind (·.answer t.slots)).map .answer)] := by
  rw [reports, pushReports_same producer, pullReports, idle, pending]
  rfl

theorem reports_none (push : t.producer = s.producer ∨ t.producer ≠ .idle)
    (pull : t.consumer = s.consumer ∨ t.consumer ≠ .idle) : reports s t = [] := by
  rw [reports, push.elim pushReports_same pushReports_busy,
    pull.elim pullReports_same pullReports_busy]
  rfl

/-- A call that runs has cleared the result of the call before it. -/
def State.Fresh (s : State α) : Prop := s.producer ≠ .idle → s.pushResult = none

theorem Move.fresh {r : Ring} {e : Encoding r} {l : Label α} (move : Move e s l t)
    (fresh : s.Fresh) : t.Fresh := by
  cases move with
  | emplace | tryEmplace | close => exact fun _ => rfl
  | loadPush i mode v f m at_pc | loadPop i x f m at_pc | cacheFull i f at_pc
  | cacheRoom i f at_pc | loadedCache i f pop at_pc | loadedSpin i f pop at_pc
  | loadedRoom i f pop at_pc | recheckRoom i f at_pc | construct i f at_pc =>
    exact fun _ => fresh (by simp [at_pc])
  | loadedFull | recheckFull | publish | storeClosed | threw => exact fun busy => absurd rfl busy
  | _ => exact fresh

end Rules

end RingBuffers.Spsc
