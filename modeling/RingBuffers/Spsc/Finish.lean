import RingBuffers.Spsc.Reports

/-! What remains of a call is at each place in the code a function of the members. At the start it
is the whole call, and on the way it goes by what the thread has loaded so far. -/
namespace RingBuffers.Spsc
open BoundedQueue

variable {α : Type} {r : Ring}

def Mode.accepted : Mode → Outcome α
  | .emplace => .answer .done
  | .tryEmplace => .answer (.pushed true)

def roomIn (r : Ring) (b : Buffer α) (next : Nat) : Bool × Buffer α :=
  (!r.full b.pushCursor next b.popCursorCache, b)

/-- What remains of a push once it knows whether there is room. -/
def concludePush (r : Ring) (throws : Bool) (f : Frame α) :
    Bool × Buffer α → Except Stop (Outcome α × Buffer α)
  | (false, b) => match f.mode with
    | .emplace => .error .spins
    | .tryEmplace => .ok (.answer (.pushed false), b)
  | (true, b) =>
    if throws then match r.slot b.pushCursor with
      | none => .error (.fault .divisionByZero)
      | some i => match b.slots i with
        | some _ => .error (.fault .constructOnLive)
        | none => .ok (.threw, b)
    else (constructNext r b f.value f.next).map (f.mode.accepted, ·)

def performPush (r : Ring) (throws : Bool) (mode : Mode) (v : α) (b : Buffer α) :
    Except Stop (Outcome α × Buffer α) :=
  match r.next b.pushCursor with
  | none => .error (.fault .divisionByZero)
  | some next => concludePush r throws ⟨mode, v, b.pushCursor, next⟩ (findRoom r b next)

def ProducerPC.finish (r : Ring) (throws : Bool) (b : Buffer α) :
    ProducerPC α → Except Stop (Outcome α × Buffer α)
  | .idle => .error .spins
  | .loadPushCursor mode v => performPush r throws mode v b
  | .readCache f => concludePush r throws f (
    if (roomIn r b f.next).1 then (true, b)
    else roomIn r { b with popCursorCache := b.popCursor } f.next)
  | .loadPopCursor f =>
    concludePush r throws f (roomIn r { b with popCursorCache := b.popCursor } f.next)
  | .loaded f pop =>
    concludePush r throws f (roomIn r { b with popCursorCache := pop.value } f.next)
  | .recheck f => concludePush r throws f (roomIn r b f.next)
  | .construct f => concludePush r throws f (true, b)
  | .storePushCursor f =>
    .ok (f.mode.accepted, { b with pushCursor := f.next, pushed := b.pushed ++ [f.value] })
  | .storeClosed => .ok (.answer .done, close b)

def lookAt (r : Ring) (pop : Nat) (b : Buffer α) : Except Stop (Answer α × Buffer α) :=
  match r.slot pop with
  | none => .error (.fault .divisionByZero)
  | some i => match b.slots i with
    | none => .error (.fault .readOfDead)
    | some v => .ok (.front (some v), b)

/-- What remains of a `front` once `pushCursorCache_` is fresh. -/
def concludeFront (r : Ring) (pop : Nat) (b : Buffer α) : Except Stop (Answer α × Buffer α) :=
  if pop = b.pushCursorCache then .ok (.front none, b) else lookAt r pop b

def concludePop (r : Ring) (pop : Nat) (v : α) (b : Buffer α) :
    Except Stop (Answer α × Buffer α) :=
  match r.next pop with
  | none => .error (.fault .divisionByZero)
  | some next => .ok (.done, { b with popCursor := next, consumed := b.consumed ++ [v] })

def destroyFront (r : Ring) (pop : Nat) (b : Buffer α) : Except Stop (Answer α × Buffer α) :=
  match r.slot pop with
  | none => .error (.fault .divisionByZero)
  | some i => match b.slots i with
    | none => .error (.fault .destroyOfDead)
    | some v => concludePop r pop v { b with slots := Function.update b.slots i none }

def ConsumerPC.finish (r : Ring) (b : Buffer α) :
    ConsumerPC α → Except Stop (Answer α × Buffer α)
  | .idle => .error .spins
  | .frontLoadPop => perform r b .front
  | .frontReadCache pop =>
    if pop = b.pushCursorCache then
      concludeFront r pop { b with pushCursorCache := b.pushCursor }
    else lookAt r pop b
  | .frontLoadPush pop => concludeFront r pop { b with pushCursorCache := b.pushCursor }
  | .frontLoaded pop push => concludeFront r pop { b with pushCursorCache := push.value }
  | .frontRecheck pop => concludeFront r pop b
  | .popLoadPop => perform r b .pop
  | .popAssert pop =>
    if pop = b.pushCursor then .error (.fault .assertionFailed) else destroyFront r pop b
  | .popDestroy pop => destroyFront r pop b
  | .popStore pop v => concludePop r pop v b
  | .loadClosed => .ok (.closed b.closed, b)

variable {b : Buffer α} {x : Session α}

theorem operate_push (throws : Bool) (mode : Mode) (v : α) :
    operate r x (mode.operation throws v) =
      (performPush r throws mode v x.buffer).map fun (o, b) => (o, ⟨b, x.held⟩) := by
  cases cursor : r.next x.buffer.pushCursor with
  | none =>
    cases throws <;> cases mode <;>
      simp [Mode.operation, operate, Session.call, perform, emplace, tryEmplace, pushThrowing,
        performPush, cursor, Except.map]
  | some next =>
    rcases room : findRoom r x.buffer next with ⟨_ | _, b⟩
    · cases throws <;> cases mode <;>
        simp [Mode.operation, operate, Session.call, perform, emplace, tryEmplace, pushThrowing,
          performPush, concludePush, cursor, room, Except.map, heldAfter]
    · cases throws with
      | true =>
        cases slot : r.slot b.pushCursor with
        | none =>
          simp [Mode.operation, operate, pushThrowing, performPush, concludePush, cursor, room,
            slot]
        | some i =>
          cases live : b.slots i <;>
            simp [Mode.operation, operate, pushThrowing, performPush, concludePush, cursor, room,
              slot, live]
      | false =>
        cases mode <;> cases built : constructNext r b v next <;>
          simp [Mode.operation, operate, Session.call, perform, emplace, tryEmplace, performPush,
            concludePush, cursor, room, built, Except.map, heldAfter, Mode.accepted]

theorem findRoom_eq_roomIn (next : Nat) :
    findRoom r b next = if r.cached && (roomIn r b next).1 then (true, b)
      else roomIn r { b with popCursorCache := b.popCursor } next := rfl

theorem roomIn_again {next : Nat} (fresh : b.popCursorCache = b.popCursor) :
    (if (roomIn r b next).1 then (true, b)
      else roomIn r { b with popCursorCache := b.popCursor } next) = roomIn r b next := by
  have same : { b with popCursorCache := b.popCursor } = b := by
    cases b
    cases fresh
    rfl
  rw [same]
  cases room : (roomIn r b next).1 with
  | true => exact Prod.ext room.symm rfl
  | false => rfl

theorem performPush_eq (throws : Bool) (mode : Mode) (v : α) {next : Nat}
    (cursor : r.next b.pushCursor = some next) : performPush r throws mode v b =
      (if r.cached then ProducerPC.readCache ⟨mode, v, b.pushCursor, next⟩
        else .loadPopCursor ⟨mode, v, b.pushCursor, next⟩).finish r throws b := by
  simp only [performPush, cursor, findRoom_eq_roomIn]
  cases cached : r.cached with
  | true => simp only [ProducerPC.finish, Bool.true_and, if_true]
  | false => simp only [ProducerPC.finish, Bool.false_and, Bool.false_eq_true, if_false]

/-- The client's read through the pointer it got. -/
def readThrough : Except Stop (Option Nat × Buffer α) → Except Stop (Answer α × Buffer α)
  | .error stop => .error stop
  | .ok (none, b) => .ok (.front none, b)
  | .ok (some i, b) => match b.slots i with
    | none => .error (.fault .readOfDead)
    | some v => .ok (.front (some v), b)

theorem perform_front_eq : perform r b .front = readThrough (front r b) := by
  simp only [perform]
  rcases front r b with stop | ⟨_ | i, b⟩ <;> rfl

theorem readThrough_pointer : readThrough (pointer r b) = lookAt r b.popCursor b := by
  unfold pointer lookAt
  cases r.slot b.popCursor <;> rfl

theorem readThrough_reload (passes : (r.cached && b.popCursor != b.pushCursorCache) = false) :
    readThrough (front r b) =
      concludeFront r b.popCursor { b with pushCursorCache := b.pushCursor } := by
  unfold front concludeFront
  rw [passes]
  simp only [Bool.false_eq_true, if_false]
  by_cases empty : b.popCursor = b.pushCursor
  · rw [if_pos empty, if_pos empty]
    rfl
  · rw [if_neg empty, if_neg empty]
    exact readThrough_pointer

theorem perform_front : perform r b .front =
    if r.cached then (ConsumerPC.frontReadCache b.popCursor).finish r b
    else (ConsumerPC.frontLoadPush b.popCursor).finish r b := by
  rw [perform_front_eq]
  cases cached : r.cached with
  | false => exact readThrough_reload (by simp [cached])
  | true =>
    simp only [if_true, ConsumerPC.finish]
    by_cases hit : b.popCursor = b.pushCursorCache
    · rw [if_pos hit]
      exact readThrough_reload (by simp [hit])
    · have known : (r.cached && b.popCursor != b.pushCursorCache) = true := by
        simp [cached, hit]
      rw [if_neg hit, front, if_pos known]
      exact readThrough_pointer

theorem map_pop (passes : (!r.ndebug && b.popCursor == b.pushCursor) = false) :
    (pop r b).map (.done, ·) = destroyFront r b.popCursor b := by
  unfold pop destroyFront concludePop
  rw [passes]
  cases r.slot b.popCursor with
  | none => rfl
  | some i =>
    cases live : b.slots i with
    | none => simp [live, Except.map]
    | some v => cases r.next b.popCursor <;> simp [live, Except.map]

theorem perform_pop : perform r b .pop =
    if r.ndebug then (ConsumerPC.popDestroy b.popCursor).finish r b
    else (ConsumerPC.popAssert b.popCursor).finish r b := by
  cases release : r.ndebug with
  | true => exact map_pop (by simp [release])
  | false =>
    simp only [Bool.false_eq_true, if_false, ConsumerPC.finish]
    by_cases empty : b.popCursor = b.pushCursor
    · simp [perform, pop, release, empty, Except.map]
    · rw [if_neg empty]
      exact map_pop (by simp [empty])

end RingBuffers.Spsc
