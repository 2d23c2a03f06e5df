import RingBuffers.Library.Exclusion
import RingBuffers.Mutex.Linearizable

/-! The member functions of `MutexBuffer` line by line, with `mutex_` a member like the
others. Threads interleave between any two lines; that a critical section may be taken as
one step, as the machine of the other modules does, is proved here. -/
namespace RingBuffers.Mutex.Lines
open Census Exclusion Transition

/-- The line a thread executes next. `res` is what the call is going to return. In `waiting`
the mutex is given up, and `relocking` is what `cvFull_.wait` does after a wake-up. -/
inductive Line (α : Type) where
  | idle
  | locking (op : Op α)
  | testing (op : Op α)
  | waiting (v : α)
  | relocking (v : α)
  | constructing (v : α) (res : Result α)
  | advancingPush (res : Result α)
  | incrementing (res : Result α)
  | moving
  | destroying (res : Result α)
  | advancingPop (res : Result α)
  | decrementing (res : Result α)
  | addressing
  | closing
  | reading
  | unlocking (res : Result α) (notifies : Bool)
  | notifying

structure State (T α : Type) where
  buffer : MutexBuffer α
  mutex : Option T
  line : T → Line α
  result : T → Option (Result α)
  fault : Option Fault

/-- `run` executes the next line of a thread, which the element type may cut short.
`capacity()` takes no lock and tells what it returns. -/
inductive Label (T α : Type) where
  | call (t : T) (op : Op α)
  | run (t : T) (throws : Bool)
  | notify (t : T) (target : Option T)
  | spurious (t : T)
  | capacity (t : T) (size : Nat)
  deriving DecidableEq, Repr

variable {T α : Type}

def start (T : Type) (b : MutexBuffer α) : State T α where
  buffer := b
  mutex := none
  line _ := .idle
  result _ := none
  fault := none

def Line.isWaiting : Line α → Bool
  | .waiting _ => true
  | _ => false

def Line.inside : Line α → Bool
  | .idle | .locking _ | .waiting _ | .relocking _ | .notifying => false
  | _ => true

def entry : Op α → Line α
  | .close => .closing
  | .closed => .reading
  | op => .testing op

def threwOut : Result α → Bool
  | .threw => true
  | _ => false

section Steps

variable [DecidableEq T]

def State.goes (s : State T α) (t : T) (line : Line α) : State T α :=
  { s with line := Function.update s.line t line }

def lockLine (s : State T α) (t : T) (op : Op α) : Option (State T α) :=
  match s.mutex with
  | none => some { s.goes t (entry op) with mutex := some t }
  | some _ => none

/-- The tests of `count_`; the predicate of `cvFull_.wait` gives the mutex up when it fails. -/
def testLine (env : Environment) (s : State T α) (t : T) : Op α → State T α
  | .emplace v =>
    if s.buffer.isFull then { s.goes t (.waiting v) with mutex := none }
    else s.goes t (.constructing v .done)
  | .tryEmplace v =>
    if s.buffer.isFull then s.goes t (.unlocking (.pushed false) false)
    else s.goes t (.constructing v (.pushed true))
  | .front =>
    if s.buffer.count_ = 0 then s.goes t (.unlocking (.front none) false) else s.goes t .addressing
  | .tryPop =>
    if s.buffer.count_ = 0 then s.goes t (.unlocking (.popped none) false) else s.goes t .moving
  | .pop =>
    if s.buffer.count_ = 0 ∧ env.ndebug = false then { s with fault := some .assertionFailed }
    else s.goes t (.destroying .done)
  | .close | .closed => s

def constructLine (s : State T α) (t : T) (v : α) (res : Result α) : State T α :=
  match s.buffer.slots s.buffer.pushCursor_ with
  | some _ => { s with fault := some .constructOnLive }
  | none =>
    { s.goes t (.advancingPush res) with
      buffer := { s.buffer with
        slots := Function.update s.buffer.slots s.buffer.pushCursor_ (some v) } }

def advancePushLine (s : State T α) (t : T) (res : Result α) : State T α :=
  match sizeMod (sizeAdd s.buffer.pushCursor_ 1) s.buffer.capacity_ with
  | none => { s with fault := some .divisionByZero }
  | some next =>
    { s.goes t (.incrementing res) with buffer := { s.buffer with pushCursor_ := next } }

def moveLine (s : State T α) (t : T) : State T α :=
  match s.buffer.slots s.buffer.popCursor_ with
  | none => { s with fault := some .readOfDead }
  | some v => s.goes t (.destroying (.popped (some v)))

def destroyLine (s : State T α) (t : T) (res : Result α) : State T α :=
  match s.buffer.slots s.buffer.popCursor_ with
  | none => { s with fault := some .destroyOfDead }
  | some _ =>
    { s.goes t (.advancingPop res) with
      buffer := { s.buffer with
        slots := Function.update s.buffer.slots s.buffer.popCursor_ none } }

def advancePopLine (s : State T α) (t : T) (res : Result α) : State T α :=
  match sizeMod (sizeAdd s.buffer.popCursor_ 1) s.buffer.capacity_ with
  | none => { s with fault := some .divisionByZero }
  | some next =>
    { s.goes t (.decrementing res) with buffer := { s.buffer with popCursor_ := next } }

def unlockLine (s : State T α) (t : T) (res : Result α) (notifies : Bool) : State T α :=
  { s.goes t (if notifies then .notifying else .idle) with
    mutex := none
    result := Function.update s.result t (some res) }

/-- Only the constructions of elements can throw; the lock is then released on the way out. -/
def runLine (env : Environment) (s : State T α) (t : T) (throws : Bool) : Option (State T α) :=
  if throws then
    match s.line t with
    | .constructing _ _ | .moving => some (s.goes t (.unlocking .threw false))
    | _ => none
  else match s.line t with
    | .idle | .waiting _ | .notifying => none
    | .locking op => lockLine s t op
    | .relocking v => lockLine s t (.emplace v)
    | .testing op => some (testLine env s t op)
    | .constructing v res => some (constructLine s t v res)
    | .advancingPush res => some (advancePushLine s t res)
    | .incrementing res =>
      some { s.goes t (.unlocking res false) with
        buffer := { s.buffer with count_ := sizeAdd s.buffer.count_ 1 } }
    | .moving => some (moveLine s t)
    | .destroying res => some (destroyLine s t res)
    | .advancingPop res => some (advancePopLine s t res)
    | .decrementing res =>
      some { s.goes t (.unlocking res true) with
        buffer := { s.buffer with count_ := sizeSub s.buffer.count_ 1 } }
    | .addressing => some (s.goes t (.unlocking (.front (some s.buffer.popCursor_)) false))
    | .closing =>
      some { s.goes t (.unlocking .done false) with
        buffer := { s.buffer with closed_ := true } }
    | .reading => some (s.goes t (.unlocking (.closed s.buffer.closed_) false))
    | .unlocking res notifies => some (unlockLine s t res notifies)

variable [Fintype T]

def notifyLine (s : State T α) (t : T) : Option T → Option (State T α)
  | none => if census Line.isWaiting s.line = 0 then some (s.goes t .idle) else none
  | some u => match s.line u with
    | .waiting v => some ((s.goes u (.relocking v)).goes t .idle)
    | _ => none

def step (env : Environment) (s : State T α) (l : Label T α) : Option (State T α) :=
  if s.fault.isSome then none else
  match l with
  | .call t op => match s.line t with
    | .idle => some { s.goes t (.locking op) with result := Function.update s.result t none }
    | _ => none
  | .run t throws => runLine env s t throws
  | .notify t target => match s.line t with
    | .notifying => notifyLine s t target
    | _ => none
  | .spurious t => match s.line t with
    | .waiting v => some (s.goes t (.relocking v))
    | _ => none
  | .capacity t size => match s.line t with
    | .idle => if s.buffer.capacity_ = size then some s else none
    | _ => none

/-- The contract of `pop`, where the assertion tests it. -/
def nonemptyPop (s : State T α) : Label T α → Bool
  | .run t _ => match s.line t with
    | .testing .pop => s.buffer.count_ != 0
    | _ => true
  | _ => true

end Steps

end RingBuffers.Mutex.Lines
