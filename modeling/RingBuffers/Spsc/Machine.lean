import RingBuffers.Library.Transition
import RingBuffers.Storage

/-! One producer thread and one consumer thread on a single-producer buffer. Each
load or store of an atomic, each access to a cached cursor and each access to a
slot is a step of its own. Loads name the store they read, so the same machine
runs under stale reads and, when every load reads the newest store, under
sequential consistency. -/
namespace RingBuffers.Spsc
open ReleaseAcquire

inductive Agent where
  | producer | consumer
  deriving DecidableEq, Repr

inductive Loc where
  | pushCursor | popCursor | closed
  deriving DecidableEq, Repr

@[reducible] def Loc.Val : Loc → Type
  | .pushCursor | .popCursor => Nat
  | .closed => Bool

inductive SlotAction (α : Type) where
  | construct (i : Nat) (v : α)
  | destroy (i : Nat)
  deriving DecidableEq, Repr

/-- The atomic members and what is visible of the slots; initially both cursors
are 0 and `closed_` is false. -/
abbrev Atomics (α : Type) := Memory Loc Agent (SlotAction α) Loc.Val

def Atomics.start (α : Type) : Atomics α :=
  Memory.start fun
    | .pushCursor | .popCursor => (0 : Nat)
    | .closed => false

inductive Mode where
  | emplace | tryEmplace
  deriving DecidableEq, Repr

/-- A cursor value together with the number of the store it was read from. -/
structure Seen where
  value : Nat
  stamp : Nat
  deriving DecidableEq, Repr

/-- The locals of `emplace` and `try_emplace` once `pushCursor` is loaded. -/
structure Frame (α : Type) where
  mode : Mode
  value : α
  cursor : Nat
  next : Nat

inductive ProducerPC (α : Type) where
  | idle
  | loadPushCursor (mode : Mode) (v : α)
  | readCache (f : Frame α)
  | loadPopCursor (f : Frame α)
  | loaded (f : Frame α) (pop : Seen)
  | recheck (f : Frame α)
  | construct (f : Frame α)
  | storePushCursor (f : Frame α)
  | storeClosed

/-- `popStore` keeps the destroyed value, for the record of what was consumed. -/
inductive ConsumerPC (α : Type) where
  | idle
  | frontLoadPop
  | frontReadCache (pop : Nat)
  | frontLoadPush (pop : Nat)
  | frontLoaded (pop : Nat) (push : Seen)
  | frontRecheck (pop : Nat)
  | popLoadPop
  | popAssert (pop : Nat)
  | popDestroy (pop : Nat)
  | popStore (pop : Nat) (v : α)
  | loadClosed

inductive PushResult where
  | constructed | full | threw
  deriving DecidableEq, Repr

inductive ConsumerResult where
  | front (pointer : Option Nat)
  | popped
  | closed (b : Bool)
  deriving DecidableEq, Repr

/-- `slots` is the allocation, `held` the last non-null pointer `front` returned
since the last `pop`; the two results are those of the last call of each thread, and
`none` while a call runs or when it returns nothing. A class without cached cursors
never reads the two caches; they then only record the last load. `pushed` and
`consumed` list the elements in the order of the stores of `pushCursor_` and of
`popCursor_`. -/
structure State (α : Type) where
  memory : Atomics α
  popCursorCache : Seen
  pushCursorCache : Seen
  slots : Nat → Option α
  producer : ProducerPC α
  consumer : ConsumerPC α
  pushResult : Option PushResult
  consumerResult : Option ConsumerResult
  held : Option Nat
  pushed : List α
  consumed : List α
  fault : Option Fault

def start (α : Type) : State α where
  memory := Atomics.start α
  popCursorCache := ⟨0, 0⟩
  pushCursorCache := ⟨0, 0⟩
  slots _ := none
  producer := .idle
  consumer := .idle
  pushResult := none
  consumerResult := none
  held := none
  pushed := []
  consumed := []
  fault := none

/-- The clients' calls, the steps of a running call (whose loads read store `i`),
an exception from the constructor of an element, and a read through the pointer
that `front` returned. -/
inductive Label (α : Type) where
  | emplace (v : α)
  | tryEmplace (v : α)
  | close
  | front
  | pop
  | closed
  | producer (i : Nat)
  | consumer (i : Nat)
  | throw
  | read
  deriving DecidableEq, Repr

variable {α : Type}

def callProducer (s : State α) (pc : ProducerPC α) : Option (State α) :=
  match s.producer with
  | .idle => some { s with producer := pc, pushResult := none }
  | _ => none

def callConsumer (s : State α) (pc : ConsumerPC α) : Option (State α) :=
  match s.consumer with
  | .idle => some { s with consumer := pc, consumerResult := none }
  | _ => none

def returnFull (s : State α) : State α :=
  { s with producer := .idle, pushResult := some .full }

def returnNull (s : State α) : State α :=
  { s with consumer := .idle, consumerResult := some (.front none) }

def returnPointer (r : Ring) (s : State α) (pop : Nat) : State α :=
  match r.slot pop with
  | none => { s with fault := some .divisionByZero }
  | some i =>
    { s with consumer := .idle, held := some i, consumerResult := some (.front (some i)) }

def enterPush (r : Ring) (s : State α) (mode : Mode) (v : α) (push : Nat) : State α :=
  match r.next push with
  | none => { s with fault := some .divisionByZero }
  | some next =>
    let f : Frame α := ⟨mode, v, push, next⟩
    { s with producer := if r.cached then .readCache f else .loadPopCursor f }

def fullAgainst (r : Ring) (f : Frame α) (pop : Seen) : Bool :=
  r.full f.cursor f.next pop.value

/-- A loaded `popCursor_` goes to the cache, or is compared at once by the classes
without one: `emplace` spins and `try_emplace` gives up. -/
def afterLoad (r : Ring) (s : State α) (f : Frame α) (pop : Seen) : State α :=
  let t := { s with popCursorCache := pop }
  if r.cached then
    match f.mode with
    | .emplace => { t with producer := .readCache f }
    | .tryEmplace => { t with producer := .recheck f }
  else if fullAgainst r f pop then
    match f.mode with
    | .emplace => { t with producer := .loadPopCursor f }
    | .tryEmplace => returnFull t
  else { t with producer := .construct f }

def constructAt (r : Ring) (s : State α) (f : Frame α) : State α :=
  match r.slot f.cursor with
  | none => { s with fault := some .divisionByZero }
  | some i => match s.slots i with
    | some _ => { s with fault := some .constructOnLive }
    | none =>
      { s with
        slots := Function.update s.slots i (some f.value)
        memory := s.memory.perform .producer (.construct i f.value)
        producer := .storePushCursor f }

def producerStep (r : Ring) (s : State α) (i : Nat) : Option (State α) :=
  match s.producer with
  | .idle => none
  | .loadPushCursor mode v =>
    (s.memory.load .producer .pushCursor r.own i).map fun (push, m) =>
      enterPush r { s with memory := m } mode v push
  | .readCache f =>
    some { s with
      producer := if fullAgainst r f s.popCursorCache then .loadPopCursor f else .construct f }
  | .loadPopCursor f =>
    (s.memory.load .producer .popCursor r.other i).map fun (pop, m) =>
      { s with memory := m, producer := .loaded f ⟨pop, i⟩ }
  | .loaded f pop => some (afterLoad r s f pop)
  | .recheck f =>
    -- only `try_emplace` comes here, `emplace` goes back to its loop condition
    if fullAgainst r f s.popCursorCache then some (returnFull s)
    else some { s with producer := .construct f }
  | .construct f => some (constructAt r s f)
  | .storePushCursor f =>
    some { s with
      memory := s.memory.store .producer .pushCursor r.store f.next
      producer := .idle
      pushResult := some .constructed
      pushed := s.pushed ++ [f.value] }
  | .storeClosed =>
    some { s with memory := s.memory.store .producer .closed r.store true, producer := .idle }

/-- An exception leaves `emplace` between the full test and the cursor store. -/
def throwStep (s : State α) : Option (State α) :=
  match s.producer with
  | .construct _ => some { s with producer := .idle, pushResult := some .threw }
  | _ => none

def afterFrontLoad (r : Ring) (s : State α) (pop : Nat) (push : Seen) : State α :=
  let t := { s with pushCursorCache := push }
  if r.cached then { t with consumer := .frontRecheck pop }
  else if pop = push.value then returnNull t
  else returnPointer r t pop

def destroyAt (r : Ring) (s : State α) (pop : Nat) : State α :=
  match r.slot pop with
  | none => { s with fault := some .divisionByZero }
  | some i => match s.slots i with
    | none => { s with fault := some .destroyOfDead }
    | some v =>
      { s with
        slots := Function.update s.slots i none
        memory := s.memory.perform .consumer (.destroy i)
        consumer := .popStore pop v }

def storePop (r : Ring) (s : State α) (pop : Nat) (v : α) : State α :=
  match r.next pop with
  | none => { s with fault := some .divisionByZero }
  | some next =>
    { s with
      memory := s.memory.store .consumer .popCursor r.store next
      consumer := .idle
      consumerResult := some .popped
      consumed := s.consumed ++ [v] }

def consumerStep (r : Ring) (s : State α) (i : Nat) : Option (State α) :=
  match s.consumer with
  | .idle => none
  | .frontLoadPop =>
    (s.memory.load .consumer .popCursor r.own i).map fun (pop, m) =>
      { s with
        memory := m
        consumer := if r.cached then .frontReadCache pop else .frontLoadPush pop }
  | .frontReadCache pop =>
    if pop = s.pushCursorCache.value then some { s with consumer := .frontLoadPush pop }
    else some (returnPointer r s pop)
  | .frontLoadPush pop =>
    (s.memory.load .consumer .pushCursor r.other i).map fun (push, m) =>
      { s with memory := m, consumer := .frontLoaded pop ⟨push, i⟩ }
  | .frontLoaded pop push => some (afterFrontLoad r s pop push)
  | .frontRecheck pop =>
    if pop = s.pushCursorCache.value then some (returnNull s) else some (returnPointer r s pop)
  | .popLoadPop =>
    (s.memory.load .consumer .popCursor r.own i).map fun (pop, m) =>
      -- `assert` expands to nothing in a release build
      { s with memory := m, consumer := if r.ndebug then .popDestroy pop else .popAssert pop }
  | .popAssert pop =>
    (s.memory.load .consumer .pushCursor r.other i).map fun (push, m) =>
      if pop = push then { s with memory := m, fault := some .assertionFailed }
      else { s with memory := m, consumer := .popDestroy pop }
  | .popDestroy pop => some (destroyAt r s pop)
  -- `popCursorNext` is computed after the destruction
  | .popStore pop v => some (storePop r s pop v)
  | .loadClosed =>
    (s.memory.load .consumer .closed r.other i).map fun (b, m) =>
      { s with memory := m, consumer := .idle, consumerResult := some (.closed b) }

def readStep (s : State α) : Option (State α) :=
  match s.consumer, s.held with
  | .idle, some i => match s.slots i with
    | some _ => some s
    | none => some { s with fault := some .readOfDead }
  | _, _ => none

/-- Nothing happens after undefined behaviour or a failed assertion. -/
def step (r : Ring) (s : State α) (l : Label α) : Option (State α) :=
  if s.fault.isSome then none else
  match l with
  | .emplace v => callProducer s (.loadPushCursor .emplace v)
  | .tryEmplace v => callProducer s (.loadPushCursor .tryEmplace v)
  | .close => callProducer s .storeClosed
  | .front => callConsumer s .frontLoadPop
  | .pop => (callConsumer s .popLoadPop).map fun t => { t with held := none }
  | .closed => callConsumer s .loadClosed
  | .producer i => producerStep r s i
  | .consumer i => consumerStep r s i
  | .throw => throwStep s
  | .read => readStep s

def loads (s : State α) : Label α → Option (Loc × Nat)
  | .producer i => match s.producer with
    | .loadPushCursor _ _ => some (.pushCursor, i)
    | .loadPopCursor _ => some (.popCursor, i)
    | _ => none
  | .consumer i => match s.consumer with
    | .frontLoadPop | .popLoadPop => some (.popCursor, i)
    | .frontLoadPush _ | .popAssert _ => some (.pushCursor, i)
    | .loadClosed => some (.closed, i)
    | _ => none
  | _ => none

/-- The scheduler of a sequentially consistent run: no load is stale. -/
def newest (s : State α) (l : Label α) : Bool :=
  match loads s l with
  | none => true
  | some (k, i) => i + 1 == (s.memory.history k).length

/-- The consumer's contract: a non-null `front()` since the previous `pop()`. -/
def frontFirst (s : State α) : Label α → Bool
  | .pop => s.held.isSome
  | _ => true

def accesses (r : Ring) (s : State α) : Label α → Option Nat
  | .producer _ | .throw => match s.producer with
    | .construct f => r.slot f.cursor
    | _ => none
  | .consumer _ => match s.consumer with
    | .popDestroy pop => r.slot pop
    | _ => none
  | .read => s.held
  | _ => none

def State.queue (s : State α) : List α := s.pushed.drop s.consumed.length

end RingBuffers.Spsc
