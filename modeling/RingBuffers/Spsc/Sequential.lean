import RingBuffers.Library.BoundedQueue
import RingBuffers.Library.Lifetime
import RingBuffers.Spsc.Invariant

/-! The calls as functions, for a single client that is both producer and consumer: the
loads of a call read what was stored last. One definition serves all classes, which differ
in what the `Ring` says. -/
namespace RingBuffers.Spsc
open BoundedQueue Transition
open Lifetime (Lawful sweep sweep_from)

/-- The data members of a buffer, with the same record of elements as the machine keeps. -/
structure Buffer (α : Type) where
  pushCursor : Nat
  popCursor : Nat
  popCursorCache : Nat
  pushCursorCache : Nat
  closed : Bool
  slots : Nat → Option α
  pushed : List α
  consumed : List α

def Buffer.start (α : Type) : Buffer α := ⟨0, 0, 0, 0, false, fun _ => none, [], []⟩

def Buffer.queue {α : Type} (b : Buffer α) : List α := b.pushed.drop b.consumed.length

/-- Why a call does not return; nobody makes room for an `emplace` on a full buffer. -/
inductive Stop where
  | fault (f : Fault)
  | spins
  deriving DecidableEq, Repr

variable {α : Type}

/-- The test for a full buffer, first against the cache where there is one: whether a slot
is free, and the buffer after the test. A class without a cache only records its load. -/
def findRoom (r : Ring) (b : Buffer α) (next : Nat) : Bool × Buffer α :=
  if r.cached && !r.full b.pushCursor next b.popCursorCache then (true, b)
  else
    let b := { b with popCursorCache := b.popCursor }
    (!r.full b.pushCursor next b.popCursorCache, b)

/-- `construct_at` in the slot of `pushCursor_`, then the store of `pushCursor_`. -/
def constructNext (r : Ring) (b : Buffer α) (v : α) (next : Nat) : Except Stop (Buffer α) :=
  match r.slot b.pushCursor with
  | none => .error (.fault .divisionByZero)
  | some i => match b.slots i with
    | some _ => .error (.fault .constructOnLive)
    | none => .ok { b with
        slots := Function.update b.slots i (some v)
        pushCursor := next
        pushed := b.pushed ++ [v] }

def emplace (r : Ring) (v : α) (b : Buffer α) : Except Stop (Buffer α) :=
  match r.next b.pushCursor with
  | none => .error (.fault .divisionByZero)
  | some next => match findRoom r b next with
    | (false, _) => .error .spins
    | (true, b) => constructNext r b v next

def pushAll (r : Ring) : List α → Buffer α → Except Stop (Buffer α)
  | [], b => .ok b
  | v :: vs, b => match emplace r v b with
    | .error stop => .error stop
    | .ok b => pushAll r vs b

def tryEmplace (r : Ring) (v : α) (b : Buffer α) : Except Stop (Bool × Buffer α) :=
  match r.next b.pushCursor with
  | none => .error (.fault .divisionByZero)
  | some next => match findRoom r b next with
    | (false, b) => .ok (false, b)
    | (true, b) => (constructNext r b v next).map (true, ·)

def pointer (r : Ring) (b : Buffer α) : Except Stop (Option Nat × Buffer α) :=
  match r.slot b.popCursor with
  | none => .error (.fault .divisionByZero)
  | some i => .ok (some i, b)

def front (r : Ring) (b : Buffer α) : Except Stop (Option Nat × Buffer α) :=
  if r.cached && b.popCursor != b.pushCursorCache then pointer r b
  else
    let b := { b with pushCursorCache := b.pushCursor }
    if b.popCursor = b.pushCursorCache then .ok (none, b) else pointer r b

def pop (r : Ring) (b : Buffer α) : Except Stop (Buffer α) :=
  if !r.ndebug && b.popCursor == b.pushCursor then .error (.fault .assertionFailed)
  else match r.slot b.popCursor with
    | none => .error (.fault .divisionByZero)
    | some i => match b.slots i with
      | none => .error (.fault .destroyOfDead)
      | some v => match r.next b.popCursor with
        | none => .error (.fault .divisionByZero)
        | some next => .ok { b with
            slots := Function.update b.slots i none
            popCursor := next
            consumed := b.consumed ++ [v] }

def close (b : Buffer α) : Buffer α := { b with closed := true }

/-- The loop of the destructors, for at most `fuel` rounds: what it destroys and what it leaves. -/
def drain (r : Ring) : Nat → Buffer α → Except Stop (List (Lifetime.Event α) × Buffer α)
  | 0, _ => .error .spins
  | fuel + 1, b => match front r b with
    | .error stop => .error stop
    | .ok (none, b) => .ok ([], b)
    | .ok (some _, b) => match pop r b with
      | .error stop => .error stop
      | .ok c => (drain r fuel c).map fun (ds, d) =>
        (((r.slot b.popCursor).map Lifetime.Event.destroy).toList ++ ds, d)

/-- A call of a client that reads the element through each pointer it gets. -/
def perform (r : Ring) (b : Buffer α) : Call α → Except Stop (Answer α × Buffer α)
  | .push v => (emplace r v b).map (.done, ·)
  | .tryPush v => (tryEmplace r v b).map fun (done, b) => (.pushed done, b)
  | .front => match front r b with
    | .error stop => .error stop
    | .ok (none, b) => .ok (.front none, b)
    | .ok (some i, b) => match b.slots i with
      | none => .error (.fault .readOfDead)
      | some v => .ok (.front (some v), b)
  | .pop => (pop r b).map (.done, ·)
  | .close => .ok (.done, close b)
  | .closed => .ok (.closed b.closed, b)
  | .capacity => .ok (.capacity r.capacity, b)

/-- A buffer in the hands of a client; `held` is a non-null `front` since the last `pop`. -/
structure Session (α : Type) where
  buffer : Buffer α
  held : Bool

def Session.start (α : Type) : Session α := ⟨Buffer.start α, false⟩

def heldAfter (held : Bool) : Call α → Answer α → Bool
  | .front, .front v => held || v.isSome
  | .pop, _ => false
  | _, _ => held

def Session.call (r : Ring) (x : Session α) (k : Call α) : Except Stop (Answer α × Session α) :=
  (perform r x.buffer k).map fun (a, b) => (a, ⟨b, heldAfter x.held k a⟩)

def Session.step (r : Ring) (x : Session α) (k : Call α) : Option (Session α) :=
  (x.call r k).toOption.map Prod.snd

/-- What the members of a buffer stand for; `seenPop` and `seenPush` are the ordinals in
the two caches. -/
structure Holds {r : Ring} (e : Encoding r) (b : Buffer α) (seenPop seenPush : Nat) : Prop where
  pushCursor : b.pushCursor = e.cursor b.pushed.length
  popCursor : b.popCursor = e.cursor b.consumed.length
  popCache : b.popCursorCache = e.cursor seenPop
  pushCache : b.pushCursorCache = e.cursor seenPush
  behind : seenPop ≤ b.consumed.length
  covered : b.consumed.length ≤ seenPush
  ahead : seenPush ≤ b.pushed.length
  room : b.pushed.length ≤ seenPop + e.bound
  laid : Window.Laid e.index b.slots b.pushed b.consumed.length
  consumed : b.consumed = b.pushed.take b.consumed.length

section Calls

variable {r : Ring} {e : Encoding r} {b : Buffer α} {x y : Nat}

theorem holds_start (e : Encoding r) : Holds e (Buffer.start α) 0 0 where
  pushCursor := e.cursor_zero.symm
  popCursor := e.cursor_zero.symm
  popCache := e.cursor_zero.symm
  pushCache := e.cursor_zero.symm
  behind := Nat.le_refl _
  covered := Nat.le_refl _
  ahead := Nat.le_refl _
  room := Nat.zero_le _
  laid := Window.laid_empty
  consumed := rfl

theorem Buffer.queue_length (b : Buffer α) :
    b.queue.length = b.pushed.length - b.consumed.length := by
  simp [Buffer.queue]

theorem Holds.bounded (holds : Holds e b x y) : b.queue.length ≤ e.bound := by
  have := holds.behind
  have := holds.room
  rw [Buffer.queue_length]
  omega

theorem Holds.consumed_append_queue (holds : Holds e b x y) :
    b.consumed ++ b.queue = b.pushed := by
  have split := List.take_append_drop b.consumed.length b.pushed
  rwa [← holds.consumed] at split

theorem Holds.queue_nil_iff (holds : Holds e b x y) :
    b.queue = [] ↔ b.consumed.length = b.pushed.length := by
  have := holds.covered
  have := holds.ahead
  rw [List.eq_nil_iff_length_eq_zero, Buffer.queue_length]
  omega

theorem Holds.oldest (holds : Holds e b x y) (some_left : b.consumed.length < b.pushed.length) :
    ∃ v, b.queue.head? = some v ∧ b.slots (e.index b.consumed.length) = some v := by
  have present := List.getElem?_eq_getElem some_left
  refine ⟨_, ?_, holds.laid.at (Nat.le_refl _) present⟩
  rw [Buffer.queue, List.head?_drop, present]

theorem Holds.next_eq (holds : Holds e b x y) :
    r.next b.pushCursor = some (e.cursor (b.pushed.length + 1)) := by
  rw [holds.pushCursor]
  exact e.next_cursor _

theorem Holds.pointer_eq (holds : Holds e b x y) :
    pointer r b = .ok (some (e.index b.consumed.length), b) := by
  have slot : r.slot b.popCursor = some (e.index b.consumed.length) := by
    rw [holds.popCursor]
    exact e.slot_cursor _
  simp only [pointer, slot]

theorem Holds.findRoom_eq (holds : Holds e b x y) :
    ∃ x' c, findRoom r b (e.cursor (b.pushed.length + 1)) =
        (decide (b.queue.length < e.bound), { b with popCursorCache := c }) ∧
      Holds e { b with popCursorCache := c } x' y ∧
      (b.queue.length < e.bound → b.pushed.length < x' + e.bound) := by
  have behind := holds.behind
  have covered := holds.covered
  have ahead := holds.ahead
  have room := holds.room
  have length := b.queue_length
  have against_cache : r.full b.pushCursor (e.cursor (b.pushed.length + 1)) b.popCursorCache =
      true ↔ b.pushed.length = x + e.bound := by
    rw [holds.pushCursor, holds.popCache]
    exact e.full_iff x b.pushed.length (by omega) room
  have against_cursor : r.full b.pushCursor (e.cursor (b.pushed.length + 1)) b.popCursor =
      true ↔ b.pushed.length = b.consumed.length + e.bound := by
    rw [holds.pushCursor, holds.popCursor]
    exact e.full_iff b.consumed.length b.pushed.length (by omega) (by omega)
  unfold findRoom
  split
  · rename_i free
    simp only [Bool.and_eq_true, Bool.not_eq_true', ← Bool.not_eq_true, against_cache] at free
    refine ⟨x, b.popCursorCache, ?_, holds, fun _ => by omega⟩
    rw [decide_eq_true (by omega)]
  · refine ⟨b.consumed.length, b.popCursor, ?_, ?_, fun _ => by omega⟩
    · have same : (!r.full b.pushCursor (e.cursor (b.pushed.length + 1)) b.popCursor) =
          decide (b.queue.length < e.bound) := by
        rw [Bool.eq_iff_iff, Bool.not_eq_true', ← Bool.not_eq_true, against_cursor,
          decide_eq_true_eq]
        omega
      simp only [same]
    · exact { holds with
        popCache := holds.popCursor
        behind := Nat.le_refl _
        room := by simp only; omega }

theorem Holds.constructNext_eq (holds : Holds e b x y)
    (room : b.pushed.length < x + e.bound) (v : α) :
    ∃ b', constructNext r b v (e.cursor (b.pushed.length + 1)) = .ok b' ∧ Holds e b' x y ∧
      b'.pushed = b.pushed ++ [v] ∧ b'.consumed = b.consumed ∧ b'.closed = b.closed := by
  have behind := holds.behind
  have covered := holds.covered
  have ahead := holds.ahead
  have free : b.slots (e.index b.pushed.length) = none :=
    holds.laid.vacant e.apart (by omega)
  have slot : r.slot b.pushCursor = some (e.index b.pushed.length) := by
    rw [holds.pushCursor]
    exact e.slot_cursor _
  refine ⟨{ b with
      slots := Function.update b.slots (e.index b.pushed.length) (some v)
      pushCursor := e.cursor (b.pushed.length + 1)
      pushed := b.pushed ++ [v] }, by simp only [constructNext, slot, free], ?_, rfl, rfl, rfl⟩
  have pushes : (b.pushed ++ [v]).length = b.pushed.length + 1 := by simp
  exact { holds with
    pushCursor := by rw [pushes]
    ahead := by rw [pushes]; omega
    room := by rw [pushes]; omega
    laid := holds.laid.construct e.apart (by omega) (by omega) v
    consumed := holds.consumed.trans (List.take_append_of_le_length (by omega)).symm }

theorem queue_push {b b' : Buffer α} {v : α} (pushed : b'.pushed = b.pushed ++ [v])
    (consumed : b'.consumed = b.consumed) (ordered : b.consumed.length ≤ b.pushed.length) :
    b'.queue = b.queue ++ [v] := by
  rw [Buffer.queue, pushed, consumed, List.drop_append_of_le_length ordered]
  rfl

theorem tryEmplace_room (holds : Holds e b x y) (room : b.queue.length < e.bound) (v : α) :
    ∃ x' b', tryEmplace r v b = .ok (true, b') ∧ Holds e b' x' y ∧
      b'.pushed = b.pushed ++ [v] ∧ b'.consumed = b.consumed ∧ b'.closed = b.closed := by
  obtain ⟨x', c, found, after, free⟩ := holds.findRoom_eq
  obtain ⟨b', built, done, same⟩ := after.constructNext_eq (free room) v
  refine ⟨x', b', ?_, done, same⟩
  rw [tryEmplace, holds.next_eq]
  simp only [found, decide_eq_true room]
  rw [built]
  rfl

theorem tryEmplace_full (holds : Holds e b x y) (full : b.queue.length = e.bound) (v : α) :
    ∃ x' c, tryEmplace r v b = .ok (false, { b with popCursorCache := c }) ∧
      Holds e { b with popCursorCache := c } x' y := by
  obtain ⟨x', c, found, after, _⟩ := holds.findRoom_eq
  refine ⟨x', c, ?_, after⟩
  rw [tryEmplace, holds.next_eq]
  simp only [found, full, Nat.lt_irrefl, decide_false]

theorem emplace_room (holds : Holds e b x y) (room : b.queue.length < e.bound) (v : α) :
    ∃ x' b', emplace r v b = .ok b' ∧ Holds e b' x' y ∧
      b'.pushed = b.pushed ++ [v] ∧ b'.consumed = b.consumed ∧ b'.closed = b.closed := by
  obtain ⟨x', c, found, after, free⟩ := holds.findRoom_eq
  obtain ⟨b', built, done, same⟩ := after.constructNext_eq (free room) v
  refine ⟨x', b', ?_, done, same⟩
  rw [emplace, holds.next_eq]
  simp only [found, decide_eq_true room]
  exact built

theorem pushAll_eq (holds : Holds e b x y) (vs : List α)
    (room : b.queue.length + vs.length ≤ e.bound) :
    ∃ b', pushAll r vs b = .ok b' ∧ b'.queue = b.queue ++ vs := by
  induction vs generalizing b x with
  | nil => exact ⟨b, rfl, (List.append_nil _).symm⟩
  | cons v vs ih =>
    rw [List.length_cons] at room
    obtain ⟨x', b', done, after, pushed, consumed, _⟩ := emplace_room holds (by omega) v
    have queue := queue_push pushed consumed (holds.covered.trans holds.ahead)
    obtain ⟨b'', all, stored⟩ := ih after (by
      rw [queue, List.length_append, List.length_singleton]
      omega)
    refine ⟨b'', by rw [pushAll, done]; exact all, ?_⟩
    rw [stored, queue, List.append_assoc, List.singleton_append]

theorem emplace_full (holds : Holds e b x y) (full : b.queue.length = e.bound) (v : α) :
    emplace r v b = .error .spins := by
  obtain ⟨x', c, found, _, _⟩ := holds.findRoom_eq
  rw [emplace, holds.next_eq]
  simp only [found, full, Nat.lt_irrefl, decide_false]

/-- `front` is null exactly on an empty buffer and otherwise designates the oldest element;
then the element is covered by `pushCursorCache_`. -/
theorem front_eq (holds : Holds e b x y) :
    ∃ c y', front r b = .ok (if b.queue = [] then none else some (e.index b.consumed.length),
        { b with pushCursorCache := c }) ∧
      Holds e { b with pushCursorCache := c } x y' ∧ y ≤ y' ∧
      (b.queue ≠ [] → b.consumed.length < y') := by
  have behind := holds.behind
  have covered := holds.covered
  have ahead := holds.ahead
  have room := holds.room
  have nil := holds.queue_nil_iff
  have against_cache : b.popCursor = b.pushCursorCache ↔ b.consumed.length = y := by
    rw [holds.popCursor, holds.pushCache]
    exact e.empty_iff _ _ covered (by omega)
  have against_cursor : b.popCursor = b.pushCursor ↔ b.consumed.length = b.pushed.length := by
    rw [holds.popCursor, holds.pushCursor]
    exact e.empty_iff _ _ (by omega) (by omega)
  have reloaded : Holds e { b with pushCursorCache := b.pushCursor } x b.pushed.length :=
    { holds with
      pushCache := holds.pushCursor
      covered := by simp only; omega
      ahead := Nat.le_refl _ }
  unfold front
  split
  · rename_i hit
    simp only [Bool.and_eq_true, bne_iff_ne, ne_eq, against_cache] at hit
    refine ⟨b.pushCursorCache, y, ?_, holds, Nat.le_refl _, fun _ => by omega⟩
    rw [if_neg (by rw [nil]; omega), holds.pointer_eq]
  · refine ⟨b.pushCursor, b.pushed.length, ?_, reloaded, ahead, ?_⟩
    · simp only [against_cursor]
      by_cases empty : b.queue = []
      · rw [if_pos (nil.mp empty), if_pos empty]
      · rw [if_neg (mt nil.mpr empty), if_neg empty]
        exact reloaded.pointer_eq
    · intro some_left
      have := mt nil.mpr some_left
      omega

theorem pop_eq (holds : Holds e b x y) (covered : b.consumed.length < y) :
    ∃ v b', pop r b = .ok b' ∧ Holds e b' x y ∧ b.queue.head? = some v ∧
      b'.pushed = b.pushed ∧ b'.consumed = b.consumed ++ [v] ∧ b'.closed = b.closed := by
  have behind := holds.behind
  have ahead := holds.ahead
  have room := holds.room
  have some_left : b.consumed.length < b.pushed.length := by omega
  have differ : (b.popCursor == b.pushCursor) = false := by
    rw [beq_eq_false_iff_ne, holds.popCursor, holds.pushCursor]
    intro same
    have eq := (e.empty_iff _ _ (by omega) (by omega)).mp same
    omega
  have slot : r.slot b.popCursor = some (e.index b.consumed.length) := by
    rw [holds.popCursor]
    exact e.slot_cursor _
  have next : r.next b.popCursor = some (e.cursor (b.consumed.length + 1)) := by
    rw [holds.popCursor]
    exact e.next_cursor _
  obtain ⟨v, head, live⟩ := holds.oldest some_left
  refine ⟨v, { b with
      slots := Function.update b.slots (e.index b.consumed.length) none
      popCursor := e.cursor (b.consumed.length + 1)
      consumed := b.consumed ++ [v] },
    by simp [pop, differ, slot, live, next], ?_, head, rfl, rfl, rfl⟩
  have pops : (b.consumed ++ [v]).length = b.consumed.length + 1 := by simp
  have present : b.pushed[b.consumed.length]? = some v := by
    rwa [Buffer.queue, List.head?_drop] at head
  exact { holds with
    popCursor := by rw [pops]
    behind := by rw [pops]; omega
    covered := by rw [pops]; exact covered
    laid := by
      rw [pops]
      exact holds.laid.destroy e.apart (by omega)
    consumed := by
      have eq : b.pushed.take b.consumed.length = b.consumed := holds.consumed.symm
      rw [pops, List.take_add_one, eq, present, Option.toList_some] }

theorem queue_pop {b b' : Buffer α} {v : α} (head : b.queue.head? = some v)
    (pushed : b'.pushed = b.pushed) (consumed : b'.consumed = b.consumed ++ [v]) :
    b.queue = v :: b'.queue := by
  rw [Buffer.queue, List.head?_drop] at head
  obtain ⟨lt, eq⟩ := List.getElem?_eq_some_iff.mp head
  rw [Buffer.queue, Buffer.queue, pushed, consumed, List.drop_eq_getElem_cons lt, eq,
    List.length_append, List.length_singleton]

theorem pop_destroys {b b' : Buffer α} (popped : pop r b = .ok b') :
    ∃ i v, r.slot b.popCursor = some i ∧ b.slots i = some v ∧
      b'.slots = Function.update b.slots i none := by
  unfold pop at popped
  split at popped
  · cases popped
  · split at popped
    · cases popped
    · rename_i i slot
      split at popped
      · cases popped
      · rename_i v live
        split at popped
        · cases popped
        · cases popped
          exact ⟨i, v, slot, live, rfl⟩

/-- The destructor makes a round for each element stored, destroys the oldest first and leaves
no element behind. -/
theorem drain_eq (holds : Holds e b x y) (fuel : Nat) (enough : b.queue.length < fuel) :
    ∃ b', drain r fuel b =
        .ok (sweep (fun k => e.index (b.consumed.length + k)) b.queue.length, b') ∧
      Path Lawful b.slots (sweep (fun k => e.index (b.consumed.length + k)) b.queue.length)
        b'.slots ∧
      b'.consumed = b.consumed ++ b.queue ∧ b'.slots = fun _ => none := by
  -- each round of the loop pops the head; the last one finds no element
  induction fuel generalizing b y with
  | zero => omega
  | succ fuel ih =>
    obtain ⟨c, y', answer, after, _, covers⟩ := front_eq holds
    rw [drain, answer]
    by_cases empty : b.queue = []
    · have all := holds.queue_nil_iff.mp empty
      have dead : b.slots = fun _ => none := by
        funext i
        exact after.laid.none_of (fun k lo hi => by simp only at lo hi; omega)
      refine ⟨{ b with pushCursorCache := c }, ?_, ?_, ?_, dead⟩
      · simp only [empty]
        rfl
      · rw [empty]
        exact Path.nil _
      · rw [empty, List.append_nil]
    · obtain ⟨v, b', popped, holds', head, pushed, consumed, _⟩ := pop_eq after (covers empty)
      have split : b.queue = v :: b'.queue := queue_pop head pushed consumed
      obtain ⟨i, w, slot, live, slots⟩ := pop_destroys popped
      have here : i = e.index b.consumed.length := by
        have at_cursor := e.slot_cursor b.consumed.length
        rw [← holds.popCursor] at at_cursor
        exact Option.some.inj (slot.symm.trans at_cursor)
      have later : b'.consumed.length = b.consumed.length + 1 := by
        rw [consumed, List.length_append, List.length_singleton]
      have fewer : b.queue.length = b'.queue.length + 1 := by rw [split, List.length_cons]
      obtain ⟨d, drained, lawful, all, dead⟩ := ih holds' (by omega)
      have rounds : sweep (fun k => e.index (b.consumed.length + k)) b.queue.length =
          (.destroy i :: sweep (fun k => e.index (b'.consumed.length + k)) b'.queue.length :
            List (Lifetime.Event α)) := by
        rw [fewer, later, here]
        exact sweep_from e.index b.consumed.length b'.queue.length
      rw [rounds]
      refine ⟨d, ?_, ?_, ?_, dead⟩
      · simp only [if_neg empty, popped, drained, slot, Except.map]
        rfl
      · rw [slots] at lawful
        exact Path.cons (Lawful.destroy i w live) lawful
      · rw [all, consumed, split, List.append_assoc, List.singleton_append]

end Calls

end RingBuffers.Spsc
