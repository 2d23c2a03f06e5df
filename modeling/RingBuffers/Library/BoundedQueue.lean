import RingBuffers.Library.Calls

/-! The bounded first-in first-out queue as an abstract object: the instants at
which operations take effect on a list, and around them the calls and returns of
one pushing and one popping party. -/
namespace BoundedQueue

variable {α : Type*} {n : Nat}

inductive Event (α : Type*) where
  | push (v : α)
  | pop (v : α)
  | full
  | empty
  | peek (v : α)
  | silent

/-- The effect of an event on the queue, oldest element first. -/
inductive Takes (n : Nat) : List α → Event α → List α → Prop where
  | push {q : List α} (v : α) : q.length < n → Takes n q (.push v) (q ++ [v])
  | pop (v : α) (q : List α) : Takes n (v :: q) (.pop v) q
  | full {q : List α} : q.length = n → Takes n q .full q
  | empty : Takes n [] .empty []
  | peek (v : α) (q : List α) : Takes n (v :: q) (.peek v) (v :: q)
  | silent (q : List α) : Takes n q .silent q

def Event.pushed : Event α → List α
  | .push v => [v]
  | _ => []

def Event.popped : Event α → List α
  | .pop v => [v]
  | _ => []

theorem Takes.conserves {q q' : List α} {a : Event α} (takes : Takes n q a q') :
    q ++ a.pushed = a.popped ++ q' := by
  cases takes <;> simp [Event.pushed, Event.popped]

/-- Nothing is lost, duplicated or reordered along a path of the queue. -/
theorem path_conserves {q q' : List α} {as : List (Event α)}
    (path : Transition.Path (Takes n) q as q') :
    q ++ as.flatMap Event.pushed = as.flatMap Event.popped ++ q' := by
  induction path with
  | nil q => simp
  | cons first _ ih =>
    rw [List.flatMap_cons, List.flatMap_cons, ← List.append_assoc, first.conserves,
      List.append_assoc, ih, List.append_assoc]

/-- The pushing party: a call in progress may have decided that the queue is full. -/
inductive Pusher (α : Type*) where
  | idle
  | pushing (retries : Bool) (v : α)
  | refused

/-- The popping party: a call in progress may have decided that the queue is empty. -/
inductive Popper where
  | idle | looking | missed | popping

structure Object (α : Type*) where
  queue : List α
  pusher : Pusher α
  popper : Popper

def Object.start (α : Type*) : Object α := ⟨[], .idle, .idle⟩

inductive Action (α : Type*) where
  | callPush (retries : Bool) (v : α)
  | callFront
  | callPop
  | returnFalse
  | returnNull
  | throws
  | reads (v : α)
  | takes (a : Event α)

/-- A push and a pop return when they take effect. A refused push answers false, a
missed front answers null, and both take effect at an instant of their own call.
Only a push that does not retry may be refused. -/
inductive Object.Step (n : Nat) : Object α → Action α → Object α → Prop where
  | callPush {o : Object α} (b : Bool) (v : α) : o.pusher = .idle →
      Step n o (.callPush b v) { o with pusher := .pushing b v }
  | push {o : Object α} {b : Bool} {v : α} {q : List α} : o.pusher = .pushing b v →
      Takes n o.queue (.push v) q →
      Step n o (.takes (.push v)) { o with queue := q, pusher := .idle }
  | full {o : Object α} {v : α} : o.pusher = .pushing false v → Takes n o.queue .full o.queue →
      Step n o (.takes .full) { o with pusher := .refused }
  | returnFalse {o : Object α} : o.pusher = .refused →
      Step n o .returnFalse { o with pusher := .idle }
  | throws {o : Object α} {b : Bool} {v : α} : o.pusher = .pushing b v →
      Step n o .throws { o with pusher := .idle }
  | callFront {o : Object α} : o.popper = .idle →
      Step n o .callFront { o with popper := .looking }
  | empty {o : Object α} : o.popper = .looking → Takes n o.queue .empty o.queue →
      Step n o (.takes .empty) { o with popper := .missed }
  | returnNull {o : Object α} : o.popper = .missed →
      Step n o .returnNull { o with popper := .idle }
  | peek {o : Object α} {v : α} : o.popper = .looking → Takes n o.queue (.peek v) o.queue →
      Step n o (.takes (.peek v)) { o with popper := .idle }
  | reads {o : Object α} {v : α} : o.popper = .idle → Takes n o.queue (.peek v) o.queue →
      Step n o (.reads v) o
  | callPop {o : Object α} : o.popper = .idle →
      Step n o .callPop { o with popper := .popping }
  | pop {o : Object α} {v : α} {q : List α} : o.popper = .popping →
      Takes n o.queue (.pop v) q →
      Step n o (.takes (.pop v)) { o with queue := q, popper := .idle }
  | silent (o : Object α) : Step n o (.takes .silent) o

def Action.pushed : Action α → List α
  | .takes a => a.pushed
  | _ => []

def Action.popped : Action α → List α
  | .takes a => a.popped
  | _ => []

/-- The calls of a single client and their answers; `front` answers with the element. -/
inductive Call (α : Type*) where
  | push (v : α)
  | tryPush (v : α)
  | front
  | pop
  | close
  | closed
  | capacity

inductive Answer (α : Type*) where
  | done
  | pushed (b : Bool)
  | front (v : Option α)
  | closed (b : Bool)
  | capacity (n : Nat)
  deriving DecidableEq

/-- What a client of a bounded queue knows; `held` is a non-null `front` since the last `pop`. -/
structure Client (α : Type*) where
  queue : List α
  closed : Bool
  held : Bool

def Client.start (α : Type*) : Client α := ⟨[], false, false⟩

/-- One call; undefined for a `push` on a full queue, which would never return, and for a
`pop` without a held element. -/
def Client.perform (n : Nat) (c : Client α) : Call α → Option (Answer α × Client α)
  | .push v =>
    if c.queue.length < n then some (.done, { c with queue := c.queue ++ [v] }) else none
  | .tryPush v =>
    if c.queue.length < n then some (.pushed true, { c with queue := c.queue ++ [v] })
    else some (.pushed false, c)
  | .front => some (.front c.queue.head?, { c with held := c.queue.head?.isSome })
  | .pop =>
    if c.held then some (.done, { c with queue := c.queue.tail, held := false }) else none
  | .close => some (.done, { c with closed := true })
  | .closed => some (.closed c.closed, c)
  | .capacity => some (.capacity n, c)

def Client.session (n : Nat) : Client α → List (Call α) → Option (List (Answer α))
  | _, [] => some []
  | c, k :: ks => match c.perform n k with
    | none => none
    | some (a, c) => (Client.session n c ks).map (a :: ·)

/-- A store that answers each call as the client expects answers each session so; `f` and `g`
say how the store spells calls and answers. -/
theorem Client.served {B K A E : Type*} {perform : B → K → Except E (A × B)} (f : Call α → K)
    (g : Answer α → A) (R : B → Client α → Prop)
    (meets : ∀ b c k a c', R b c → c.perform n k = some (a, c') →
      ∃ b', perform b (f k) = .ok (g a, b') ∧ R b' c') {b : B} {c : Client α}
    {ks : List (Call α)} {as : List (Answer α)} (related : R b c)
    (valid : c.session n ks = some as) :
    ∃ b', Calls.serve perform b (ks.map f) = .ok (as.map g, b') := by
  induction ks generalizing b c as with
  | nil =>
    cases valid
    exact ⟨b, rfl⟩
  | cons k ks ih =>
    rw [Client.session] at valid
    split at valid
    · cases valid
    · rename_i a c' answers
      obtain ⟨rest, tail, rfl⟩ := Option.map_eq_some_iff.mp valid
      obtain ⟨b', now, kept⟩ := meets b c k a c' related answers
      obtain ⟨d, later⟩ := ih kept tail
      exact ⟨d, (Calls.serve_cons _ _ _ _ _).mpr ⟨g a, b', rest.map g, now, later, rfl⟩⟩

end BoundedQueue
