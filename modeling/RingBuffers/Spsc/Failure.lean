import RingBuffers.Library.Calls
import RingBuffers.Spsc.Solo
import RingBuffers.Spsc.Variants

/-! Pushes that fail, because the buffer is full or because the constructor of the element
throws. They refresh at most `popCursorCache_`, and no later call can tell. -/
namespace RingBuffers.Spsc
open BoundedQueue Calls Transition

variable {α : Type}

/-- A call, or a push whose constructor throws. -/
inductive Operation (α : Type) where
  | call (k : Call α)
  | throwing (mode : Mode)

inductive Outcome (α : Type) where
  | answer (a : Answer α)
  | threw
  deriving DecidableEq

/-- The exception leaves `construct_at` before the store of `pushCursor_`. -/
def pushThrowing (r : Ring) (mode : Mode) (b : Buffer α) : Except Stop (Outcome α × Buffer α) :=
  match r.next b.pushCursor with
  | none => .error (.fault .divisionByZero)
  | some next => match findRoom r b next with
    | (false, b) => match mode with
      | .emplace => .error .spins
      | .tryEmplace => .ok (.answer (.pushed false), b)
    | (true, b) => match r.slot b.pushCursor with
      | none => .error (.fault .divisionByZero)
      | some i => match b.slots i with
        | some _ => .error (.fault .constructOnLive)
        | none => .ok (.threw, b)

def operate (r : Ring) (x : Session α) : Operation α → Except Stop (Outcome α × Session α)
  | .call k => (x.call r k).map fun (a, y) => (.answer a, y)
  | .throwing mode => (pushThrowing r mode x.buffer).map fun (o, b) => (o, ⟨b, x.held⟩)

/-- A `pop` follows a non-null `front` since the `pop` before. -/
def popsHeld (x : Session α) : Operation α → Bool
  | .call .pop => x.held
  | _ => true

def Buffer.recache (b : Buffer α) (c : Nat) : Buffer α := { b with popCursorCache := c }

def Session.recache (x : Session α) (c : Nat) : Session α := ⟨x.buffer.recache c, x.held⟩

/-- No sequence of operations that keeps the contract tells `y` from `x`. -/
def Indistinct (r : Ring) (x y : Session α) : Prop :=
  ∀ ops, Along (next (operate r)) (fun x op => popsHeld x op = true) x ops →
    (serve (operate r) y ops).map Prod.fst = (serve (operate r) x ops).map Prod.fst

structure FailsSoftly (r : Ring) (n : Nat) (x : Session α) : Prop where
  throws : ∀ mode, x.buffer.queue.length < n → ∃ c,
    operate r x (.throwing mode) = .ok (.threw, x.recache c) ∧ Indistinct r x (x.recache c)
  refuses : ∀ op, (op = .throwing .tryEmplace ∨ ∃ v, op = .call (.tryPush v)) →
    x.buffer.queue.length = n → ∃ c,
      operate r x op = .ok (.answer (.pushed false), x.recache c) ∧ Indistinct r x (x.recache c)

section Recached

variable {r : Ring} {e : Encoding r} {b : Buffer α} {x y c : Nat}

@[simp] theorem recache_pushCursor : (b.recache c).pushCursor = b.pushCursor := rfl
@[simp] theorem recache_popCursor : (b.recache c).popCursor = b.popCursor := rfl
@[simp] theorem recache_pushCursorCache : (b.recache c).pushCursorCache = b.pushCursorCache := rfl
@[simp] theorem recache_slots : (b.recache c).slots = b.slots := rfl
@[simp] theorem recache_queue : (b.recache c).queue = b.queue := rfl
@[simp] theorem recache_pushed : (b.recache c).pushed = b.pushed := rfl

theorem constructNext_recache (v : α) (next : Nat) :
    constructNext r (b.recache c) v next = (constructNext r b v next).map (·.recache c) := by
  unfold constructNext
  simp only [recache_pushCursor, recache_slots]
  cases r.slot b.pushCursor with
  | none => rfl
  | some i => cases live : b.slots i <;> simp [live, Except.map, Buffer.recache]

theorem pointer_recache :
    pointer r (b.recache c) = (pointer r b).map fun (p, d) => (p, d.recache c) := by
  unfold pointer
  simp only [Buffer.recache]
  cases r.slot b.popCursor <;> rfl

theorem front_recache :
    front r (b.recache c) = (front r b).map fun (p, d) => (p, d.recache c) := by
  unfold front
  simp only [recache_popCursor, recache_pushCursorCache, recache_pushCursor]
  by_cases hit : (r.cached && b.popCursor != b.pushCursorCache) = true
  · simp only [hit, if_true]
    exact pointer_recache
  · simp only [hit, Bool.false_eq_true, if_false]
    by_cases empty : b.popCursor = b.pushCursor
    · simp only [empty, if_true]
      rfl
    · simp only [empty, if_false]
      exact pointer_recache (b := { b with pushCursorCache := b.pushCursor }) (c := c)

theorem pop_recache : pop r (b.recache c) = (pop r b).map (·.recache c) := by
  unfold pop
  simp only [recache_popCursor, recache_pushCursor, recache_slots]
  by_cases fails : (!r.ndebug && b.popCursor == b.pushCursor) = true
  · simp only [fails, if_true]
    rfl
  · simp only [fails, Bool.false_eq_true, if_false]
    cases r.slot b.popCursor with
    | none => rfl
    | some i =>
      cases live : b.slots i with
      | none => simp [live, Except.map]
      | some v => cases r.next b.popCursor <;> simp [live, Except.map, Buffer.recache]

theorem Holds.findRoom_recache (holds : Holds e b x y) :
    ∃ c, findRoom r b (e.cursor (b.pushed.length + 1)) =
      (decide (b.queue.length < e.bound), b.recache c) := by
  obtain ⟨_, c, found, _⟩ := holds.findRoom_eq
  exact ⟨c, found⟩

theorem Holds.findRooms {x' y' : Nat} (holds : Holds e b x y) (holds' : Holds e (b.recache c) x' y') :
    r.next b.pushCursor = some (e.cursor (b.pushed.length + 1)) ∧
      (∃ d, findRoom r b (e.cursor (b.pushed.length + 1)) =
        (decide (b.queue.length < e.bound), b.recache d)) ∧
      ∃ d, findRoom r (b.recache c) (e.cursor (b.pushed.length + 1)) =
        (decide (b.queue.length < e.bound), b.recache d) :=
  ⟨holds.next_eq, holds.findRoom_recache, holds'.findRoom_recache⟩

end Recached

def Recached (b d : Buffer α) : Prop := ∃ c, d = b.recache c

section Calls

variable {r : Ring} {e : Encoding r} {b : Buffer α} {x x' y y' c : Nat}

theorem perform_alike (holds : Holds e b x y) (holds' : Holds e (b.recache c) x' y') (k : Call α) :
    Alike Recached (perform r b k) (perform r (b.recache c) k) := by
  obtain ⟨next, ⟨d, found⟩, d', found'⟩ := holds.findRooms holds'
  have next' : r.next (b.recache c).pushCursor = some (e.cursor (b.pushed.length + 1)) := next
  cases k with
  | push v =>
    simp only [perform, emplace, next, next', found, found']
    by_cases room : b.queue.length < e.bound
    · simp only [room, decide_true, constructNext_recache]
      cases constructNext r b v (e.cursor (b.pushed.length + 1)) with
      | error stop => exact .inl ⟨stop, rfl, rfl⟩
      | ok b' => exact .inr ⟨.done, b'.recache d, b'.recache d', rfl, rfl, d', rfl⟩
    · simp only [room, decide_false]
      exact .inl ⟨.spins, rfl, rfl⟩
  | tryPush v =>
    simp only [perform, tryEmplace, next, next', found, found']
    by_cases room : b.queue.length < e.bound
    · simp only [room, decide_true, constructNext_recache]
      cases constructNext r b v (e.cursor (b.pushed.length + 1)) with
      | error stop => exact .inl ⟨stop, rfl, rfl⟩
      | ok b' => exact .inr ⟨.pushed true, b'.recache d, b'.recache d', rfl, rfl, d', rfl⟩
    · simp only [room, decide_false]
      exact .inr ⟨.pushed false, b.recache d, b.recache d', rfl, rfl, d', rfl⟩
  | front =>
    simp only [perform, front_recache]
    cases front r b with
    | error stop => exact .inl ⟨stop, rfl, rfl⟩
    | ok seen =>
      obtain ⟨p, b'⟩ := seen
      cases p with
      | none => exact .inr ⟨.front none, b', b'.recache c, rfl, rfl, c, rfl⟩
      | some i =>
        simp only [Except.map, recache_slots]
        cases b'.slots i with
        | none => exact .inl ⟨.fault .readOfDead, rfl, rfl⟩
        | some v => exact .inr ⟨.front (some v), b', b'.recache c, rfl, rfl, c, rfl⟩
  | pop =>
    simp only [perform, pop_recache]
    cases pop r b with
    | error stop => exact .inl ⟨stop, rfl, rfl⟩
    | ok b' => exact .inr ⟨.done, b', b'.recache c, rfl, rfl, c, rfl⟩
  | close => exact .inr ⟨.done, _, _, rfl, rfl, c, rfl⟩
  | closed => exact .inr ⟨_, _, _, rfl, rfl, c, rfl⟩
  | capacity => exact .inr ⟨_, _, _, rfl, rfl, c, rfl⟩

theorem pushThrowing_alike (holds : Holds e b x y) (holds' : Holds e (b.recache c) x' y')
    (mode : Mode) :
    Alike Recached (pushThrowing r mode b) (pushThrowing r mode (b.recache c)) := by
  obtain ⟨next, ⟨d, found⟩, d', found'⟩ := holds.findRooms holds'
  have next' : r.next (b.recache c).pushCursor = some (e.cursor (b.pushed.length + 1)) := next
  simp only [pushThrowing, next, next', found, found']
  by_cases room : b.queue.length < e.bound
  · simp only [room, decide_true, recache_pushCursor, recache_slots]
    cases r.slot b.pushCursor with
    | none => exact .inl ⟨.fault .divisionByZero, rfl, rfl⟩
    | some i =>
      cases occupied : b.slots i with
      | none =>
        simp only [occupied]
        exact .inr ⟨.threw, b.recache d, b.recache d', rfl, rfl, d', rfl⟩
      | some v =>
        simp only [occupied]
        exact .inl ⟨.fault .constructOnLive, rfl, rfl⟩
  · simp only [room, decide_false]
    cases mode with
    | emplace => exact .inl ⟨.spins, rfl, rfl⟩
    | tryEmplace =>
      exact .inr ⟨.answer (.pushed false), b.recache d, b.recache d', rfl, rfl, d', rfl⟩

theorem pushThrowing_eq (holds : Holds e b x y) : ∃ x' c, Holds e (b.recache c) x' y ∧
    (b.queue.length < e.bound →
      ∀ mode, pushThrowing r mode b = .ok (.threw, b.recache c)) ∧
    (b.queue.length = e.bound → pushThrowing r .emplace b = .error .spins ∧
      pushThrowing r .tryEmplace b = .ok (.answer (.pushed false), b.recache c)) := by
  obtain ⟨x', c, found, after, free⟩ := holds.findRoom_eq
  have next := holds.next_eq
  refine ⟨x', c, after, ?_, ?_⟩
  · intro room mode
    have slot : r.slot b.pushCursor = some (e.index b.pushed.length) := by
      rw [holds.pushCursor]
      exact e.slot_cursor _
    have dead : b.slots (e.index b.pushed.length) = none := by
      have behind := after.behind
      have covered := after.covered
      have ahead := after.ahead
      have bound := free room
      exact holds.laid.vacant e.apart (by simp only at *; omega)
    simp only [pushThrowing, next, found, room, decide_true, slot, dead]
    rfl
  · intro full
    simp only [pushThrowing, next, found, full, Nat.lt_irrefl, decide_false]
    exact ⟨trivial, rfl⟩

end Calls

section Sessions

variable {r : Ring} {e : Encoding r} {x y : Session α} {c : Nat}

theorem Represents.nonempty (rep : Represents e x.buffer x.client) :
    x.client.held = true → x.client.queue ≠ [] := by
  intro held
  obtain ⟨_, _, holds, covers⟩ := rep.holds
  have covered := covers held
  have ahead := holds.ahead
  change x.buffer.queue ≠ []
  rw [ne_eq, holds.queue_nil_iff]
  omega

theorem Represents.call_ok (rep : Represents e x.buffer x.client) (size : r.capacity = e.bound)
    {k : Call α} (contract : popsHeld x (.call k) = true) {a : Answer α}
    (done : x.call r k = .ok (a, y)) : Represents e y.buffer y.client := by
  obtain ⟨_, _, holds, _⟩ := rep.holds
  have answered : ∃ a c', x.client.perform e.bound k = some (a, c') := by
    cases k with
    | push v =>
      by_cases room : x.client.queue.length < e.bound
      · exact ⟨_, _, if_pos room⟩
      · have bounded := holds.bounded
        have full : x.buffer.queue.length = e.bound := by
          change ¬ x.buffer.queue.length < e.bound at room
          omega
        rw [Session.call, perform, emplace_full holds full] at done
        cases done
    | tryPush v =>
      simp only [Client.perform]
      split
      · exact ⟨_, _, rfl⟩
      · exact ⟨_, _, rfl⟩
    | pop => exact ⟨.done, _, if_pos contract⟩
    | front | close | closed | capacity => exact ⟨_, _, rfl⟩
  obtain ⟨a', c', answers⟩ := answered
  obtain ⟨b', performed, rep', _⟩ := rep.perform_eq size answers
  rw [Session.call, performed] at done
  cases done
  have client : Session.client ⟨b', heldAfter x.held k a⟩ = c' := by
    have held : heldAfter x.held k a = c'.held := heldAfter_eq answers rep.nonempty
    rw [Session.client, rep'.queue, rep'.closed, held]
  rw [client]
  exact rep'

theorem represents_recached {x' y' : Nat} (holds : Holds e (x.buffer.recache c) x' y')
    (covered : x.held = true → x.buffer.consumed.length < y') :
    Represents e (x.recache c).buffer (x.recache c).client :=
  ⟨⟨x', y', holds, covered⟩, rfl, rfl⟩

theorem Represents.operate_ok (rep : Represents e x.buffer x.client) (size : r.capacity = e.bound)
    {op : Operation α} (contract : popsHeld x op = true) {o : Outcome α}
    (done : operate r x op = .ok (o, y)) : Represents e y.buffer y.client := by
  cases op with
  | call k =>
    cases called : x.call r k with
    | error stop =>
      rw [operate, called] at done
      cases done
    | ok z =>
      rw [operate, called] at done
      cases done
      exact rep.call_ok size contract called
  | throwing mode =>
    obtain ⟨x', y', holds, covered⟩ := rep.holds
    obtain ⟨x'', c, after, room, full⟩ := pushThrowing_eq holds
    rw [operate] at done
    rcases Nat.lt_or_eq_of_le holds.bounded with free | filled
    · rw [room free mode] at done
      cases done
      exact represents_recached after covered
    · cases mode with
      | emplace =>
        rw [(full filled).1] at done
        cases done
      | tryEmplace =>
        rw [(full filled).2] at done
        cases done
        exact represents_recached after covered

structure Twins (e : Encoding r) (x y : Session α) : Prop where
  recached : Recached x.buffer y.buffer
  held : y.held = x.held
  left : Represents e x.buffer x.client
  right : Represents e y.buffer y.client

theorem Twins.operate_alike (twins : Twins e x y) (size : r.capacity = e.bound)
    {op : Operation α} (contract : popsHeld x op = true) :
    Alike (Twins e) (operate r x op) (operate r y op) := by
  obtain ⟨⟨c, recached⟩, held, left, right⟩ := twins
  obtain ⟨_, _, holds, _⟩ := left.holds
  obtain ⟨_, _, holds', _⟩ := right.holds
  have contract' : popsHeld y op = true := by
    cases op with
    | call k => cases k <;> simp_all [popsHeld]
    | throwing mode => rfl
  rw [recached] at holds'
  have both : Alike (fun z w => Recached z.buffer w.buffer ∧ w.held = z.held) (operate r x op)
      (operate r y op) := by
    cases op with
    | call k =>
      rcases perform_alike holds holds' k with ⟨stop, one, two⟩ | ⟨a, b, d, one, two, same⟩
      · exact .inl ⟨stop, by rw [operate, Session.call, one]; rfl,
          by rw [operate, Session.call, recached, two]; rfl⟩
      · exact .inr ⟨.answer a, ⟨b, heldAfter x.held k a⟩, ⟨d, heldAfter y.held k a⟩,
          by rw [operate, Session.call, one]; rfl,
          by rw [operate, Session.call, recached, two]; rfl, same, by rw [held]⟩
    | throwing mode =>
      rcases pushThrowing_alike holds holds' mode with ⟨stop, one, two⟩ | ⟨o, b, d, one, two, same⟩
      · exact .inl ⟨stop, by rw [operate, one]; rfl, by rw [operate, recached, two]; rfl⟩
      · exact .inr ⟨o, ⟨b, x.held⟩, ⟨d, y.held⟩, by rw [operate, one]; rfl,
          by rw [operate, recached, two]; rfl, same, held⟩
  rcases both with stops | ⟨o, z, w, one, two, same, held'⟩
  · exact .inl stops
  · exact .inr ⟨o, z, w, one, two, same, held', left.operate_ok size contract one,
      right.operate_ok size contract' two⟩

theorem Twins.indistinct (twins : Twins e x y) (size : r.capacity = e.bound) :
    Indistinct r x y := by
  intro ops kept
  apply serve_alike (Twins e) (fun x op => popsHeld x op = true) _ twins kept
  intro x y op twins contract
  exact twins.operate_alike size contract

theorem Represents.failsSoftly (rep : Represents e x.buffer x.client)
    (size : r.capacity = e.bound) : FailsSoftly r e.bound x := by
  obtain ⟨x', y', holds, covered⟩ := rep.holds
  have twin : ∀ {x' c}, Holds e (x.buffer.recache c) x' y' → Indistinct r x (x.recache c) := by
    intro x' c after
    have twins : Twins e x (x.recache c) :=
      ⟨⟨c, rfl⟩, rfl, rep, represents_recached after covered⟩
    exact twins.indistinct size
  obtain ⟨_, c, after, room, full⟩ := pushThrowing_eq holds
  constructor
  · intro mode free
    exact ⟨c, by rw [operate, room free mode]; rfl, twin after⟩
  · rintro op (rfl | ⟨v, rfl⟩) filled
    · exact ⟨c, by rw [operate, (full filled).2]; rfl, twin after⟩
    · obtain ⟨_, d, refused, after⟩ := tryEmplace_full holds filled v
      exact ⟨d, by rw [operate, Session.call, perform, refused]; rfl, twin after⟩

end Sessions

/-- Between operations, as a client finds it. -/
def State.session (s : State α) : Session α := ⟨s.toBuffer, s.held.isSome⟩

theorem Inv.session_represents {r : Ring} {e : Encoding r} {s : State α} (inv : Inv e s)
    (quiet : s.quiet) : Represents e s.session.buffer s.session.client where
  holds := by
    refine ⟨_, _, inv.toBuffer_holds quiet, ?_⟩
    intro held
    obtain ⟨i, holding⟩ := Option.isSome_iff_exists.mp held
    exact (inv.held i holding).1
  queue := rfl
  closed := rfl

end RingBuffers.Spsc
