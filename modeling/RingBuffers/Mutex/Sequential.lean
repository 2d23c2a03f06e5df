import RingBuffers.Library.BoundedQueue
import RingBuffers.Mutex.Machine

/-! A `MutexBuffer` in the hands of a single client: nobody else holds the mutex, so each call
runs its critical section at once, and nobody wakes an `emplace` that blocks. -/
namespace RingBuffers.Mutex
open BoundedQueue Calls

inductive Stop where
  | fault (f : Fault)
  | blocks
  | threw
  deriving DecidableEq, Repr

/-- What a client may ask for; `try_pop` has no counterpart in the other classes. -/
inductive Request (α : Type) where
  | call (k : Call α)
  | tryPop

inductive Reply (α : Type) where
  | answer (a : Answer α)
  | popped (v : Option α)
  deriving DecidableEq

def Request.takes {α : Type} : Request α → Bool
  | .call .pop | .tryPop => true
  | _ => false

variable {α : Type}

/-- The critical section of a call, for the only thread there is. -/
def call (env : Environment) (b : MutexBuffer α) (op : Op α) :
    Except Stop (Result α × MutexBuffer α) :=
  let s := criticalSection env (start Unit b) () op
  match s.fault, s.result () with
  | some f, _ => .error (.fault f)
  | none, some res => .ok (res, s.buffer)
  | none, none => .error .blocks

/-- What the client sees, when it reads the element through each pointer it gets. -/
def reply (b : MutexBuffer α) : Result α → Except Stop (Reply α)
  | .done => .ok (.answer .done)
  | .pushed done => .ok (.answer (.pushed done))
  | .front none => .ok (.answer (.front none))
  | .front (some i) => match b.slots i with
    | none => .error (.fault .readOfDead)
    | some v => .ok (.answer (.front (some v)))
  | .popped v => .ok (.popped v)
  | .closed c => .ok (.answer (.closed c))
  | .threw => .error .threw

def ask (env : Environment) (b : MutexBuffer α) (op : Op α) :
    Except Stop (Reply α × MutexBuffer α) :=
  match call env b op with
  | .error stop => .error stop
  | .ok (res, c) => (reply c res).map (·, c)

def request (env : Environment) (b : MutexBuffer α) : Request α →
    Except Stop (Reply α × MutexBuffer α)
  | .call (.push v) => ask env b (.emplace v)
  | .call (.tryPush v) => ask env b (.tryEmplace v)
  | .call .front => ask env b .front
  | .call .pop => ask env b .pop
  | .call .close => ask env b .close
  | .call .closed => ask env b .closed
  -- `capacity` takes no lock
  | .call .capacity => .ok (.answer (.capacity b.capacity_), b)
  | .tryPop => ask env b .tryPop

section Calls

variable {env : Environment} {n popped : Nat} {b : MutexBuffer α} {pushed : List α}

theorem call_push (env : Environment) (holds : b.Holds n pushed popped) {op : Op α} {v : α}
    {res : Result α} (kind : op.pushes = some (v, res)) (room : b.isFull = false) :
    ∃ b', call env b op = .ok (res, b') ∧ b'.Holds n (pushed ++ [v]) popped ∧
      b'.closed_ = b.closed_ := by
  obtain ⟨b', built, after⟩ := holds.pushBack_eq room v
  refine ⟨b', ?_, after, MutexBuffer.pushBack_closed built⟩
  cases op with
  | emplace w =>
    cases kind
    simp [call, criticalSection, start, room, pushes, built, State.answers]
  | tryEmplace w =>
    cases kind
    simp [call, criticalSection, start, room, pushes, built, State.answers]
  | front | tryPop | pop | close | closed => cases kind

theorem call_take (env : Environment) (op : Op α) (holds : b.Holds n pushed popped)
    (kind : ∀ v, op.takes v ≠ none) (some_left : 0 < b.count_) :
    ∃ v res b', pushed[popped]? = some v ∧ op.takes v = some res ∧
      call env b op = .ok (res, b') ∧ b.popFront = .ok b' ∧ b'.Holds n pushed (popped + 1) ∧
      b'.closed_ = b.closed_ := by
  obtain ⟨v, present, live⟩ := holds.oldest some_left
  obtain ⟨b', destroyed, after⟩ := holds.popFront_eq some_left
  have left : b.count_ ≠ 0 := Nat.ne_of_gt some_left
  have closed := MutexBuffer.popFront_closed destroyed
  cases op with
  | tryPop =>
    refine ⟨v, _, b', present, rfl, ?_, destroyed, after, closed⟩
    simp [call, criticalSection, start, left, pops, live, destroyed, State.answers]
  | pop =>
    refine ⟨v, _, b', present, rfl, ?_, destroyed, after, closed⟩
    simp [call, criticalSection, start, left, pops, live, destroyed, State.answers]
  | emplace w | tryEmplace w | front | close | closed => exact absurd rfl (kind (by assumption))

theorem call_full (env : Environment) (v : α) (full : b.isFull = true) :
    call env b (.emplace v) = .error .blocks ∧
      call env b (.tryEmplace v) = .ok (.pushed false, b) := by
  constructor
  · simp [call, criticalSection, start, full, State.moves]
  · simp [call, criticalSection, start, full, State.answers]

theorem call_empty (empty : b.count_ = 0) : call env b .tryPop = .ok (.popped none, b) := by
  simp [call, criticalSection, start, empty, State.answers]

theorem call_front : call env b .front = .ok (.front b.front, b) := by
  simp [call, criticalSection, start, State.answers]

theorem call_close : call env b .close = .ok (.done, { b with closed_ := true }) := by
  simp [call, criticalSection, start, State.answers]

theorem call_closed : call env b .closed = .ok (.closed b.closed_, b) := by
  simp [call, criticalSection, start, State.answers]

theorem call_pop_empty (env : Environment) (holds : b.Holds n pushed popped)
    (empty : b.count_ = 0) : ∃ f, call env b .pop = .error (.fault f) := by
  have count := holds.count
  have dead : b.slots b.popCursor_ = none := by
    rw [holds.popCursor]
    exact holds.laid.none_of (fun k le lt => by omega)
  by_cases release : env.ndebug = false
  · exact ⟨.assertionFailed, by simp [call, criticalSection, start, empty, release]⟩
  · exact ⟨.destroyOfDead, by simp [call, criticalSection, start, release, pops, dead]⟩

theorem ask_eq {op : Op α} {res : Result α} {b' : MutexBuffer α} {a : Reply α}
    (called : call env b op = .ok (res, b')) (seen : reply b' res = .ok a) :
    ask env b op = .ok (a, b') := by
  simp only [ask, called, seen, Except.map]

theorem ask_front (holds : b.Holds n pushed popped) :
    request env b (.call .front) =
      .ok (.answer (.front (pushed.drop popped).head?), b) := by
  have count := holds.count
  have ordered := holds.ordered
  apply ask_eq call_front
  rw [List.head?_drop, MutexBuffer.front]
  by_cases empty : b.count_ = 0
  · rw [if_pos empty, List.getElem?_eq_none (by omega)]
    rfl
  · obtain ⟨v, present, live⟩ := holds.oldest (Nat.pos_of_ne_zero empty)
    rw [if_neg empty, present]
    simp only [reply, live]

theorem ask_ok {op : Op α} {a : Reply α} {b' : MutexBuffer α}
    (served : ask env b op = .ok (a, b')) :
    ∃ res, call env b op = .ok (res, b') ∧ reply b' res = .ok a := by
  unfold ask at served
  split at served
  · cases served
  · rename_i res c called
    cases seen : reply c res with
    | error stop =>
      rw [seen] at served
      cases served
    | ok a' =>
      rw [seen] at served
      cases served
      exact ⟨res, called, seen⟩

theorem call_push_holds (holds : b.Holds n pushed popped) {op : Op α} {v : α} {res ok : Result α}
    {b' : MutexBuffer α} (kind : op.pushes = some (v, ok))
    (called : call env b op = .ok (res, b')) : ∃ more, b'.Holds n (pushed ++ more) popped := by
  cases room : b.isFull with
  | false =>
    obtain ⟨c, done, after, _⟩ := call_push env holds kind room
    rw [done] at called
    cases called
    exact ⟨[v], after⟩
  | true =>
    cases op with
    | emplace w =>
      rw [(call_full env w room).1] at called
      cases called
    | tryEmplace w =>
      rw [(call_full env w room).2] at called
      cases called
      exact ⟨[], by rwa [List.append_nil]⟩
    | front | tryPop | pop | close | closed => cases kind

theorem call_take_holds (holds : b.Holds n pushed popped) {op : Op α} {res : Result α}
    {b' : MutexBuffer α} (kind : op = .tryPop ∨ op = .pop)
    (called : call env b op = .ok (res, b')) : ∃ k, b'.Holds n pushed (popped + k) := by
  by_cases empty : b.count_ = 0
  · rcases kind with rfl | rfl
    · rw [call_empty empty] at called
      cases called
      exact ⟨0, holds⟩
    · obtain ⟨f, fails⟩ := call_pop_empty env holds empty
      rw [fails] at called
      cases called
  · have takes : ∀ v, op.takes v ≠ none := by
      rcases kind with rfl | rfl <;> intro v h <;> cases h
    obtain ⟨_, _, c, _, _, done, _, after, _⟩ :=
      call_take env op holds takes (Nat.pos_of_ne_zero empty)
    rw [done] at called
    cases called
    exact ⟨1, after⟩

theorem request_keeps (holds : b.Holds n pushed popped) {q : Request α} {a : Reply α}
    {b' : MutexBuffer α} (kind : q.takes = false) (served : request env b q = .ok (a, b')) :
    ∃ more, b'.Holds n (pushed ++ more) popped := by
  have same : b.Holds n (pushed ++ []) popped := by rwa [List.append_nil]
  cases q with
  | tryPop => cases kind
  | call k =>
    cases k with
    | push v =>
      have asked : ask env b (.emplace v) = .ok (a, b') := served
      obtain ⟨res, called, _⟩ := ask_ok asked
      exact call_push_holds holds rfl called
    | tryPush v =>
      have asked : ask env b (.tryEmplace v) = .ok (a, b') := served
      obtain ⟨res, called, _⟩ := ask_ok asked
      exact call_push_holds holds rfl called
    | front =>
      have asked : ask env b .front = .ok (a, b') := served
      obtain ⟨res, called, _⟩ := ask_ok asked
      rw [call_front] at called
      cases called
      exact ⟨[], same⟩
    | pop => cases kind
    | close =>
      have asked : ask env b .close = .ok (a, b') := served
      obtain ⟨res, called, _⟩ := ask_ok asked
      rw [call_close] at called
      cases called
      exact ⟨[], { same with }⟩
    | closed =>
      have asked : ask env b .closed = .ok (a, b') := served
      obtain ⟨res, called, _⟩ := ask_ok asked
      rw [call_closed] at called
      cases called
      exact ⟨[], same⟩
    | capacity =>
      cases served
      exact ⟨[], same⟩

theorem request_holds (holds : b.Holds n pushed popped) {q : Request α} {a : Reply α}
    {b' : MutexBuffer α} (served : request env b q = .ok (a, b')) :
    ∃ more k, b'.Holds n (pushed ++ more) (popped + k) := by
  cases takes : q.takes with
  | false =>
    obtain ⟨more, after⟩ := request_keeps holds takes served
    exact ⟨more, 0, after⟩
  | true =>
    have op : ∃ op, (op = .tryPop ∨ op = .pop) ∧ request env b q = ask env b op := by
      cases q with
      | tryPop => exact ⟨.tryPop, .inl rfl, rfl⟩
      | call k =>
        cases k with
        | pop => exact ⟨.pop, .inr rfl, rfl⟩
        | _ => cases takes
    obtain ⟨op, kind, eq⟩ := op
    rw [eq] at served
    obtain ⟨res, called, _⟩ := ask_ok served
    obtain ⟨k, after⟩ := call_take_holds holds kind called
    exact ⟨[], k, by rwa [List.append_nil]⟩

structure Represents (n : Nat) (b : MutexBuffer α) (c : Client α) : Prop where
  holds : ∃ pushed popped, b.Holds n pushed popped ∧ pushed.drop popped = c.queue
  closed : b.closed_ = c.closed
  held : c.held = true → c.queue ≠ []

theorem represents_empty (pos : 0 < n) (small : n < sizeModulus) :
    Represents n (MutexBuffer.empty α n) (Client.start α) where
  holds := ⟨[], 0, MutexBuffer.holds_empty pos small, rfl⟩
  closed := rfl
  held := by intro impossible; cases impossible

variable {c c' : Client α} {k : Call α} {a : Answer α}

theorem Represents.push (rep : Represents n b c) (env : Environment) (op : Op α) {v : α}
    {res : Result α} (kind : op.pushes = some (v, res)) (room : c.queue.length < n) :
    ∃ b', call env b op = .ok (res, b') ∧ Represents n b' { c with queue := c.queue ++ [v] } := by
  obtain ⟨pushed, popped, holds, queue⟩ := rep.holds
  have length := congrArg List.length queue
  have ordered := holds.ordered
  rw [List.length_drop] at length
  have free : b.isFull = false := by
    rw [← Bool.not_eq_true, holds.full_iff]
    omega
  obtain ⟨b', done, after, closed⟩ := call_push env holds kind free
  refine ⟨b', done, ⟨pushed ++ [v], popped, after, ?_⟩, closed.trans rep.closed, ?_⟩
  · rw [List.drop_append_of_le_length ordered, queue]
  · intro _ impossible
    simp at impossible

theorem Represents.request_eq (rep : Represents n b c)
    (answers : c.perform n k = some (a, c')) :
    ∃ b', request env b (.call k) = .ok (.answer a, b') ∧ Represents n b' c' := by
  obtain ⟨pushed, popped, holds, queue⟩ := rep.holds
  have length := congrArg List.length queue
  have ordered := holds.ordered
  have bounded := holds.bounded
  have count := holds.count
  rw [List.length_drop] at length
  cases k with
  | push v =>
    simp only [Client.perform] at answers
    split at answers
    · rename_i room
      cases answers
      obtain ⟨b', done, rep'⟩ := rep.push env (.emplace v) rfl room
      exact ⟨b', ask_eq done rfl, rep'⟩
    · cases answers
  | tryPush v =>
    simp only [Client.perform] at answers
    split at answers
    · rename_i room
      cases answers
      obtain ⟨b', done, rep'⟩ := rep.push env (.tryEmplace v) rfl room
      exact ⟨b', ask_eq done rfl, rep'⟩
    · rename_i no_room
      cases answers
      have full : b.isFull = true := holds.full_iff.mpr (by omega)
      exact ⟨b, ask_eq (call_full env v full).2 rfl, rep⟩
  | front =>
    cases answers
    refine ⟨b, by rw [ask_front holds, queue], ⟨rep.holds, rep.closed, ?_⟩⟩
    intro held empty
    simp only at held empty
    rw [empty] at held
    cases held
  | pop =>
    simp only [Client.perform] at answers
    split at answers
    · rename_i held
      cases answers
      have some_left : 0 < b.count_ := by
        have := List.length_pos_iff.mpr (rep.held held)
        omega
      obtain ⟨v, res, b', _, kind, done, _, after, closed⟩ :=
        call_take env .pop holds (by intro v h; cases h) some_left
      cases kind
      refine ⟨b', ask_eq done rfl, ⟨pushed, popped + 1, after, ?_⟩, closed.trans rep.closed, ?_⟩
      · rw [← List.tail_drop, queue]
      · intro impossible
        cases impossible
    · cases answers
  | close =>
    cases answers
    exact ⟨_, ask_eq call_close rfl, ⟨⟨pushed, popped, { holds with }, queue⟩, rfl, rep.held⟩⟩
  | closed =>
    cases answers
    refine ⟨b, ask_eq call_closed ?_, rep⟩
    rw [reply, rep.closed]
  | capacity =>
    cases answers
    exact ⟨b, by rw [request, holds.capacity], rep⟩

theorem serve_holds (holds : b.Holds n pushed popped) {qs : List (Request α)}
    {as : List (Reply α)} {b' : MutexBuffer α} (served : serve (request env) b qs = .ok (as, b')) :
    ∃ pushed' popped', b'.Holds n pushed' popped' := by
  apply serve_invariant (fun b : MutexBuffer α => ∃ pushed popped, b.Holds n pushed popped)
    (fun _ => True) _ ⟨pushed, popped, holds⟩ (fun _ _ => trivial) served
  rintro b q a c ⟨pushed, popped, holds⟩ _ now
  obtain ⟨more, k, after⟩ := request_holds holds now
  exact ⟨_, _, after⟩

theorem serve_keeps (holds : b.Holds n pushed popped) {qs : List (Request α)}
    {as : List (Reply α)} {b' : MutexBuffer α} (kinds : ∀ q ∈ qs, q.takes = false)
    (served : serve (request env) b qs = .ok (as, b')) :
    ∃ more, b'.Holds n (pushed ++ more) popped := by
  apply serve_invariant (fun b : MutexBuffer α => ∃ more, b.Holds n (pushed ++ more) popped)
    (fun q => q.takes = false) _ ⟨[], by rwa [List.append_nil]⟩ kinds served
  rintro b q a c ⟨more, holds⟩ kind now
  obtain ⟨again, after⟩ := request_keeps holds kind now
  exact ⟨more ++ again, by rwa [← List.append_assoc]⟩

theorem tryPop_eq (holds : b.Holds n pushed popped) {a : Reply α} {b' : MutexBuffer α}
    (served : request env b (.call .pop) = .ok (a, b')) :
    request env b .tryPop = .ok (.popped pushed[popped]?, b') := by
  have asked : ask env b .pop = .ok (a, b') := served
  obtain ⟨res, called, _⟩ := ask_ok asked
  have some_left : 0 < b.count_ := by
    by_contra empty
    obtain ⟨f, fails⟩ := call_pop_empty env holds (by omega)
    rw [fails] at called
    cases called
  obtain ⟨_, _, c, _, _, done, destroyed, _⟩ :=
    call_take env .pop holds (by intro v h; cases h) some_left
  obtain ⟨v, _, c', present, kind, done', destroyed', _⟩ :=
    call_take env .tryPop holds (by intro v h; cases h) some_left
  have same : c' = c := Except.ok.inj (destroyed'.symm.trans destroyed)
  rw [done] at called
  cases called
  cases kind
  rw [present, ← same]
  exact ask_eq done' rfl

/-- A `front` and the next `pop` may be replaced by a `try_pop` in the place of the `pop`. -/
theorem serve_tryPop (holds : b.Holds n pushed popped) {pre mid post : List (Request α)}
    {xs ys zs : List (Reply α)} {v : α} {b' : MutexBuffer α}
    (between : ∀ q ∈ mid, q.takes = false) (before : xs.length = pre.length)
    (during : ys.length = mid.length)
    (served : serve (request env) b (pre ++ .call .front :: (mid ++ .call .pop :: post)) =
      .ok (xs ++ .answer (.front (some v)) :: (ys ++ .answer .done :: zs), b')) :
    serve (request env) b (pre ++ (mid ++ .tryPop :: post)) =
      .ok (xs ++ (ys ++ .popped (some v) :: zs), b') := by
  obtain ⟨c, first, rest⟩ := serve_split before served
  obtain ⟨pushed, popped, holds⟩ := serve_holds holds first
  -- `front` answers with the element at the front and changes nothing
  obtain ⟨_, c', _, looked, rest, eq⟩ := (serve_cons _ _ _ _ _).mp rest
  rw [ask_front holds] at looked
  cases looked
  simp only [List.cons.injEq, Reply.answer.injEq, Answer.front.injEq] at eq
  obtain ⟨seen, rfl⟩ := eq
  rw [List.head?_drop] at seen
  obtain ⟨d, second, rest⟩ := serve_split during rest
  obtain ⟨more, holds'⟩ := serve_keeps holds between second
  -- the element is still at the front when it is taken
  have present : (pushed ++ more)[popped]? = some v := by
    have lt := (List.getElem?_eq_some_iff.mp seen.symm).1
    rw [List.getElem?_append_left lt, ← seen]
  obtain ⟨_, e, _, popped_now, last, eq⟩ := (serve_cons _ _ _ _ _).mp rest
  obtain ⟨_, rfl⟩ := List.cons.inj eq
  have taken := tryPop_eq holds' popped_now
  rw [present] at taken
  refine (serve_append _ _ _ _ _).mpr ⟨xs, c, _, first, ?_, rfl⟩
  refine (serve_append _ _ _ _ _).mpr ⟨ys, d, _, second, ?_, rfl⟩
  exact (serve_cons _ _ _ _ _).mpr ⟨_, e, zs, taken, last, rfl⟩

end Calls

end RingBuffers.Mutex
