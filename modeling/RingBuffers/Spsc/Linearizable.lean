import RingBuffers.Library.BoundedQueue
import RingBuffers.Spsc.Moves

/-! Under sequential consistency the machine is a bounded first-in first-out queue.
The abstraction function reads the status of a call off the program counter, and the
action of a step names the instant of the abstract object it stands for. -/
namespace RingBuffers.Spsc
open ReleaseAcquire BoundedQueue

variable {α : Type} {r : Ring}

def Mode.retries : Mode → Bool
  | .emplace => true
  | .tryEmplace => false

/-- A `try_emplace` that loaded a `popCursor_` showing a full buffer will answer false. -/
def refuses (r : Ring) (f : Frame α) (pop : Seen) : Bool :=
  !f.mode.retries && fullAgainst r f pop

def pusherOf (r : Ring) (s : State α) : Pusher α :=
  match s.producer with
  | .idle | .storeClosed => .idle
  | .loadPushCursor mode v => .pushing mode.retries v
  | .readCache f | .loadPopCursor f | .construct f | .storePushCursor f =>
    .pushing f.mode.retries f.value
  | .loaded f pop => if refuses r f pop then .refused else .pushing f.mode.retries f.value
  | .recheck f =>
    if refuses r f s.popCursorCache then .refused else .pushing f.mode.retries f.value

def popperOf (s : State α) : Popper :=
  match s.consumer with
  | .idle | .loadClosed => .idle
  | .frontLoadPop | .frontReadCache _ | .frontLoadPush _ => .looking
  | .frontLoaded pop push => if pop = push.value then .missed else .looking
  | .frontRecheck pop => if pop = s.pushCursorCache.value then .missed else .looking
  | .popLoadPop | .popAssert _ | .popDestroy _ | .popStore _ _ => .popping

def abstraction (r : Ring) (s : State α) : Object α :=
  ⟨s.queue, pusherOf r s, popperOf s⟩

def storeOf (h : List (Message Loc Agent Nat)) (i : Nat) : Seen :=
  ⟨(h[i]?.map Message.value).getD 0, i⟩

def peeks (r : Ring) (s : State α) (pop : Nat) : Action α :=
  match (r.slot pop).bind s.slots with
  | some v => .takes (.peek v)
  | none => .takes .silent

/-- A push takes effect at the store of `pushCursor_`, a pop at the store of
`popCursor_`, a refusal at the reload of `popCursor_`, a miss at the reload of
`pushCursor_`. -/
def action (r : Ring) (s : State α) : Label α → Action α
  | .emplace v => .callPush true v
  | .tryEmplace v => .callPush false v
  | .front => .callFront
  | .pop => .callPop
  | .close | .closed => .takes .silent
  | .throw => .throws
  | .read => match s.held.bind s.slots with
    | some v => .reads v
    | none => .takes .silent
  | .producer i => match s.producer with
    | .loadPopCursor f =>
      if refuses r f (storeOf (s.memory.history .popCursor) i) then .takes .full
      else .takes .silent
    | .loaded f pop =>
      if !r.cached && refuses r f pop then .returnFalse else .takes .silent
    | .recheck f => if refuses r f s.popCursorCache then .returnFalse else .takes .silent
    | .storePushCursor f => .takes (.push f.value)
    | _ => .takes .silent
  | .consumer i => match s.consumer with
    | .frontReadCache pop =>
      if pop = s.pushCursorCache.value then .takes .silent else peeks r s pop
    | .frontLoadPush pop =>
      if pop = (storeOf (s.memory.history .pushCursor) i).value then .takes .empty
      else .takes .silent
    | .frontLoaded pop push =>
      if r.cached then .takes .silent
      else if pop = push.value then .returnNull else peeks r s pop
    | .frontRecheck pop =>
      if pop = s.pushCursorCache.value then .returnNull else peeks r s pop
    | .popStore _ v => .takes (.pop v)
    | _ => .takes .silent

section Simulation

variable {e : Encoding r} {s t : State α}

theorem silent_step {n : Nat} {o o' : Object α} {a : Action α} (act : a = .takes .silent)
    (same : o' = o) : Object.Step n o a o' := by
  rw [act, same]
  exact .silent o

theorem storeOf_eq {h : List (Message Loc Agent Nat)} {i x : Nat} {msg : Message Loc Agent Nat}
    (at_i : h[i]? = some msg) (value : msg.value = x) : storeOf h i = ⟨x, i⟩ := by
  simp [storeOf, at_i, value]

theorem Inv.peeks_eq (inv : Inv e s) (still : s.consumer.tearing = 0)
    (covered : s.consumed.length < s.pushCursorCache.stamp) :
    ∃ v, s.queue.head? = some v ∧ s.slots (e.index s.consumed.length) = some v ∧
      peeks r s (e.cursor s.consumed.length) = .takes (.peek v) := by
  obtain ⟨v, present, live⟩ := inv.oldest_slot still covered
  refine ⟨v, by rw [queue_cons present]; rfl, live, ?_⟩
  simp [peeks, e.slot_cursor, live]

theorem takes_peek {n : Nat} {q : List α} {v : α} (head : q.head? = some v) :
    Takes n q (.peek v) q := by
  obtain ⟨tail, rfl⟩ : ∃ tail, q = v :: tail := by
    cases q with
    | nil => cases head
    | cons x tail => exact ⟨tail, by rw [Option.some.inj head]⟩
  exact .peek v tail

theorem refuses_iff {f : Frame α} {pop : Seen} :
    refuses r f pop = true ↔ f.mode = .tryEmplace ∧ fullAgainst r f pop = true := by
  cases mode : f.mode <;> simp [refuses, mode, Mode.retries]

theorem Inv.refuses_loaded (inv : Inv e s) {f : Frame α} {pop : Seen}
    (at_pc : s.producer = .loaded f pop) :
    refuses r f pop = true ↔ f.mode = .tryEmplace ∧ s.pushed.length = pop.stamp + e.bound := by
  have ok := inv.producer
  rw [at_pc] at ok
  have bound := ok.2.high.trans (inv.views.agents .producer).popBound
  rw [refuses_iff, inv.fullAgainst_iff ok.1 ok.2 bound]

theorem Inv.refuses_recheck (inv : Inv e s) {f : Frame α} (at_pc : s.producer = .recheck f) :
    refuses r f s.popCursorCache = true ↔
      s.pushed.length = s.popCursorCache.stamp + e.bound := by
  have ok := inv.producer
  rw [at_pc] at ok
  rw [refuses_iff, inv.fullAgainst_iff ok.1 inv.popCache_now inv.behind]
  exact and_iff_right ok.2

theorem Inv.action_cacheHit (inv : Inv e s) {i pop : Nat}
    (at_pc : s.consumer = .frontReadCache pop ∨ s.consumer = .frontRecheck pop)
    (lt : s.consumed.length < s.pushCursorCache.stamp) :
    ∃ v, s.queue.head? = some v ∧ s.slots (e.index s.consumed.length) = some v ∧
      action r s (.consumer i) = .takes (.peek v) := by
  have same : pop = e.cursor s.consumed.length := by
    have ok := inv.consumer
    rcases at_pc with at_pc | at_pc <;> rw [at_pc] at ok <;> exact ok
  have test : ¬ pop = s.pushCursorCache.value := by
    rw [inv.misses_cache same]
    omega
  have still : s.consumer.tearing = 0 := by
    rcases at_pc with at_pc | at_pc <;> rw [at_pc] <;> rfl
  obtain ⟨v, head, live, peek⟩ := inv.peeks_eq still lt
  refine ⟨v, head, live, ?_⟩
  rw [← same] at peek
  rcases at_pc with at_pc | at_pc <;> simp [action, at_pc, test, peek]

theorem Inv.action_loadedHit (inv : Inv e s) {i pop : Nat} {push : Seen}
    (at_pc : s.consumer = .frontLoaded pop push) (cached : r.cached = false)
    (lt : s.consumed.length < push.stamp) :
    ∃ v, s.queue.head? = some v ∧ s.slots (e.index s.consumed.length) = some v ∧
      action r s (.consumer i) = .takes (.peek v) := by
  have ok := inv.consumer
  rw [at_pc] at ok
  have test : ¬ pop = push.value := by
    rw [inv.misses_loaded at_pc]
    omega
  have newer := inv.toPushCache push (.frontRecheck pop) (by rw [at_pc]; rfl) ok.2 ok.1
  obtain ⟨v, head, live, peek⟩ := newer.peeks_eq rfl lt
  have same : peeks r s (e.cursor s.consumed.length) = .takes (.peek v) := peek
  refine ⟨v, head, live, ?_⟩
  rw [← ok.1] at same
  simp [action, at_pc, cached, test, same]

theorem Inv.simulates_loadPop (inv : Inv e s) {i x : Nat} {f : Frame α} {m : Atomics α}
    (now : newest s (.producer i) = true) (at_pc : s.producer = .loadPopCursor f)
    (load : s.memory.load .producer .popCursor r.other i = some (x, m)) :
    Object.Step e.bound (abstraction r s) (action r s (.producer i))
      (abstraction r { s with memory := m, producer := .loaded f ⟨x, i⟩ }) := by
  have popOk := inv.producer
  rw [at_pc] at popOk
  have length := Inv.queue_length s
  have current := inv.newest_pop at_pc now
  obtain ⟨_, msg, at_i, msg_value⟩ := load_value load
  have read := storeOf_eq at_i msg_value
  by_cases test : refuses r f ⟨x, i⟩ = true
  · have act : action r s (.producer i) = .takes .full := by
      simp [action, at_pc, read, test]
    obtain ⟨mode, fullTest⟩ := refuses_iff.mp test
    have full := (inv.fullAgainst_iff popOk (inv.load_pop load) (by simp [current])).mp fullTest
    have status : pusherOf r s = .pushing false f.value := by
      simp [pusherOf, at_pc, mode, Mode.retries]
    have refused : abstraction r { s with memory := m, producer := .loaded f ⟨x, i⟩ } =
        { abstraction r s with pusher := .refused } := by
      simp [abstraction, pusherOf, popperOf, State.queue, test]
    rw [act, refused]
    exact .full status (.full (by
      change s.queue.length = e.bound
      simp only [current] at full
      omega))
  · apply silent_step (by simp [action, at_pc, read, test])
    simp [abstraction, pusherOf, popperOf, State.queue, at_pc, test]

theorem Inv.simulates_frontLoadPush (inv : Inv e s) {i pop x : Nat} {m : Atomics α}
    (now : newest s (.consumer i) = true) (at_pc : s.consumer = .frontLoadPush pop)
    (load : s.memory.load .consumer .pushCursor r.other i = some (x, m)) :
    Object.Step e.bound (abstraction r s) (action r s (.consumer i))
      (abstraction r { s with memory := m, consumer := .frontLoaded pop ⟨x, i⟩ }) := by
  have pushOk := inv.consumer
  rw [at_pc] at pushOk
  have same : pop = e.cursor s.consumed.length := pushOk
  have current := inv.newest_push at_pc now
  obtain ⟨_, msg, at_i, msg_value⟩ := load_value load
  have read := storeOf_eq at_i msg_value
  by_cases test : pop = x
  · have act : action r s (.consumer i) = .takes .empty := by
      simp [action, at_pc, read, test]
    have between := (inv.load_push load).widen inv.pushCache.low (Nat.le_refl _)
    have eq := (inv.empty_iff between (by simp [current])).mp (same.symm.trans test)
    have nil : s.queue = [] := queue_nil (by simpa [current] using eq)
    have status : popperOf s = .looking := by simp [popperOf, at_pc]
    have missed : abstraction r { s with memory := m, consumer := .frontLoaded pop ⟨x, i⟩ } =
        { abstraction r s with popper := .missed } := by
      simp [abstraction, pusherOf, popperOf, State.queue, test]
    rw [act, missed]
    exact .empty status (by rw [abstraction, nil]; exact .empty)
  · apply silent_step (by simp [action, at_pc, read, test])
    simp [abstraction, pusherOf, popperOf, State.queue, at_pc, test]

theorem Inv.simulates_publish (inv : Inv e s) {i : Nat} {f : Frame α}
    (at_pc : s.producer = .storePushCursor f) :
    Object.Step e.bound (abstraction r s) (action r s (.producer i)) (abstraction r { s with
      memory := s.memory.store .producer .pushCursor r.store f.next
      producer := .idle
      pushResult := some .constructed
      pushed := s.pushed ++ [f.value] }) := by
  have popOk := inv.producer
  rw [at_pc] at popOk
  have room := popOk.2
  have behind := inv.behind
  have ordered := inv.ordered
  have length := Inv.queue_length s
  have status : pusherOf r s = .pushing f.mode.retries f.value := by simp [pusherOf, at_pc]
  have act : action r s (.producer i) = .takes (.push f.value) := by simp [action, at_pc]
  have queue : (s.pushed ++ [f.value]).drop s.consumed.length = s.queue ++ [f.value] :=
    List.drop_append_of_le_length ordered
  rw [act]
  refine .push status ?_
  change Takes e.bound s.queue (.push f.value) ((s.pushed ++ [f.value]).drop s.consumed.length)
  rw [queue]
  exact .push f.value (by omega)

theorem Move.simulated {l : Label α} (move : Move e s l t) (inv : Inv e s)
    (now : newest s l = true) :
    Object.Step e.bound (abstraction r s) (action r s l) (abstraction r t) := by
  have popOk := inv.producer
  have pushOk := inv.consumer
  have behind := inv.behind
  have ahead := inv.ahead
  have covered := inv.pushCache.low
  have length := Inv.queue_length s
  cases move with
  | emplace v idle | tryEmplace v idle =>
    have at_rest : pusherOf r s = .idle := by simp [pusherOf, idle]
    exact .callPush _ v at_rest
  | close idle =>
    exact silent_step rfl (by simp [abstraction, pusherOf, popperOf, State.queue, idle])
  | front idle =>
    have at_rest : popperOf s = .idle := by simp [popperOf, idle]
    exact .callFront at_rest
  | pop idle lt =>
    have at_rest : popperOf s = .idle := by simp [popperOf, idle]
    exact .callPop at_rest
  | closed idle =>
    exact silent_step rfl (by simp [abstraction, pusherOf, popperOf, State.queue, idle])
  | read i v idle held live =>
    have at_rest : popperOf s = .idle := by simp [popperOf, idle]
    obtain ⟨w, present, same⟩ := inv.held_slot idle held
    have eq : w = v := Option.some.inj (same.symm.trans live)
    have act : action r s .read = .reads v := by simp [action, held, live]
    rw [act]
    exact .reads at_rest (takes_peek (by rw [abstraction, queue_cons present, eq]; rfl))
  | loadPush i mode v f m at_pc load frame =>
    apply silent_step (by simp [action, at_pc])
    subst frame
    cases cached : r.cached <;> simp [abstraction, pusherOf, popperOf, State.queue, at_pc]
  | cacheFull i f at_pc full | cacheRoom i f at_pc room =>
    exact silent_step (by simp [action, at_pc])
      (by simp [abstraction, pusherOf, popperOf, State.queue, at_pc])
  | loadPop i x f m at_pc load value => exact inv.simulates_loadPop now at_pc load
  | loadedCache i f pop at_pc cached =>
    apply silent_step (by simp [action, at_pc, cached])
    cases mode : f.mode with
    | emplace =>
      simp [abstraction, pusherOf, popperOf, State.queue, at_pc, refuses, mode, Mode.retries]
    | tryEmplace =>
      simp [abstraction, pusherOf, popperOf, State.queue, at_pc, refuses, mode, Mode.retries]
  | loadedSpin i f pop at_pc cached mode full =>
    apply silent_step (by simp [action, at_pc, refuses, mode, Mode.retries])
    simp [abstraction, pusherOf, popperOf, State.queue, at_pc, refuses, mode, Mode.retries]
  | loadedFull i f pop at_pc cached mode full =>
    have test := (inv.refuses_loaded at_pc).mpr ⟨mode, full⟩
    have act : action r s (.producer i) = .returnFalse := by simp [action, at_pc, cached, test]
    have status : pusherOf r s = .refused := by simp [pusherOf, at_pc, test]
    rw [act]
    exact .returnFalse status
  | loadedRoom i f pop at_pc cached room =>
    have test : ¬ refuses r f pop = true := by
      rw [inv.refuses_loaded at_pc]
      omega
    exact silent_step (by simp [action, at_pc, test])
      (by simp [abstraction, pusherOf, popperOf, State.queue, at_pc, test])
  | recheckFull i f at_pc mode full =>
    have test := (inv.refuses_recheck at_pc).mpr full
    have act : action r s (.producer i) = .returnFalse := by simp [action, at_pc, test]
    have status : pusherOf r s = .refused := by simp [pusherOf, at_pc, test]
    rw [act]
    exact .returnFalse status
  | recheckRoom i f at_pc room =>
    have test : ¬ refuses r f s.popCursorCache = true := by
      rw [inv.refuses_recheck at_pc]
      omega
    exact silent_step (by simp [action, at_pc, test])
      (by simp [abstraction, pusherOf, popperOf, State.queue, at_pc, test])
  | construct i f at_pc =>
    exact silent_step (by simp [action, at_pc])
      (by simp [abstraction, pusherOf, popperOf, State.queue, at_pc])
  | publish i f at_pc => exact inv.simulates_publish at_pc
  | storeClosed i at_pc =>
    exact silent_step (by simp [action, at_pc])
      (by simp [abstraction, pusherOf, popperOf, State.queue, at_pc])
  | threw f at_pc =>
    have status : pusherOf r s = .pushing f.mode.retries f.value := by simp [pusherOf, at_pc]
    exact .throws status
  | frontLoadPop i m at_pc load =>
    apply silent_step (by simp [action, at_pc])
    cases cached : r.cached <;> simp [abstraction, pusherOf, popperOf, State.queue, at_pc]
  | frontCacheEmpty i pop at_pc eq =>
    rw [at_pc] at pushOk
    have test := (inv.misses_cache pushOk).mpr eq
    exact silent_step (by simp [action, at_pc, test])
      (by simp [abstraction, pusherOf, popperOf, State.queue, at_pc])
  | frontCacheHit i pop at_pc lt =>
    obtain ⟨v, head, _, act⟩ := inv.action_cacheHit (i := i) (.inl at_pc) lt
    have status : popperOf s = .looking := by simp [popperOf, at_pc]
    rw [act]
    exact .peek status (takes_peek head)
  | frontLoadPush i pop x m at_pc load value => exact inv.simulates_frontLoadPush now at_pc load
  | frontLoadedCache i pop push at_pc cached =>
    exact silent_step (by simp [action, at_pc, cached])
      (by simp [abstraction, pusherOf, popperOf, State.queue, at_pc])
  | frontLoadedNull i pop push at_pc cached eq =>
    have test := (inv.misses_loaded at_pc).mpr eq
    have act : action r s (.consumer i) = .returnNull := by simp [action, at_pc, cached, test]
    have status : popperOf s = .missed := by simp [popperOf, at_pc, test]
    rw [act]
    exact .returnNull status
  | frontLoadedHit i pop push at_pc cached lt =>
    obtain ⟨v, head, _, act⟩ := inv.action_loadedHit (i := i) at_pc cached lt
    have test : ¬ pop = push.value := by
      rw [inv.misses_loaded at_pc]
      omega
    have status : popperOf s = .looking := by simp [popperOf, at_pc, test]
    rw [act]
    exact .peek status (takes_peek head)
  | frontNull i pop at_pc eq =>
    rw [at_pc] at pushOk
    have test := (inv.misses_cache pushOk).mpr eq
    have act : action r s (.consumer i) = .returnNull := by simp [action, at_pc, test]
    have status : popperOf s = .missed := by simp [popperOf, at_pc, test]
    rw [act]
    exact .returnNull status
  | frontHit i pop at_pc lt =>
    rw [at_pc] at pushOk
    obtain ⟨v, head, _, act⟩ := inv.action_cacheHit (i := i) (.inr at_pc) lt
    have test : ¬ pop = s.pushCursorCache.value := by
      rw [inv.misses_cache pushOk]
      omega
    have status : popperOf s = .looking := by simp [popperOf, at_pc, test]
    rw [act]
    exact .peek status (takes_peek head)
  | popLoadPop i m at_pc load =>
    apply silent_step (by simp [action, at_pc])
    cases debug : r.ndebug <;> simp [abstraction, pusherOf, popperOf, State.queue, at_pc]
  | popAssert i pop x m at_pc load value lt =>
    exact silent_step (by simp [action, at_pc])
      (by simp [abstraction, pusherOf, popperOf, State.queue, at_pc])
  | destroy i pop v at_pc present =>
    exact silent_step (by simp [action, at_pc])
      (by simp [abstraction, pusherOf, popperOf, State.queue, at_pc])
  | giveBack i pop v at_pc present =>
    have act : action r s (.consumer i) = .takes (.pop v) := by simp [action, at_pc]
    have status : popperOf s = .popping := by simp [popperOf, at_pc]
    rw [act]
    refine .pop status ?_
    change Takes e.bound s.queue (.pop v) (s.pushed.drop (s.consumed ++ [v]).length)
    rw [queue_cons present, List.length_append, List.length_singleton]
    exact .pop v _
  | loadClosed i b m at_pc load =>
    exact silent_step (by simp [action, at_pc])
      (by simp [abstraction, pusherOf, popperOf, State.queue, at_pc])

/-- Which action of the abstract queue each answer of a call goes with. -/
structure Answers (r : Ring) (s : State α) (l : Label α) (t : State α) : Prop where
  constructed : t.pushResult = some .constructed → s.pushResult ≠ some .constructed →
    ∃ v, action r s l = .takes (.push v)
  full : t.pushResult = some .full → s.pushResult ≠ some .full → action r s l = .returnFalse
  null : t.consumerResult = some (.front none) → s.consumerResult ≠ some (.front none) →
    action r s l = .returnNull
  pointer : ∀ i, t.consumerResult = some (.front (some i)) →
    s.consumerResult ≠ some (.front (some i)) →
    ∃ v, action r s l = .takes (.peek v) ∧ t.slots i = some v

theorem Answers.kept {l : Label α} (push : t.pushResult = none ∨ t.pushResult = s.pushResult)
    (pop : t.consumerResult = none ∨ t.consumerResult = s.consumerResult) :
    Answers r s l t := by
  constructor
  · intro h ne
    rcases push with eq | eq <;> rw [eq] at h
    · cases h
    · exact absurd h ne
  · intro h ne
    rcases push with eq | eq <;> rw [eq] at h
    · cases h
    · exact absurd h ne
  · intro h ne
    rcases pop with eq | eq <;> rw [eq] at h
    · cases h
    · exact absurd h ne
  · intro i h ne
    rcases pop with eq | eq <;> rw [eq] at h
    · cases h
    · exact absurd h ne

theorem Answers.of_push {l : Label α} (pop : t.consumerResult = s.consumerResult)
    (constructed : t.pushResult = some .constructed → ∃ v, action r s l = .takes (.push v))
    (full : t.pushResult = some .full → action r s l = .returnFalse) : Answers r s l t :=
  ⟨fun h _ => constructed h, fun h _ => full h, fun h ne => absurd (pop ▸ h) ne,
    fun _ h ne => absurd (pop ▸ h) ne⟩

theorem Answers.of_pop {l : Label α} (push : t.pushResult = s.pushResult)
    (null : t.consumerResult = some (.front none) → action r s l = .returnNull)
    (pointer : ∀ i, t.consumerResult = some (.front (some i)) →
      ∃ v, action r s l = .takes (.peek v) ∧ t.slots i = some v) : Answers r s l t :=
  ⟨fun h ne => absurd (push ▸ h) ne, fun h ne => absurd (push ▸ h) ne, fun h _ => null h,
    fun i h _ => pointer i h⟩

theorem Move.answers {l : Label α} (move : Move e s l t) (inv : Inv e s) : Answers r s l t := by
  cases move with
  | emplace | tryEmplace | close => exact .kept (.inl rfl) (.inr rfl)
  | front | pop | closed => exact .kept (.inr rfl) (.inl rfl)
  | read | loadPush | cacheFull | cacheRoom | loadPop | loadedCache | loadedSpin | loadedRoom
  | recheckRoom | construct | storeClosed | frontLoadPop | frontCacheEmpty | frontLoadPush
  | frontLoadedCache | popLoadPop | popAssert | destroy =>
    exact .kept (.inr rfl) (.inr rfl)
  | loadedFull i f pop at_pc cached mode full =>
    have test := (inv.refuses_loaded at_pc).mpr ⟨mode, full⟩
    exact .of_push rfl (by intro h; cases h) (fun _ => by simp [action, at_pc, cached, test])
  | recheckFull i f at_pc mode full =>
    have test := (inv.refuses_recheck at_pc).mpr full
    exact .of_push rfl (by intro h; cases h) (fun _ => by simp [action, at_pc, test])
  | publish i f at_pc =>
    exact .of_push rfl (fun _ => ⟨f.value, by simp [action, at_pc]⟩) (by intro h; cases h)
  | threw f at_pc => exact .of_push rfl (by intro h; cases h) (by intro h; cases h)
  | frontCacheHit i pop at_pc lt =>
    obtain ⟨v, _, live, act⟩ := inv.action_cacheHit (i := i) (.inl at_pc) lt
    refine .of_pop rfl (by intro h; cases h) ?_
    intro j h
    cases h
    exact ⟨v, act, live⟩
  | frontLoadedNull i pop push at_pc cached eq =>
    have test := (inv.misses_loaded at_pc).mpr eq
    exact .of_pop rfl (fun _ => by simp [action, at_pc, cached, test]) (by intro j h; cases h)
  | frontLoadedHit i pop push at_pc cached lt =>
    obtain ⟨v, _, live, act⟩ := inv.action_loadedHit (i := i) at_pc cached lt
    refine .of_pop rfl (by intro h; cases h) ?_
    intro j h
    cases h
    exact ⟨v, act, live⟩
  | frontNull i pop at_pc eq =>
    have ok := inv.consumer
    rw [at_pc] at ok
    have test := (inv.misses_cache ok).mpr eq
    exact .of_pop rfl (fun _ => by simp [action, at_pc, test]) (by intro j h; cases h)
  | frontHit i pop at_pc lt =>
    obtain ⟨v, _, live, act⟩ := inv.action_cacheHit (i := i) (.inr at_pc) lt
    refine .of_pop rfl (by intro h; cases h) ?_
    intro j h
    cases h
    exact ⟨v, act, live⟩
  | giveBack | loadClosed =>
    exact .of_pop rfl (by intro h; cases h) (by intro j h; cases h)

theorem peeks_pushed (r : Ring) (s : State α) (pop : Nat) : (peeks r s pop).pushed = [] := by
  unfold peeks
  split <;> rfl

theorem peeks_popped (r : Ring) (s : State α) (pop : Nat) : (peeks r s pop).popped = [] := by
  unfold peeks
  split <;> rfl

theorem action_pushed (r : Ring) (s : State α) (l : Label α) :
    (action r s l).pushed = match l, s.producer with
      | .producer _, .storePushCursor f => [f.value]
      | _, _ => [] := by
  cases l with
  | producer i =>
    cases pc : s.producer <;> simp only [action, pc, apply_ite Action.pushed] <;>
      simp [Action.pushed, Event.pushed]
  | consumer i =>
    cases pc : s.consumer <;>
      (simp only [action, pc, apply_ite Action.pushed, peeks_pushed]
       simp [Action.pushed, Event.pushed])
  | read =>
    simp only [action]
    split <;> rfl
  | _ => rfl

theorem action_popped (r : Ring) (s : State α) (l : Label α) :
    (action r s l).popped = match l, s.consumer with
      | .consumer _, .popStore _ v => [v]
      | _, _ => [] := by
  cases l with
  | producer i =>
    cases pc : s.producer <;> simp only [action, pc, apply_ite Action.popped] <;>
      simp [Action.popped, Event.popped]
  | consumer i =>
    cases pc : s.consumer <;>
      (simp only [action, pc, apply_ite Action.popped, peeks_popped]
       simp [Action.popped, Event.popped])
  | read =>
    simp only [action]
    split <;> rfl
  | _ => rfl

theorem Move.pushes {l : Label α} (move : Move e s l t) :
    t.pushed = s.pushed ++ (action r s l).pushed := by
  rw [action_pushed]
  cases move <;> simp [*]

theorem Move.pops {l : Label α} (move : Move e s l t) :
    t.consumed = s.consumed ++ (action r s l).popped := by
  rw [action_popped]
  cases move <;> simp [*]

end Simulation

open Transition

/-- What holds of a run `ls` from the constructed buffer to `s`: its actions are a path of
the abstract queue bounded by `n`, each answer is that queue's answer, the pushes and pops
of the path are the completed cursor stores, and a pointer the client holds designates the
oldest element. -/
structure Linearizes (r : Ring) (n : Nat) (ls : List (Label α)) (s : State α) : Prop where
  path : Path (Object.Step n) (Object.start α) (trace (step r) (action r) (start α) ls)
    (abstraction r s)
  answers : Along (step r) (fun u l => ∀ t, step r u l = some t → Answers r u l t) (start α) ls
  pushes : s.pushed = (trace (step r) (action r) (start α) ls).flatMap Action.pushed
  pops : s.consumed = (trace (step r) (action r) (start α) ls).flatMap Action.popped
  fifo : s.consumed ++ s.queue = s.pushed
  bounded : s.queue.length ≤ n
  front : ∀ i, s.consumer = .idle → s.held = some i →
    ∃ v, s.queue.head? = some v ∧ s.slots i = some v
  sound : s.fault = none

theorem linearizes {r : Ring} (e : Encoding r) (sync : Synchronizes r) (ls : List (Label α))
    (s : State α)
    (run : Run (step r) (fun s l => newest s l = true ∧ frontFirst s l = true) (start α) ls s) :
    Linearizes r e.bound ls s := by
  have preserved : ∀ (s : State α) l t, Inv e s → newest s l = true ∧ frontFirst s l = true →
      step r s l = some t → Inv e t :=
    fun _ _ _ inv admitted h => step_inv sync inv admitted.2 h
  have inv := run.invariant (Inv e) preserved (inv_start e)
  have length := Inv.queue_length s
  have bounded := inv.bounded
  exact {
    path := run.simulates (Object.Step e.bound) (abstraction r) (action r) (Inv e) preserved
      (fun _ _ _ inv admitted h =>
        (step_move inv sync admitted.2 h).simulated inv admitted.1) (inv_start e)
    answers := run.along (Inv e) _ preserved
      (fun _ _ _ inv admitted _ _ h => (step_move inv sync admitted.2 h).answers inv)
      (inv_start e)
    pushes := run.records (action r) State.pushed Action.pushed (Inv e) preserved
      (fun _ _ _ inv admitted h => (step_move inv sync admitted.2 h).pushes) (inv_start e)
    pops := run.records (action r) State.consumed Action.popped (Inv e) preserved
      (fun _ _ _ inv admitted h => (step_move inv sync admitted.2 h).pops) (inv_start e)
    fifo := inv.consumed_append_queue
    bounded := by omega
    front := by
      intro i idle held
      obtain ⟨v, present, live⟩ := inv.held_slot idle held
      exact ⟨v, by rw [queue_cons present]; rfl, live⟩
    sound := inv.sound }

/-- `SPSCBuffer(n)` is linearizable: every interleaving of one producer with one consumer
that calls `pop` only after a non-null `front` is a run of the bounded queue. -/
theorem spsc_linearizable (env : Environment) (n : Nat) (r : Ring)
    (made : spscBuffer.construct env n = .ok r) (fits : n + 1 + 2 * env.padding < sizeModulus)
    (ls : List (Label α)) (s : State α)
    (run : Run (step r) (fun s l => newest s l = true ∧ frontFirst s l = true) (start α) ls s) :
    Linearizes r n ls s := by
  have sync := spscBuffer_synchronizes made
  exact linearizes (spscBuffer_slack.encoding made (by omega)) sync ls s run

/-- One element goes through a buffer of capacity one, and a second push is refused. -/
def fullThenEmptied : List (Label Nat) :=
  [.tryEmplace 7, .producer 0, .producer 0, .producer 0, .producer 0,
    .tryEmplace 8, .producer 1, .producer 0, .producer 0, .producer 0, .producer 0,
    .front, .consumer 0, .consumer 0, .consumer 1, .consumer 0, .consumer 0, .read,
    .pop, .consumer 0, .consumer 1, .consumer 0, .consumer 0]

theorem spsc_linearizable_at_one : ∃ s : State Nat,
    Linearizes (spscBuffer.ring .desktop 1) 1 fullThenEmptied s ∧ s.consumed = [7] :=
  ⟨_, spsc_linearizable .desktop 1 _ rfl (by decide) fullThenEmptied _
    (Run.of_exec (by decide) (by decide)), by decide⟩

end RingBuffers.Spsc
