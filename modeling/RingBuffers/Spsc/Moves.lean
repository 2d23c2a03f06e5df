import RingBuffers.Spsc.Preservation

/-! What a step of the machine can do, said once in ordinals: under the invariant
and the consumer's contract no step faults, and each is one of the moves below.
Later results split on moves and never unfold the step function. -/
namespace RingBuffers.Spsc
open ReleaseAcquire

variable {α : Type} {r : Ring}

/-- The full and empty tests appear as comparisons of ordinals. -/
inductive Move (e : Encoding r) (s : State α) : Label α → State α → Prop where
  | emplace (v : α) : s.producer = .idle →
      Move e s (.emplace v)
        { s with producer := .loadPushCursor .emplace v, pushResult := none }
  | tryEmplace (v : α) : s.producer = .idle →
      Move e s (.tryEmplace v)
        { s with producer := .loadPushCursor .tryEmplace v, pushResult := none }
  | close : s.producer = .idle →
      Move e s .close { s with producer := .storeClosed, pushResult := none }
  | front : s.consumer = .idle →
      Move e s .front { s with consumer := .frontLoadPop, consumerResult := none }
  | pop : s.consumer = .idle → s.consumed.length < s.pushCursorCache.stamp →
      Move e s .pop { s with consumer := .popLoadPop, consumerResult := none, held := none }
  | closed : s.consumer = .idle →
      Move e s .closed { s with consumer := .loadClosed, consumerResult := none }
  | read (i : Nat) (v : α) : s.consumer = .idle → s.held = some i → s.slots i = some v →
      Move e s .read s
  | loadPush (i : Nat) (mode : Mode) (v : α) (f : Frame α) (m : Atomics α) :
      s.producer = .loadPushCursor mode v →
      s.memory.load .producer .pushCursor r.own i = some (e.cursor s.pushed.length, m) →
      f = ⟨mode, v, e.cursor s.pushed.length, e.cursor (s.pushed.length + 1)⟩ →
      Move e s (.producer i)
        { s with
          memory := m
          producer := if r.cached then .readCache f else .loadPopCursor f }
  | cacheFull (i : Nat) (f : Frame α) : s.producer = .readCache f →
      s.pushed.length = s.popCursorCache.stamp + e.bound →
      Move e s (.producer i) { s with producer := .loadPopCursor f }
  | cacheRoom (i : Nat) (f : Frame α) : s.producer = .readCache f →
      s.pushed.length < s.popCursorCache.stamp + e.bound →
      Move e s (.producer i) { s with producer := .construct f }
  | loadPop (i x : Nat) (f : Frame α) (m : Atomics α) : s.producer = .loadPopCursor f →
      s.memory.load .producer .popCursor r.other i = some (x, m) → x = e.cursor i →
      Move e s (.producer i) { s with memory := m, producer := .loaded f ⟨x, i⟩ }
  | loadedCache (i : Nat) (f : Frame α) (pop : Seen) : s.producer = .loaded f pop →
      r.cached = true →
      Move e s (.producer i)
        { s with
          popCursorCache := pop
          producer := match f.mode with
            | .emplace => .readCache f
            | .tryEmplace => .recheck f }
  | loadedSpin (i : Nat) (f : Frame α) (pop : Seen) : s.producer = .loaded f pop →
      r.cached = false → f.mode = .emplace → s.pushed.length = pop.stamp + e.bound →
      Move e s (.producer i) { s with popCursorCache := pop, producer := .loadPopCursor f }
  | loadedFull (i : Nat) (f : Frame α) (pop : Seen) : s.producer = .loaded f pop →
      r.cached = false → f.mode = .tryEmplace → s.pushed.length = pop.stamp + e.bound →
      Move e s (.producer i)
        { s with popCursorCache := pop, producer := .idle, pushResult := some .full }
  | loadedRoom (i : Nat) (f : Frame α) (pop : Seen) : s.producer = .loaded f pop →
      r.cached = false → s.pushed.length < pop.stamp + e.bound →
      Move e s (.producer i) { s with popCursorCache := pop, producer := .construct f }
  | recheckFull (i : Nat) (f : Frame α) : s.producer = .recheck f → f.mode = .tryEmplace →
      s.pushed.length = s.popCursorCache.stamp + e.bound →
      Move e s (.producer i) { s with producer := .idle, pushResult := some .full }
  | recheckRoom (i : Nat) (f : Frame α) : s.producer = .recheck f →
      s.pushed.length < s.popCursorCache.stamp + e.bound →
      Move e s (.producer i) { s with producer := .construct f }
  | construct (i : Nat) (f : Frame α) : s.producer = .construct f →
      Move e s (.producer i)
        { s with
          slots := Function.update s.slots (e.index s.pushed.length) (some f.value)
          memory := s.memory.perform .producer (.construct (e.index s.pushed.length) f.value)
          producer := .storePushCursor f }
  | publish (i : Nat) (f : Frame α) : s.producer = .storePushCursor f →
      Move e s (.producer i)
        { s with
          memory := s.memory.store .producer .pushCursor r.store f.next
          producer := .idle
          pushResult := some .constructed
          pushed := s.pushed ++ [f.value] }
  | storeClosed (i : Nat) : s.producer = .storeClosed →
      Move e s (.producer i)
        { s with memory := s.memory.store .producer .closed r.store true, producer := .idle }
  | threw (f : Frame α) : s.producer = .construct f →
      Move e s .throw { s with producer := .idle, pushResult := some .threw }
  | frontLoadPop (i : Nat) (m : Atomics α) : s.consumer = .frontLoadPop →
      s.memory.load .consumer .popCursor r.own i = some (e.cursor s.consumed.length, m) →
      Move e s (.consumer i)
        { s with
          memory := m
          consumer := if r.cached then .frontReadCache (e.cursor s.consumed.length)
            else .frontLoadPush (e.cursor s.consumed.length) }
  | frontCacheEmpty (i pop : Nat) : s.consumer = .frontReadCache pop →
      s.consumed.length = s.pushCursorCache.stamp →
      Move e s (.consumer i) { s with consumer := .frontLoadPush pop }
  | frontCacheHit (i pop : Nat) : s.consumer = .frontReadCache pop →
      s.consumed.length < s.pushCursorCache.stamp →
      Move e s (.consumer i)
        { s with
          consumer := .idle
          held := some (e.index s.consumed.length)
          consumerResult := some (.front (some (e.index s.consumed.length))) }
  | frontLoadPush (i pop x : Nat) (m : Atomics α) : s.consumer = .frontLoadPush pop →
      s.memory.load .consumer .pushCursor r.other i = some (x, m) → x = e.cursor i →
      Move e s (.consumer i) { s with memory := m, consumer := .frontLoaded pop ⟨x, i⟩ }
  | frontLoadedCache (i pop : Nat) (push : Seen) : s.consumer = .frontLoaded pop push →
      r.cached = true →
      Move e s (.consumer i)
        { s with pushCursorCache := push, consumer := .frontRecheck pop }
  | frontLoadedNull (i pop : Nat) (push : Seen) : s.consumer = .frontLoaded pop push →
      r.cached = false → s.consumed.length = push.stamp →
      Move e s (.consumer i)
        { s with
          pushCursorCache := push
          consumer := .idle
          consumerResult := some (.front none) }
  | frontLoadedHit (i pop : Nat) (push : Seen) : s.consumer = .frontLoaded pop push →
      r.cached = false → s.consumed.length < push.stamp →
      Move e s (.consumer i)
        { s with
          pushCursorCache := push
          consumer := .idle
          held := some (e.index s.consumed.length)
          consumerResult := some (.front (some (e.index s.consumed.length))) }
  | frontNull (i pop : Nat) : s.consumer = .frontRecheck pop →
      s.consumed.length = s.pushCursorCache.stamp →
      Move e s (.consumer i)
        { s with consumer := .idle, consumerResult := some (.front none) }
  | frontHit (i pop : Nat) : s.consumer = .frontRecheck pop →
      s.consumed.length < s.pushCursorCache.stamp →
      Move e s (.consumer i)
        { s with
          consumer := .idle
          held := some (e.index s.consumed.length)
          consumerResult := some (.front (some (e.index s.consumed.length))) }
  | popLoadPop (i : Nat) (m : Atomics α) : s.consumer = .popLoadPop →
      s.memory.load .consumer .popCursor r.own i = some (e.cursor s.consumed.length, m) →
      Move e s (.consumer i)
        { s with
          memory := m
          consumer := if r.ndebug then .popDestroy (e.cursor s.consumed.length)
            else .popAssert (e.cursor s.consumed.length) }
  | popAssert (i pop x : Nat) (m : Atomics α) : s.consumer = .popAssert pop →
      s.memory.load .consumer .pushCursor r.other i = some (x, m) → x = e.cursor i →
      s.consumed.length < i →
      Move e s (.consumer i) { s with memory := m, consumer := .popDestroy pop }
  | destroy (i pop : Nat) (v : α) : s.consumer = .popDestroy pop →
      s.pushed[s.consumed.length]? = some v →
      Move e s (.consumer i)
        { s with
          slots := Function.update s.slots (e.index s.consumed.length) none
          memory := s.memory.perform .consumer (.destroy (e.index s.consumed.length))
          consumer := .popStore pop v }
  | giveBack (i pop : Nat) (v : α) : s.consumer = .popStore pop v →
      s.pushed[s.consumed.length]? = some v →
      Move e s (.consumer i)
        { s with
          memory := s.memory.store .consumer .popCursor r.store
            (e.cursor (s.consumed.length + 1))
          consumer := .idle
          consumerResult := some .popped
          consumed := s.consumed ++ [v] }
  | loadClosed (i : Nat) (b : Bool) (m : Atomics α) : s.consumer = .loadClosed →
      s.memory.load .consumer .closed r.other i = some (b, m) →
      Move e s (.consumer i)
        { s with memory := m, consumer := .idle, consumerResult := some (.closed b) }

variable {e : Encoding r} {s t : State α}

theorem Inv.popCache_now (inv : Inv e s) :
    s.popCursorCache.Between e s.popCursorCache.stamp
      ((s.memory.view .producer).stamp .popCursor) :=
  ⟨inv.popCache.value, Nat.le_refl _, inv.popCache.high⟩

theorem Inv.fullAgainst_iff (inv : Inv e s) {f : Frame α} {pop : Seen} {high : Nat}
    (at_f : f.At e s.pushed.length) (between : pop.Between e s.popCursorCache.stamp high)
    (bound : pop.stamp ≤ s.consumed.length) :
    fullAgainst r f pop = true ↔ s.pushed.length = pop.stamp + e.bound := by
  have ordered := inv.ordered
  have room := inv.room
  have low := between.low
  rw [fullAgainst, at_f.cursor, at_f.next, between.value]
  exact e.full_iff _ _ (by omega) (by omega)

theorem Inv.empty_iff (inv : Inv e s) {push : Seen} {high : Nat}
    (between : push.Between e s.consumed.length high) (bound : push.stamp ≤ s.pushed.length) :
    e.cursor s.consumed.length = push.value ↔ s.consumed.length = push.stamp := by
  have bounded := inv.bounded
  rw [between.value]
  exact e.empty_iff _ _ between.low (by omega)

theorem Inv.misses_loaded (inv : Inv e s) {pop : Nat} {push : Seen}
    (at_pc : s.consumer = .frontLoaded pop push) :
    pop = push.value ↔ s.consumed.length = push.stamp := by
  have ok := inv.consumer
  rw [at_pc] at ok
  have bound := ok.2.high.trans (inv.views.agents .consumer).pushBound
  rw [ok.1, inv.empty_iff (ok.2.widen inv.pushCache.low (Nat.le_refl _)) bound]

theorem Inv.misses_cache (inv : Inv e s) {pop : Nat} (same : pop = e.cursor s.consumed.length) :
    pop = s.pushCursorCache.value ↔ s.consumed.length = s.pushCursorCache.stamp := by
  rw [same, inv.empty_iff inv.pushCache inv.ahead]

theorem Inv.newest_pop (inv : Inv e s) {i : Nat} {f : Frame α}
    (at_pc : s.producer = .loadPopCursor f)
    (now : newest s (.producer i) = true) : i = s.consumed.length := by
  have len := inv.popHistory.length
  simp only [newest, loads, at_pc, beq_iff_eq] at now
  omega

theorem Inv.newest_push (inv : Inv e s) {i pop : Nat} (at_pc : s.consumer = .frontLoadPush pop)
    (now : newest s (.consumer i) = true) : i = s.pushed.length := by
  have len := inv.pushHistory.length
  simp only [newest, loads, at_pc, beq_iff_eq] at now
  omega

theorem Inv.newest_pushCursor (inv : Inv e s) :
    s.memory.newest .pushCursor = some (e.cursor s.pushed.length) := by
  have length := inv.pushHistory.length
  have last := List.getElem?_eq_getElem (l := s.memory.history .pushCursor)
    (i := s.pushed.length) (by omega)
  rw [newest_eq length last, inv.pushHistory.value _ _ last]

theorem Inv.newest_popCursor (inv : Inv e s) :
    s.memory.newest .popCursor = some (e.cursor s.consumed.length) := by
  have length := inv.popHistory.length
  have last := List.getElem?_eq_getElem (l := s.memory.history .popCursor)
    (i := s.consumed.length) (by omega)
  rw [newest_eq length last, inv.popHistory.value _ _ last]

theorem queue_nil (eq : s.consumed.length = s.pushed.length) :
    s.queue = [] := by
  rw [State.queue, eq, List.drop_length]

theorem queue_cons {v : α} (present : s.pushed[s.consumed.length]? = some v) :
    s.queue = v :: s.pushed.drop (s.consumed.length + 1) := by
  obtain ⟨lt, eq⟩ := List.getElem?_eq_some_iff.mp present
  rw [State.queue, List.drop_eq_getElem_cons lt, eq]

theorem producer_move (inv : Inv e s) {i : Nat} (h : producerStep r s i = some t) :
    Move e s (.producer i) t := by
  have ok := inv.producer
  have behind := inv.behind
  have popBound := (inv.views.agents .producer).popBound
  unfold producerStep at h
  cases at_pc : s.producer with
  | idle => simp [at_pc] at h
  | loadPushCursor mode v =>
    simp only [at_pc, Option.map_eq_some_iff, Prod.exists] at h
    obtain ⟨push, m, load, rfl⟩ := h
    obtain ⟨rfl, _⟩ := inv.load_own_push load
    simp only [enterPush, e.next_cursor]
    exact .loadPush i mode v _ m at_pc load rfl
  | readCache f =>
    simp only [at_pc, Option.some.injEq] at h
    rw [at_pc] at ok
    have full := inv.fullAgainst_iff ok inv.popCache_now behind
    have room := inv.room
    by_cases test : fullAgainst r f s.popCursorCache = true
    · rw [if_pos test] at h
      exact h ▸ .cacheFull i f at_pc (full.mp test)
    · rw [if_neg test] at h
      have ne := mt full.mpr test
      exact h ▸ .cacheRoom i f at_pc (by omega)
  | loadPopCursor f =>
    simp only [at_pc, Option.map_eq_some_iff, Prod.exists] at h
    obtain ⟨x, m, load, rfl⟩ := h
    exact .loadPop i x f m at_pc load (inv.load_pop load).value
  | loaded f pop =>
    simp only [at_pc, Option.some.injEq] at h
    rw [at_pc] at ok
    obtain ⟨at_f, between⟩ := ok
    have full := inv.fullAgainst_iff at_f between (between.high.trans popBound)
    have room := inv.room
    have low := between.low
    subst h
    unfold afterLoad
    cases cached : r.cached with
    | true =>
      cases mode : f.mode with
      | emplace => simpa [mode] using Move.loadedCache i f pop at_pc cached
      | tryEmplace => simpa [mode] using Move.loadedCache i f pop at_pc cached
    | false =>
      by_cases test : fullAgainst r f pop = true
      · cases mode : f.mode with
        | emplace => simpa [test] using Move.loadedSpin i f pop at_pc cached mode (full.mp test)
        | tryEmplace =>
          simpa [test, returnFull] using Move.loadedFull i f pop at_pc cached mode (full.mp test)
      · have ne := mt full.mpr test
        simpa [test] using Move.loadedRoom i f pop at_pc cached (by omega)
  | recheck f =>
    simp only [at_pc] at h
    rw [at_pc] at ok
    have full := inv.fullAgainst_iff ok.1 inv.popCache_now behind
    have room := inv.room
    by_cases test : fullAgainst r f s.popCursorCache = true
    · rw [if_pos test] at h
      exact (Option.some.inj h) ▸ .recheckFull i f at_pc ok.2 (full.mp test)
    · rw [if_neg test] at h
      have ne := mt full.mpr test
      exact (Option.some.inj h) ▸ .recheckRoom i f at_pc (by omega)
  | construct f =>
    simp only [at_pc, Option.some.injEq] at h
    obtain ⟨slot, free⟩ := inv.construct_slot at_pc
    subst h
    simp only [constructAt, slot, free]
    exact .construct i f at_pc
  | storePushCursor f =>
    simp only [at_pc, Option.some.injEq] at h
    exact h ▸ .publish i f at_pc
  | storeClosed =>
    simp only [at_pc, Option.some.injEq] at h
    exact h ▸ .storeClosed i at_pc

theorem returnPointer_eq (s : State α) :
    returnPointer r s (e.cursor s.consumed.length) =
      { s with
        consumer := .idle
        held := some (e.index s.consumed.length)
        consumerResult := some (.front (some (e.index s.consumed.length))) } := by
  simp only [returnPointer, e.slot_cursor]

theorem consumer_move (inv : Inv e s) (sync : Synchronizes r) {i : Nat}
    (h : consumerStep r s i = some t) :
    Move e s (.consumer i) t := by
  have ok := inv.consumer
  have ahead := inv.ahead
  have pushBound := (inv.views.agents .consumer).pushBound
  have empty := inv.empty_iff inv.pushCache ahead
  have covered := inv.pushCache.low
  unfold consumerStep at h
  cases at_pc : s.consumer with
  | idle => simp [at_pc] at h
  | frontLoadPop =>
    simp only [at_pc, Option.map_eq_some_iff, Prod.exists] at h
    obtain ⟨pop, m, load, rfl⟩ := h
    obtain ⟨rfl, _⟩ := inv.load_own_pop load
    exact .frontLoadPop i m at_pc load
  | frontReadCache pop =>
    rw [at_pc] at ok
    have same : pop = e.cursor s.consumed.length := ok
    subst same
    simp only [at_pc, returnPointer_eq] at h
    split at h
    · rename_i test
      exact (Option.some.inj h) ▸ .frontCacheEmpty i _ at_pc (empty.mp test)
    · rename_i test
      have ne := mt empty.mpr test
      exact (Option.some.inj h) ▸ .frontCacheHit i _ at_pc (by omega)
  | frontLoadPush pop =>
    simp only [at_pc, Option.map_eq_some_iff, Prod.exists] at h
    obtain ⟨x, m, load, rfl⟩ := h
    exact .frontLoadPush i pop x m at_pc load (inv.load_push load).value
  | frontLoaded pop push =>
    rw [at_pc] at ok
    obtain ⟨rfl, between⟩ := ok
    have wide := between.widen covered (Nat.le_refl _)
    have test_iff := inv.empty_iff wide (between.high.trans pushBound)
    have low := wide.low
    simp only [at_pc, Option.some.injEq] at h
    subst h
    unfold afterFrontLoad
    cases cached : r.cached with
    | true => simpa using Move.frontLoadedCache i _ push at_pc cached
    | false =>
      by_cases test : e.cursor s.consumed.length = push.value
      · simpa [test, returnNull] using
          Move.frontLoadedNull i _ push at_pc cached (test_iff.mp test)
      · have ne := mt test_iff.mpr test
        have eq := returnPointer_eq (e := e) { s with pushCursorCache := push }
        simp only [Bool.false_eq_true, if_false, if_neg test]
        rw [eq]
        exact Move.frontLoadedHit i _ push at_pc cached (by omega)
  | frontRecheck pop =>
    rw [at_pc] at ok
    have same : pop = e.cursor s.consumed.length := ok
    subst same
    simp only [at_pc, returnPointer_eq] at h
    split at h
    · rename_i test
      exact (Option.some.inj h) ▸ .frontNull i _ at_pc (empty.mp test)
    · rename_i test
      have ne := mt empty.mpr test
      exact (Option.some.inj h) ▸ .frontHit i _ at_pc (by omega)
  | popLoadPop =>
    simp only [at_pc, Option.map_eq_some_iff, Prod.exists] at h
    obtain ⟨pop, m, load, rfl⟩ := h
    obtain ⟨rfl, _⟩ := inv.load_own_pop load
    exact .popLoadPop i m at_pc load
  | popAssert pop =>
    rw [at_pc] at ok
    obtain ⟨_, lt, rfl⟩ := ok
    simp only [at_pc, Option.map_eq_some_iff, Prod.exists] at h
    obtain ⟨x, m, load, h⟩ := h
    have between := inv.load_push load
    have view := ((inv.views.load (joinClosed_coherent _ _ _ _) load
      (.inl sync.acquires)).agents .consumer).pushBound
    have test_iff := inv.empty_iff (between.widen covered (Nat.le_refl _))
      (between.high.trans view)
    have low : s.pushCursorCache.stamp ≤ i := between.low
    -- the assertion holds: the store read is newer than the element `front` returned
    have passes : e.cursor s.consumed.length ≠ x := fun eq => by
      have same : s.consumed.length = i := test_iff.mp eq
      omega
    rw [if_neg passes] at h
    exact h ▸ .popAssert i _ x m at_pc load between.value (by omega)
  | popDestroy pop =>
    rw [at_pc] at ok
    obtain ⟨_, lt, rfl⟩ := ok
    obtain ⟨v, present, live⟩ := inv.oldest_slot (by rw [at_pc]; rfl) lt
    simp only [at_pc, Option.some.injEq] at h
    subst h
    simp only [destroyAt, e.slot_cursor, live]
    exact .destroy i _ v at_pc present
  | popStore pop v =>
    rw [at_pc] at ok
    obtain ⟨_, lt, rfl, present⟩ := ok
    simp only [at_pc, Option.some.injEq] at h
    subst h
    simp only [storePop, e.next_cursor]
    exact .giveBack i _ v at_pc present
  | loadClosed =>
    simp only [at_pc, Option.map_eq_some_iff, Prod.exists] at h
    obtain ⟨b, m, load, rfl⟩ := h
    exact .loadClosed i b m at_pc load

theorem callProducer_eq {pc : ProducerPC α} (h : callProducer s pc = some t) :
    s.producer = .idle ∧ t = { s with producer := pc, pushResult := none } := by
  unfold callProducer at h
  split at h
  · rename_i idle
    exact ⟨idle, (Option.some.inj h).symm⟩
  · cases h

theorem callConsumer_eq {pc : ConsumerPC α} (h : callConsumer s pc = some t) :
    s.consumer = .idle ∧ t = { s with consumer := pc, consumerResult := none } := by
  unfold callConsumer at h
  split at h
  · rename_i idle
    exact ⟨idle, (Option.some.inj h).symm⟩
  · cases h

theorem Inv.held_slot (inv : Inv e s) {i : Nat} (idle : s.consumer = .idle)
    (held : s.held = some i) :
    ∃ v, s.pushed[s.consumed.length]? = some v ∧ s.slots i = some v := by
  obtain ⟨lt, rfl⟩ := inv.held i held
  exact inv.oldest_slot (by rw [idle]; rfl) lt

theorem step_move (inv : Inv e s) (sync : Synchronizes r) {l : Label α}
    (contract : frontFirst s l = true) (h : step r s l = some t) : Move e s l t := by
  have sound : s.fault.isSome = false := by rw [inv.sound]; rfl
  simp only [step, sound, Bool.false_eq_true, if_false] at h
  cases l with
  | emplace v =>
    obtain ⟨idle, rfl⟩ := callProducer_eq h
    exact .emplace v idle
  | tryEmplace v =>
    obtain ⟨idle, rfl⟩ := callProducer_eq h
    exact .tryEmplace v idle
  | close =>
    obtain ⟨idle, rfl⟩ := callProducer_eq h
    exact .close idle
  | front =>
    obtain ⟨idle, rfl⟩ := callConsumer_eq h
    exact .front idle
  | pop =>
    obtain ⟨u, call, rfl⟩ := Option.map_eq_some_iff.mp h
    obtain ⟨idle, rfl⟩ := callConsumer_eq call
    obtain ⟨i, held⟩ := Option.isSome_iff_exists.mp contract
    exact .pop idle (inv.held i held).1
  | closed =>
    obtain ⟨idle, rfl⟩ := callConsumer_eq h
    exact .closed idle
  | producer i => exact producer_move inv h
  | consumer i => exact consumer_move inv sync h
  | throw =>
    change throwStep s = some t at h
    unfold throwStep at h
    split at h
    · rename_i f at_pc
      exact (Option.some.inj h) ▸ .threw f at_pc
    · cases h
  | read =>
    simp only [readStep] at h
    split at h
    · rename_i i idle held
      obtain ⟨v, _, live⟩ := inv.held_slot idle held
      simp only [live, Option.some.injEq] at h
      exact h ▸ .read i v idle held live
    · cases h

theorem Move.inv {l : Label α} (move : Move e s l t) (inv : Inv e s) (sync : Synchronizes r) :
    Inv e t := by
  have popOk := inv.producer
  have pushOk := inv.consumer
  cases move with
  | emplace v idle =>
    exact (inv.toProducer (.loadPushCursor .emplace v) (by rw [idle]; rfl) trivial).returns none _
  | tryEmplace v idle =>
    exact (inv.toProducer (.loadPushCursor .tryEmplace v) (by rw [idle]; rfl) trivial).returns
      none _
  | close idle =>
    exact (inv.toProducer .storeClosed (by rw [idle]; rfl) trivial).returns none _
  | front idle =>
    exact (inv.toConsumer .frontLoadPop s.held (by rw [idle]; rfl) inv.held trivial).returns _ none
  | pop idle lt =>
    exact (inv.toConsumer .popLoadPop none (by rw [idle]; rfl) (by intro i h; cases h)
      ⟨rfl, lt⟩).returns _ none
  | closed idle =>
    exact (inv.toConsumer .loadClosed s.held (by rw [idle]; rfl) inv.held trivial).returns _ none
  | read i v idle held live => exact inv
  | loadPush i mode v f m at_pc load frame =>
    have known := (inv.load_own_push load).2
    refine (inv.load load (.inr known)).toProducer _ ?_ ?_
    · cases r.cached <;> simp [at_pc, ProducerPC.building]
    · subst frame
      cases r.cached <;> exact ⟨rfl, rfl⟩
  | cacheFull i f at_pc full =>
    rw [at_pc] at popOk
    exact inv.toProducer _ (by rw [at_pc]; rfl) popOk
  | cacheRoom i f at_pc room =>
    rw [at_pc] at popOk
    exact inv.toProducer _ (by rw [at_pc]; rfl) ⟨popOk, room⟩
  | loadPop i x f m at_pc load value =>
    rw [at_pc] at popOk
    refine (inv.load load (.inl sync.acquires)).toProducer _
      (by simp [at_pc, ProducerPC.building]) ?_
    exact ⟨popOk, inv.load_pop load⟩
  | loadedCache i f pop at_pc cached =>
    rw [at_pc] at popOk
    refine inv.toPopCache pop _ ?_ popOk.2 ?_
    · cases f.mode <;> simp [at_pc, ProducerPC.building]
    · cases mode : f.mode with
      | emplace => exact popOk.1
      | tryEmplace => exact ⟨popOk.1, mode⟩
  | loadedSpin i f pop at_pc cached mode full =>
    rw [at_pc] at popOk
    exact inv.toPopCache pop _ (by rw [at_pc]; rfl) popOk.2 popOk.1
  | loadedFull i f pop at_pc cached mode full =>
    rw [at_pc] at popOk
    exact (inv.toPopCache pop .idle (by rw [at_pc]; rfl) popOk.2 trivial).returns _ _
  | loadedRoom i f pop at_pc cached room =>
    rw [at_pc] at popOk
    exact inv.toPopCache pop _ (by rw [at_pc]; rfl) popOk.2 ⟨popOk.1, room⟩
  | recheckFull i f at_pc mode full =>
    exact (inv.toProducer .idle (by rw [at_pc]; rfl) trivial).returns _ _
  | recheckRoom i f at_pc room =>
    rw [at_pc] at popOk
    exact inv.toProducer _ (by rw [at_pc]; rfl) ⟨popOk.1, room⟩
  | construct i f at_pc => exact inv.construct at_pc
  | publish i f at_pc => exact inv.publish sync at_pc
  | storeClosed i at_pc => exact inv.storeClosed sync at_pc
  | threw f at_pc => exact (inv.toProducer .idle (by rw [at_pc]; rfl) trivial).returns _ _
  | frontLoadPop i m at_pc load =>
    have known := (inv.load_own_pop load).2
    refine (inv.load load (.inr known)).toConsumer _ s.held ?_ inv.held ?_
    · cases r.cached <;> simp [at_pc, ConsumerPC.tearing]
    · cases r.cached <;> exact rfl
  | frontCacheEmpty i pop at_pc empty =>
    rw [at_pc] at pushOk
    exact inv.toConsumer _ s.held (by rw [at_pc]; rfl) inv.held pushOk
  | frontCacheHit i pop at_pc lt | frontHit i pop at_pc lt =>
    exact (inv.toConsumer .idle (some (e.index s.consumed.length)) (by rw [at_pc]; rfl)
      (fun j h => ⟨lt, (Option.some.inj h).symm⟩) trivial).returns _ _
  | frontLoadPush i pop x m at_pc load value =>
    rw [at_pc] at pushOk
    refine (inv.load load (.inl sync.acquires)).toConsumer _ s.held
      (by simp [at_pc, ConsumerPC.tearing]) inv.held ?_
    exact ⟨pushOk, inv.load_push load⟩
  | frontLoadedCache i pop push at_pc cached =>
    rw [at_pc] at pushOk
    exact inv.toPushCache push _ (by rw [at_pc]; rfl) pushOk.2 pushOk.1
  | frontLoadedNull i pop push at_pc cached empty =>
    rw [at_pc] at pushOk
    exact (inv.toPushCache push .idle (by rw [at_pc]; rfl) pushOk.2 trivial).returns _ _
  | frontLoadedHit i pop push at_pc cached lt =>
    rw [at_pc] at pushOk
    have cache := inv.toPushCache push .idle (by rw [at_pc]; rfl) pushOk.2 trivial
    exact (cache.toConsumer .idle (some (e.index s.consumed.length)) rfl
      (fun j h => ⟨lt, (Option.some.inj h).symm⟩) trivial).returns _ _
  | frontNull i pop at_pc empty =>
    exact (inv.toConsumer .idle s.held (by rw [at_pc]; rfl) inv.held trivial).returns _ _
  | popLoadPop i m at_pc load =>
    rw [at_pc] at pushOk
    have known := (inv.load_own_pop load).2
    have gone : s.held = none := pushOk.1
    refine (inv.load load (.inr known)).toConsumer _ s.held ?_ inv.held ?_
    · cases r.ndebug <;> simp [at_pc, ConsumerPC.tearing]
    · cases r.ndebug <;> exact ⟨gone, pushOk.2, rfl⟩
  | popAssert i pop x m at_pc load value lt =>
    rw [at_pc] at pushOk
    exact (inv.load load (.inl sync.acquires)).toConsumer _ s.held
      (by simp [at_pc, ConsumerPC.tearing]) inv.held pushOk
  | destroy i pop v at_pc present => exact inv.destroy at_pc present
  | giveBack i pop v at_pc present => exact inv.giveBack sync at_pc
  | loadClosed i b m at_pc load =>
    refine ((inv.load load (.inl sync.acquires)).toConsumer .idle s.held
      (by simp [at_pc, ConsumerPC.tearing]) inv.held trivial).returns _ _

theorem step_inv (sync : Synchronizes r) {l : Label α} (inv : Inv e s)
    (contract : frontFirst s l = true) (h : step r s l = some t) : Inv e t :=
  (step_move inv sync contract h).inv inv sync

theorem run_inv (e : Encoding r) (sync : Synchronizes r) {ls : List (Label α)}
    (run : Transition.Run (step r) (fun s l => frontFirst s l = true) (start α) ls t) :
    Inv e t :=
  run.invariant (Inv e) (fun _ _ _ inv contract h => step_inv sync inv contract h) (inv_start e)

end RingBuffers.Spsc
