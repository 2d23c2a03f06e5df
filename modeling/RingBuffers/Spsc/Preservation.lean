import RingBuffers.Spsc.Invariant

/-! Every step that keeps the consumer's contract keeps the invariant. The pieces
below say what a load, a change of program counter and each of the four memory
effects (construct, publish, destroy, give back) do to it. -/
namespace RingBuffers.Spsc
open ReleaseAcquire

variable {α : Type} {r : Ring}

namespace Inv

variable {e : Encoding r} {s : State α}

theorem load (inv : Inv e s) {a : Agent} {l : Loc} {o : Order} {i : Nat} {x : l.Val}
    {m : Atomics α} (h : s.memory.load a l o i = some (x, m))
    (known : o.acquires = true ∨ i = (s.memory.view a).stamp l) :
    Inv e { s with memory := m } := by
  have history := load_history h
  have log := load_log h
  have grows := load_grows h
  exact {
    sound := inv.sound
    pushHistory := by
      change CursorHistory e (m.history .pushCursor) _
      rw [history]
      exact inv.pushHistory
    popHistory := by
      change CursorHistory e (m.history .popCursor) _
      rw [history]
      exact inv.popHistory
    stamped := inv.stamped.load h
    views := inv.views.load (joinClosed_coherent _ _ _ _) h known
    ownPush := inv.ownPush.trans ((grows .producer).stamp .pushCursor)
    ownPop := inv.ownPop.trans ((grows .consumer).stamp .popCursor)
    ownBuilt := inv.ownBuilt.trans ((grows .producer).done .producer)
    ownTorn := inv.ownTorn.trans ((grows .consumer).done .consumer)
    popCache := inv.popCache.widen (Nat.le_refl _) ((grows .producer).stamp .popCursor)
    pushCache := inv.pushCache.widen (Nat.le_refl _) ((grows .consumer).stamp .pushCursor)
    room := inv.room
    producer := inv.producer.mono ((grows .producer).stamp .popCursor)
    consumer := inv.consumer.mono ((grows .consumer).stamp .pushCursor)
    held := inv.held
    laid := inv.laid
    constructs := by
      change m.log .producer = _
      rw [log]
      exact inv.constructs
    destroys := by
      change m.log .consumer = _
      rw [log]
      exact inv.destroys
    consumed := inv.consumed }

theorem load_own_push (inv : Inv e s) {o : Order} {i : Nat} {x : Nat} {m : Atomics α}
    (h : s.memory.load .producer .pushCursor o i = some (x, m)) :
    x = e.cursor s.pushed.length ∧ i = (s.memory.view .producer).stamp .pushCursor := by
  obtain ⟨le, msg, at_i, value⟩ := load_value h
  have bound := (List.getElem?_eq_some_iff.mp at_i).1
  have own := inv.ownPush
  rw [inv.pushHistory.length] at bound
  have eq : i = s.pushed.length := by omega
  refine ⟨?_, by omega⟩
  rw [← value, inv.pushHistory.value i msg at_i, eq]

theorem load_own_pop (inv : Inv e s) {o : Order} {i : Nat} {x : Nat} {m : Atomics α}
    (h : s.memory.load .consumer .popCursor o i = some (x, m)) :
    x = e.cursor s.consumed.length ∧ i = (s.memory.view .consumer).stamp .popCursor := by
  obtain ⟨le, msg, at_i, value⟩ := load_value h
  have bound := (List.getElem?_eq_some_iff.mp at_i).1
  have own := inv.ownPop
  rw [inv.popHistory.length] at bound
  have eq : i = s.consumed.length := by omega
  refine ⟨?_, by omega⟩
  rw [← value, inv.popHistory.value i msg at_i, eq]

theorem load_pop (inv : Inv e s) {o : Order} {i : Nat} {x : Nat} {m : Atomics α}
    (h : s.memory.load .producer .popCursor o i = some (x, m)) :
    Seen.Between e ⟨x, i⟩ s.popCursorCache.stamp ((m.view .producer).stamp .popCursor) := by
  obtain ⟨le, msg, at_i, value⟩ := load_value h
  refine ⟨?_, inv.popCache.high.trans le, load_stamp inv.stamped h⟩
  exact value ▸ inv.popHistory.value i msg at_i

theorem load_push (inv : Inv e s) {o : Order} {i : Nat} {x : Nat} {m : Atomics α}
    (h : s.memory.load .consumer .pushCursor o i = some (x, m)) :
    Seen.Between e ⟨x, i⟩ s.pushCursorCache.stamp ((m.view .consumer).stamp .pushCursor) := by
  obtain ⟨le, msg, at_i, value⟩ := load_value h
  refine ⟨?_, inv.pushCache.high.trans le, load_stamp inv.stamped h⟩
  exact value ▸ inv.pushHistory.value i msg at_i

theorem toProducer (inv : Inv e s) (pc : ProducerPC α)
    (same : pc.building = s.producer.building)
    (ok : ProducerOk e s.pushed.length s.popCursorCache.stamp
      ((s.memory.view .producer).stamp .popCursor) pc) :
    Inv e { s with producer := pc } := by
  have built : State.built { s with producer := pc } = s.built := by
    simp [State.built, same]
  exact { inv with
    views := by rw [built]; exact inv.views
    ownBuilt := by rw [built]; exact inv.ownBuilt
    producer := ok
    laid := by rw [built]; exact inv.laid
    constructs := by rw [built]; exact inv.constructs }

theorem toConsumer (inv : Inv e s) (pc : ConsumerPC α) (held : Option Nat)
    (same : pc.tearing = s.consumer.tearing)
    (kept : ∀ i, held = some i →
      s.consumed.length < s.pushCursorCache.stamp ∧ i = e.index s.consumed.length)
    (ok : ConsumerOk e s.consumed.length s.pushCursorCache.stamp
      ((s.memory.view .consumer).stamp .pushCursor) held s.pushed pc) :
    Inv e { s with consumer := pc, held := held } := by
  have torn : State.torn { s with consumer := pc, held := held } = s.torn := by
    simp [State.torn, same]
  exact { inv with
    views := by rw [torn]; exact inv.views
    ownTorn := by rw [torn]; exact inv.ownTorn
    consumer := ok
    held := kept
    laid := by rw [torn]; exact inv.laid
    destroys := by rw [torn]; exact inv.destroys }

theorem returns (inv : Inv e s) (p : Option PushResult) (c : Option ConsumerResult) :
    Inv e { s with pushResult := p, consumerResult := c } :=
  { inv with }

theorem toPopCache (inv : Inv e s) (x : Seen) (pc : ProducerPC α)
    (same : pc.building = s.producer.building)
    (newer : x.Between e s.popCursorCache.stamp ((s.memory.view .producer).stamp .popCursor))
    (ok : ProducerOk e s.pushed.length x.stamp
      ((s.memory.view .producer).stamp .popCursor) pc) :
    Inv e { s with popCursorCache := x, producer := pc } := by
  have built : State.built { s with popCursorCache := x, producer := pc } = s.built := by
    simp [State.built, same]
  exact { inv with
    views := by rw [built]; exact inv.views
    ownBuilt := by rw [built]; exact inv.ownBuilt
    popCache := newer.widen (Nat.zero_le _) (Nat.le_refl _)
    room := inv.room.trans (Nat.add_le_add_right newer.low _)
    producer := ok
    laid := by rw [built]; exact inv.laid
    constructs := by rw [built]; exact inv.constructs }

theorem toPushCache (inv : Inv e s) (x : Seen) (pc : ConsumerPC α)
    (same : pc.tearing = s.consumer.tearing)
    (newer : x.Between e s.pushCursorCache.stamp ((s.memory.view .consumer).stamp .pushCursor))
    (ok : ConsumerOk e s.consumed.length x.stamp
      ((s.memory.view .consumer).stamp .pushCursor) s.held s.pushed pc) :
    Inv e { s with pushCursorCache := x, consumer := pc } := by
  have torn : State.torn { s with pushCursorCache := x, consumer := pc } = s.torn := by
    simp [State.torn, same]
  exact { inv with
    views := by rw [torn]; exact inv.views
    ownTorn := by rw [torn]; exact inv.ownTorn
    pushCache := newer.widen inv.pushCache.low (Nat.le_refl _)
    consumer := ok
    held := fun i h => ⟨(inv.held i h).1.trans_le newer.low, (inv.held i h).2⟩
    laid := by rw [torn]; exact inv.laid
    destroys := by rw [torn]; exact inv.destroys }

theorem torn_le (inv : Inv e s) : s.torn ≤ s.pushed.length := by
  have ordered := inv.ordered
  have ahead := inv.ahead
  have ok := inv.consumer
  cases at_pc : s.consumer with
  | popStore pop v =>
    rw [at_pc] at ok
    have lt := ok.2.1
    simp only [State.torn, at_pc, ConsumerPC.tearing]
    omega
  | _ => simpa [State.torn, at_pc, ConsumerPC.tearing] using ordered

/-- Unpublished elements count against the room the producer saw in its cache. -/
theorem built_le (inv : Inv e s) : s.built.length ≤ s.popCursorCache.stamp + e.bound := by
  have room := inv.room
  have ok := inv.producer
  cases at_pc : s.producer with
  | storePushCursor f =>
    rw [at_pc] at ok
    have lt := ok.2
    simp only [State.built, at_pc, ProducerPC.building, List.length_append, List.length_singleton]
    omega
  | _ => simpa [State.built, at_pc, ProducerPC.building] using room

theorem consumed_le_torn (s : State α) : s.consumed.length ≤ s.torn := by
  simp [State.torn]

theorem construct_slot (inv : Inv e s) {f : Frame α} (at_pc : s.producer = .construct f) :
    r.slot f.cursor = some (e.index s.pushed.length) ∧
      s.slots (e.index s.pushed.length) = none := by
  have ok := inv.producer
  rw [at_pc] at ok
  have built : s.built = s.pushed := by simp [State.built, at_pc, ProducerPC.building]
  have behind := inv.behind
  have torn := consumed_le_torn s
  refine ⟨by rw [ok.1.cursor]; exact e.slot_cursor _, ?_⟩
  have laid := inv.laid
  rw [built] at laid
  exact laid.vacant e.apart (by have := ok.2; omega)

theorem construct (inv : Inv e s) {f : Frame α} (at_pc : s.producer = .construct f) :
    Inv e { s with
      slots := Function.update s.slots (e.index s.pushed.length) (some f.value)
      memory := s.memory.perform .producer (.construct (e.index s.pushed.length) f.value)
      producer := .storePushCursor f } := by
  have ok := inv.producer
  rw [at_pc] at ok
  have behind := inv.behind
  have torn := consumed_le_torn s
  have torn_le := inv.torn_le
  have old : s.built = s.pushed := by simp [State.built, at_pc, ProducerPC.building]
  have log : (s.memory.log .producer).length = s.pushed.length := by
    simp [inv.constructs, old]
  have own := inv.views.agents .producer
  have done := inv.ownBuilt
  have grows := perform_grows (m := s.memory) (a := .producer)
    (.construct (e.index s.pushed.length) f.value)
  have built : State.built { s with
      slots := Function.update s.slots (e.index s.pushed.length) (some f.value)
      memory := s.memory.perform .producer (.construct (e.index s.pushed.length) f.value)
      producer := .storePushCursor f } = s.pushed ++ [f.value] := rfl
  rw [old] at done own
  -- the new element is not published: no view knows of it but the producer's own
  have wider : All (Coherent s.pushed.length s.consumed.length (s.pushed.length + 1) s.torn)
      s.memory :=
    inv.views.mono (Coherent.mono (Nat.le_refl _) (Nat.le_refl _) (by rw [old]; omega)
      (Nat.le_refl _))
  exact { inv with
    pushHistory := inv.pushHistory
    popHistory := inv.popHistory
    stamped := inv.stamped.perform _
    views := by
      rw [built, List.length_append, List.length_singleton]
      apply wider.perform _
      have c := wider.agents .producer
      have pushBound := own.pushBound
      have builtBound := own.builtBound
      constructor
      · simp only [know_stamp, know_done_self, log]
        omega
      · simpa using c.popDone
      · exact c.pushBound
      · exact c.popBound
      · simp only [know_done_self, log]
        omega
      · simpa using c.tornBound
    ownPush := inv.ownPush.trans ((grows .producer).stamp .pushCursor)
    ownPop := inv.ownPop.trans ((grows .consumer).stamp .popCursor)
    ownBuilt := by
      rw [built]
      simp only [Memory.perform, Function.update_self, know_done_self, log, List.length_append,
        List.length_singleton]
      omega
    ownTorn := inv.ownTorn.trans ((grows .consumer).done .consumer)
    popCache := inv.popCache.widen (Nat.le_refl _) ((grows .producer).stamp .popCursor)
    pushCache := inv.pushCache.widen (Nat.le_refl _) ((grows .consumer).stamp .pushCursor)
    producer := ok
    consumer := inv.consumer.mono ((grows .consumer).stamp .pushCursor)
    laid := by
      have laid := inv.laid
      rw [old] at laid
      exact laid.construct e.apart (by have := ok.2; omega) torn_le f.value
    constructs := by
      rw [built, perform_log_self, inv.constructs, old, List.mapIdx_concat]
    destroys := by
      rw [perform_log_other _ (by decide)]
      exact inv.destroys }

theorem publish (inv : Inv e s) (sync : Synchronizes r) {f : Frame α}
    (at_pc : s.producer = .storePushCursor f) :
    Inv e { s with
      memory := s.memory.store .producer .pushCursor r.store f.next
      producer := .idle
      pushResult := some .constructed
      pushed := s.pushed ++ [f.value] } := by
  have ok := inv.producer
  rw [at_pc] at ok
  have old : s.built = s.pushed ++ [f.value] := by
    simp [State.built, at_pc, ProducerPC.building]
  have count : s.built.length = s.pushed.length + 1 := by simp [old]
  have history := inv.pushHistory.length
  have done := inv.ownBuilt
  have grows := store_grows (m := s.memory) (a := .producer) (l := .pushCursor) (o := r.store)
    (x := f.next)
  have pushes : (s.pushed ++ [f.value]).length = s.pushed.length + 1 := by simp
  have built : State.built { s with
      memory := s.memory.store .producer .pushCursor r.store f.next
      producer := .idle
      pushResult := some .constructed
      pushed := s.pushed ++ [f.value] } = s.built := by
    simp [State.built, at_pc, ProducerPC.building]
  have wider : All (Coherent (s.pushed.length + 1) s.consumed.length s.built.length s.torn)
      s.memory :=
    inv.views.mono (Coherent.mono (Nat.le_succ _) (Nat.le_refl _) (Nat.le_refl _) (Nat.le_refl _))
  exact { inv with
    pushHistory := by
      change CursorHistory e ((s.memory.store .producer .pushCursor r.store f.next).history
        .pushCursor) _
      rw [store_history_self, ok.1.next, pushes]
      exact inv.pushHistory.extend _
    popHistory := by
      change CursorHistory e ((s.memory.store .producer .pushCursor r.store f.next).history
        .popCursor) _
      rw [store_history_other (by decide)]
      exact inv.popHistory
    stamped := inv.stamped.store
    views := by
      rw [built, pushes]
      refine wider.store ?_ sync.releases
      have c := wider.agents .producer
      have pushBound := (inv.views.agents .producer).pushBound
      constructor
      · simp only [see_stamp_self, see_done]
        omega
      · simpa using c.popDone
      · simp only [see_stamp_self]
        omega
      · simpa using c.popBound
      · exact c.builtBound
      · exact c.tornBound
    ownPush := by
      rw [pushes]
      simp only [Memory.store, Function.update_self, see_stamp_self]
      omega
    ownPop := inv.ownPop.trans ((grows .consumer).stamp .popCursor)
    ownBuilt := by
      rw [built]
      exact done.trans ((grows .producer).done .producer)
    ownTorn := inv.ownTorn.trans ((grows .consumer).done .consumer)
    popCache := inv.popCache.widen (Nat.le_refl _) ((grows .producer).stamp .popCursor)
    pushCache := inv.pushCache.widen (Nat.le_refl _) ((grows .consumer).stamp .pushCursor)
    room := by
      rw [pushes]
      exact ok.2
    producer := trivial
    consumer := (inv.consumer.mono ((grows .consumer).stamp .pushCursor)).append f.value
    laid := by
      rw [built]
      exact inv.laid
    constructs := by
      rw [built]
      exact inv.constructs
    consumed := by
      rw [List.take_append_of_le_length inv.ordered]
      exact inv.consumed }

theorem storeClosed (inv : Inv e s) (sync : Synchronizes r) (at_pc : s.producer = .storeClosed) :
    Inv e { s with
      memory := s.memory.store .producer .closed r.store true, producer := .idle } := by
  have grows := store_grows (m := s.memory) (a := .producer) (l := .closed) (o := r.store)
    (x := true)
  have built : State.built { s with
      memory := s.memory.store .producer .closed r.store true, producer := .idle } = s.built := by
    simp [State.built, at_pc, ProducerPC.building]
  exact { inv with
    pushHistory := by
      change CursorHistory e ((s.memory.store .producer .closed r.store true).history
        .pushCursor) _
      rw [store_history_other (by decide)]
      exact inv.pushHistory
    popHistory := by
      change CursorHistory e ((s.memory.store .producer .closed r.store true).history
        .popCursor) _
      rw [store_history_other (by decide)]
      exact inv.popHistory
    stamped := inv.stamped.store
    views := by
      rw [built]
      refine inv.views.store ?_ sync.releases
      have c := inv.views.agents .producer
      exact ⟨by simpa using c.pushDone, by simpa using c.popDone, by simpa using c.pushBound,
        by simpa using c.popBound, c.builtBound, c.tornBound⟩
    ownPush := inv.ownPush.trans ((grows .producer).stamp .pushCursor)
    ownPop := inv.ownPop.trans ((grows .consumer).stamp .popCursor)
    ownBuilt := by
      rw [built]
      exact inv.ownBuilt.trans ((grows .producer).done .producer)
    ownTorn := inv.ownTorn.trans ((grows .consumer).done .consumer)
    popCache := inv.popCache.widen (Nat.le_refl _) ((grows .producer).stamp .popCursor)
    pushCache := inv.pushCache.widen (Nat.le_refl _) ((grows .consumer).stamp .pushCursor)
    producer := trivial
    consumer := inv.consumer.mono ((grows .consumer).stamp .pushCursor)
    laid := by
      rw [built]
      exact inv.laid
    constructs := by
      rw [built]
      exact inv.constructs }

theorem oldest_slot (inv : Inv e s) (still : s.consumer.tearing = 0)
    (covered : s.consumed.length < s.pushCursorCache.stamp) :
    ∃ v, s.pushed[s.consumed.length]? = some v ∧
      s.slots (e.index s.consumed.length) = some v := by
  have lt : s.consumed.length < s.pushed.length := Nat.lt_of_lt_of_le covered inv.ahead
  have torn : s.torn = s.consumed.length := by simp [State.torn, still]
  have present := List.getElem?_eq_getElem lt
  refine ⟨_, present, inv.laid.at (Nat.le_of_eq torn) ?_⟩
  rw [State.built, List.getElem?_append_left lt, present]

theorem destroy (inv : Inv e s) {pop : Nat} {v : α} (at_pc : s.consumer = .popDestroy pop)
    (present : s.pushed[s.consumed.length]? = some v) :
    Inv e { s with
      slots := Function.update s.slots (e.index s.consumed.length) none
      memory := s.memory.perform .consumer (.destroy (e.index s.consumed.length))
      consumer := .popStore pop v } := by
  have ok := inv.consumer
  rw [at_pc] at ok
  have old : s.torn = s.consumed.length := by simp [State.torn, at_pc, ConsumerPC.tearing]
  have log : (s.memory.log .consumer).length = s.consumed.length := by
    simp [inv.destroys, old]
  have built_le := inv.built_le
  have behind := inv.behind
  have own := inv.views.agents .consumer
  have done := inv.ownTorn
  have grows := perform_grows (m := s.memory) (a := .consumer)
    (.destroy (e.index s.consumed.length))
  have torn : State.torn { s with
      slots := Function.update s.slots (e.index s.consumed.length) none
      memory := s.memory.perform .consumer (.destroy (e.index s.consumed.length))
      consumer := .popStore pop v } = s.consumed.length + 1 := rfl
  rw [old] at done own
  have wider : All (Coherent s.pushed.length s.consumed.length s.built.length
      (s.consumed.length + 1)) s.memory :=
    inv.views.mono (Coherent.mono (Nat.le_refl _) (Nat.le_refl _) (Nat.le_refl _)
      (by rw [old]; omega))
  exact { inv with
    pushHistory := inv.pushHistory
    popHistory := inv.popHistory
    stamped := inv.stamped.perform _
    views := by
      rw [torn]
      apply wider.perform _
      have c := wider.agents .consumer
      have popBound := own.popBound
      have tornBound := own.tornBound
      constructor
      · simpa using c.pushDone
      · simp only [know_stamp, know_done_self, log]
        omega
      · exact c.pushBound
      · exact c.popBound
      · simpa using c.builtBound
      · simp only [know_done_self, log]
        omega
    ownPush := inv.ownPush.trans ((grows .producer).stamp .pushCursor)
    ownPop := inv.ownPop.trans ((grows .consumer).stamp .popCursor)
    ownBuilt := inv.ownBuilt.trans ((grows .producer).done .producer)
    ownTorn := by
      rw [torn]
      simp only [Memory.perform, Function.update_self, know_done_self, log]
      omega
    popCache := inv.popCache.widen (Nat.le_refl _) ((grows .producer).stamp .popCursor)
    pushCache := inv.pushCache.widen (Nat.le_refl _) ((grows .consumer).stamp .pushCursor)
    producer := inv.producer.mono ((grows .producer).stamp .popCursor)
    consumer := ⟨ok.1, ok.2.1, ok.2.2, present⟩
    laid := by
      have laid := inv.laid
      rw [old] at laid
      exact laid.destroy e.apart (by omega)
    constructs := by
      rw [perform_log_other _ (by decide)]
      exact inv.constructs
    destroys := by
      rw [torn, perform_log_self, inv.destroys, old, List.range_succ, List.map_append,
        List.map_singleton] }

theorem giveBack (inv : Inv e s) (sync : Synchronizes r) {pop : Nat} {v : α}
    (at_pc : s.consumer = .popStore pop v) :
    Inv e { s with
      memory := s.memory.store .consumer .popCursor r.store (e.cursor (s.consumed.length + 1))
      consumer := .idle
      consumerResult := some .popped
      consumed := s.consumed ++ [v] } := by
  have ok := inv.consumer
  rw [at_pc] at ok
  obtain ⟨gone, covered, _, present⟩ := ok
  have old : s.torn = s.consumed.length + 1 := by simp [State.torn, at_pc, ConsumerPC.tearing]
  have history := inv.popHistory.length
  have done := inv.ownTorn
  have grows := store_grows (m := s.memory) (a := .consumer) (l := .popCursor) (o := r.store)
    (x := e.cursor (s.consumed.length + 1))
  have pops : (s.consumed ++ [v]).length = s.consumed.length + 1 := by simp
  have torn : State.torn { s with
      memory := s.memory.store .consumer .popCursor r.store (e.cursor (s.consumed.length + 1))
      consumer := .idle
      consumerResult := some .popped
      consumed := s.consumed ++ [v] } = s.torn := by
    simp [State.torn, at_pc, ConsumerPC.tearing]
  have wider : All (Coherent s.pushed.length (s.consumed.length + 1) s.built.length s.torn)
      s.memory :=
    inv.views.mono (Coherent.mono (Nat.le_refl _) (Nat.le_succ _) (Nat.le_refl _) (Nat.le_refl _))
  exact { inv with
    pushHistory := by
      change CursorHistory e ((s.memory.store .consumer .popCursor r.store
        (e.cursor (s.consumed.length + 1))).history .pushCursor) _
      rw [store_history_other (by decide)]
      exact inv.pushHistory
    popHistory := by
      change CursorHistory e ((s.memory.store .consumer .popCursor r.store
        (e.cursor (s.consumed.length + 1))).history .popCursor) _
      rw [store_history_self, pops]
      exact inv.popHistory.extend _
    stamped := inv.stamped.store
    views := by
      rw [torn, pops]
      refine wider.store ?_ sync.releases
      have c := wider.agents .consumer
      have popBound := (inv.views.agents .consumer).popBound
      constructor
      · simpa using c.pushDone
      · simp only [see_stamp_self, see_done]
        omega
      · simpa using c.pushBound
      · simp only [see_stamp_self]
        omega
      · exact c.builtBound
      · exact c.tornBound
    ownPush := inv.ownPush.trans ((grows .producer).stamp .pushCursor)
    ownPop := by
      rw [pops]
      simp only [Memory.store, Function.update_self, see_stamp_self]
      omega
    ownBuilt := inv.ownBuilt.trans ((grows .producer).done .producer)
    ownTorn := by
      rw [torn]
      exact done.trans ((grows .consumer).done .consumer)
    popCache := inv.popCache.widen (Nat.le_refl _) ((grows .producer).stamp .popCursor)
    pushCache := by
      rw [pops]
      exact ⟨inv.pushCache.value, covered,
        inv.pushCache.high.trans ((grows .consumer).stamp .pushCursor)⟩
    producer := inv.producer.mono ((grows .producer).stamp .popCursor)
    consumer := trivial
    held := by
      intro i impossible
      rw [gone] at impossible
      cases impossible
    laid := by
      rw [torn]
      exact inv.laid
    destroys := by
      rw [torn]
      exact inv.destroys
    consumed := by
      have eq : s.pushed.take s.consumed.length = s.consumed := inv.consumed.symm
      rw [pops, List.take_add_one, eq, present, Option.toList_some] }

end Inv

end RingBuffers.Spsc
