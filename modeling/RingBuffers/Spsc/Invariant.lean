import RingBuffers.Spsc.Machine

/-! The inductive invariant of the two-thread machine, for any lawful cursor
encoding and any release/acquire run. Cursors are compared only as residues; the
invariant speaks about the ordinals they stand for. -/
namespace RingBuffers.Spsc
open ReleaseAcquire

variable {α : Type} {r : Ring}

/-- The element constructed in a slot and not yet published. -/
def ProducerPC.building : ProducerPC α → List α
  | .storePushCursor f => [f.value]
  | _ => []

/-- The number of elements destroyed whose slot is not yet given back. -/
def ConsumerPC.tearing : ConsumerPC α → Nat
  | .popStore _ _ => 1
  | _ => 0

def State.built (s : State α) : List α := s.pushed ++ s.producer.building

def State.torn (s : State α) : Nat := s.consumed.length + s.consumer.tearing

/-- A view that knows a cursor store knows every slot action made before it. -/
structure Coherent (pushes pops built torn : Nat) (v : View Loc Agent) : Prop where
  pushDone : v.stamp .pushCursor ≤ v.done .producer
  popDone : v.stamp .popCursor ≤ v.done .consumer
  pushBound : v.stamp .pushCursor ≤ pushes
  popBound : v.stamp .popCursor ≤ pops
  builtBound : v.done .producer ≤ built
  tornBound : v.done .consumer ≤ torn

structure CursorHistory (e : Encoding r) (h : List (Message Loc Agent Nat)) (n : Nat) :
    Prop where
  length : h.length = n + 1
  value : ∀ i msg, h[i]? = some msg → msg.value = e.cursor i

structure Frame.At (e : Encoding r) (f : Frame α) (k : Nat) : Prop where
  cursor : f.cursor = e.cursor k
  next : f.next = e.cursor (k + 1)

structure Seen.Between (e : Encoding r) (x : Seen) (low high : Nat) : Prop where
  value : x.value = e.cursor x.stamp
  low : low ≤ x.stamp
  high : x.stamp ≤ high

/-- What the producer's locals stand for: `pushes` is the ordinal of its cursor,
`cache` the ordinal in `popCursorCache_`, `seen` the last ordinal it read. -/
def ProducerOk (e : Encoding r) (pushes cache seen : Nat) : ProducerPC α → Prop
  | .idle | .loadPushCursor _ _ | .storeClosed => True
  | .readCache f | .loadPopCursor f => f.At e pushes
  | .recheck f => f.At e pushes ∧ f.mode = .tryEmplace
  | .loaded f pop => f.At e pushes ∧ pop.Between e cache seen
  | .construct f | .storePushCursor f => f.At e pushes ∧ pushes < cache + e.bound

/-- What the consumer's locals stand for; a running `pop` has given up its pointer. -/
def ConsumerOk (e : Encoding r) (pops cache seen : Nat) (held : Option Nat) (pushed : List α) :
    ConsumerPC α → Prop
  | .idle | .frontLoadPop | .loadClosed => True
  | .frontReadCache pop | .frontLoadPush pop | .frontRecheck pop => pop = e.cursor pops
  | .frontLoaded pop push => pop = e.cursor pops ∧ push.Between e cache seen
  | .popLoadPop => held = none ∧ pops < cache
  | .popAssert pop | .popDestroy pop => held = none ∧ pops < cache ∧ pop = e.cursor pops
  | .popStore pop v =>
    held = none ∧ pops < cache ∧ pop = e.cursor pops ∧ pushed[pops]? = some v

structure Inv (e : Encoding r) (s : State α) : Prop where
  sound : s.fault = none
  pushHistory : CursorHistory e (s.memory.history .pushCursor) s.pushed.length
  popHistory : CursorHistory e (s.memory.history .popCursor) s.consumed.length
  stamped : Stamped s.memory
  views : All (Coherent s.pushed.length s.consumed.length s.built.length s.torn) s.memory
  ownPush : s.pushed.length ≤ (s.memory.view .producer).stamp .pushCursor
  ownPop : s.consumed.length ≤ (s.memory.view .consumer).stamp .popCursor
  ownBuilt : s.built.length ≤ (s.memory.view .producer).done .producer
  ownTorn : s.torn ≤ (s.memory.view .consumer).done .consumer
  popCache : s.popCursorCache.Between e 0 ((s.memory.view .producer).stamp .popCursor)
  pushCache : s.pushCursorCache.Between e s.consumed.length
    ((s.memory.view .consumer).stamp .pushCursor)
  room : s.pushed.length ≤ s.popCursorCache.stamp + e.bound
  producer : ProducerOk e s.pushed.length s.popCursorCache.stamp
    ((s.memory.view .producer).stamp .popCursor) s.producer
  consumer : ConsumerOk e s.consumed.length s.pushCursorCache.stamp
    ((s.memory.view .consumer).stamp .pushCursor) s.held s.pushed s.consumer
  held : ∀ i, s.held = some i →
    s.consumed.length < s.pushCursorCache.stamp ∧ i = e.index s.consumed.length
  laid : Window.Laid e.index s.slots s.built s.torn
  constructs : s.memory.log .producer = s.built.mapIdx fun k v => .construct (e.index k) v
  destroys : s.memory.log .consumer = (List.range s.torn).map fun k => .destroy (e.index k)
  consumed : s.consumed = s.pushed.take s.consumed.length

/-- The memory orders the two-thread protocol rests on. -/
structure Synchronizes (r : Ring) : Prop where
  acquires : r.other.acquires = true
  releases : r.store.releases = true

theorem spscBuffer_synchronizes {env : Environment} {n : Nat}
    (made : spscBuffer.construct env n = .ok r) : Synchronizes r := by
  rw [(construct_ok made).2.2]
  exact ⟨rfl, rfl⟩

theorem joinClosed_coherent (pushes pops built torn : Nat) :
    JoinClosed (Coherent pushes pops built torn) := by
  intro v w hv hw
  have := hv.pushDone; have := hv.popDone; have := hv.pushBound; have := hv.popBound
  have := hv.builtBound; have := hv.tornBound; have := hw.pushDone; have := hw.popDone
  have := hw.pushBound; have := hw.popBound; have := hw.builtBound; have := hw.tornBound
  constructor <;> simp only [View.join] <;> omega

theorem Coherent.mono {pushes pops built torn pushes' pops' built' torn' : Nat}
    (hp : pushes ≤ pushes') (hc : pops ≤ pops') (hb : built ≤ built') (ht : torn ≤ torn')
    (v : View Loc Agent) (h : Coherent pushes pops built torn v) :
    Coherent pushes' pops' built' torn' v where
  pushDone := h.pushDone
  popDone := h.popDone
  pushBound := h.pushBound.trans hp
  popBound := h.popBound.trans hc
  builtBound := h.builtBound.trans hb
  tornBound := h.tornBound.trans ht

theorem CursorHistory.start (e : Encoding r) (w : View Loc Agent) :
    CursorHistory e [⟨0, w⟩] 0 := by
  refine ⟨rfl, ?_⟩
  intro i msg at_i
  have bound := (List.getElem?_eq_some_iff.mp at_i).1
  have zero : i = 0 := Nat.lt_one_iff.mp bound
  subst zero
  exact (Option.some.inj at_i) ▸ e.cursor_zero.symm

theorem CursorHistory.extend {e : Encoding r} {h : List (Message Loc Agent Nat)} {n : Nat}
    (history : CursorHistory e h n) (w : View Loc Agent) :
    CursorHistory e (h ++ [⟨e.cursor (n + 1), w⟩]) (n + 1) := by
  constructor
  · simp [history.length]
  · intro i msg at_i
    rcases Nat.lt_or_ge i h.length with old | new
    · rw [List.getElem?_append_left old] at at_i
      exact history.value i msg at_i
    · have bound := (List.getElem?_eq_some_iff.mp at_i).1
      have eq : i = h.length := by
        simp only [List.length_append, List.length_singleton] at bound
        omega
      subst eq
      rw [List.getElem?_concat_length] at at_i
      rw [← Option.some.inj at_i, history.length]

theorem Seen.Between.widen {e : Encoding r} {x : Seen} {low high low' high' : Nat}
    (h : x.Between e low high) (le : low' ≤ low) (ge : high ≤ high') : x.Between e low' high' :=
  ⟨h.value, le.trans h.low, h.high.trans ge⟩

theorem ProducerOk.mono {e : Encoding r} {pushes cache seen seen' : Nat} (le : seen ≤ seen')
    {pc : ProducerPC α} (ok : ProducerOk e pushes cache seen pc) :
    ProducerOk e pushes cache seen' pc := by
  cases pc with
  | loaded f pop => exact ⟨ok.1, ok.2.widen (Nat.le_refl _) le⟩
  | _ => exact ok

theorem ConsumerOk.mono {e : Encoding r} {pops cache seen seen' : Nat} {held : Option Nat}
    {pushed : List α} (le : seen ≤ seen') {pc : ConsumerPC α}
    (ok : ConsumerOk e pops cache seen held pushed pc) :
    ConsumerOk e pops cache seen' held pushed pc := by
  cases pc with
  | frontLoaded pop push => exact ⟨ok.1, ok.2.widen (Nat.le_refl _) le⟩
  | _ => exact ok

theorem ConsumerOk.append {e : Encoding r} {pops cache seen : Nat} {held : Option Nat}
    {pushed : List α} (v : α) {pc : ConsumerPC α}
    (ok : ConsumerOk e pops cache seen held pushed pc) :
    ConsumerOk e pops cache seen held (pushed ++ [v]) pc := by
  cases pc with
  | popStore pop w =>
    obtain ⟨gone, lt, cursor, present⟩ := ok
    have bound := (List.getElem?_eq_some_iff.mp present).1
    exact ⟨gone, lt, cursor, by rw [List.getElem?_append_left bound]; exact present⟩
  | _ => exact ok

namespace Inv

variable {e : Encoding r} {s : State α}

theorem behind (inv : Inv e s) : s.popCursorCache.stamp ≤ s.consumed.length :=
  inv.popCache.high.trans (inv.views.agents .producer).popBound

theorem ahead (inv : Inv e s) : s.pushCursorCache.stamp ≤ s.pushed.length :=
  inv.pushCache.high.trans (inv.views.agents .consumer).pushBound

theorem ordered (inv : Inv e s) : s.consumed.length ≤ s.pushed.length :=
  inv.pushCache.low.trans inv.ahead

theorem bounded (inv : Inv e s) : s.pushed.length ≤ s.consumed.length + e.bound := by
  have := inv.behind
  have := inv.room
  omega

theorem queue_length (s : State α) :
    s.queue.length = s.pushed.length - s.consumed.length := by
  simp [State.queue]

theorem consumed_append_queue (inv : Inv e s) : s.consumed ++ s.queue = s.pushed := by
  have split := List.take_append_drop s.consumed.length s.pushed
  rwa [← inv.consumed] at split

end Inv

theorem inv_start (e : Encoding r) : Inv e (start α) where
  sound := rfl
  pushHistory := CursorHistory.start e _
  popHistory := CursorHistory.start e _
  stamped := stamped_start _
  views := all_start _ ⟨Nat.le_refl _, Nat.le_refl _, Nat.le_refl _, Nat.le_refl _,
    Nat.le_refl _, Nat.le_refl _⟩
  ownPush := Nat.le_refl _
  ownPop := Nat.le_refl _
  ownBuilt := Nat.le_refl _
  ownTorn := Nat.le_refl _
  popCache := ⟨e.cursor_zero.symm, Nat.le_refl _, Nat.le_refl _⟩
  pushCache := ⟨e.cursor_zero.symm, Nat.le_refl _, Nat.le_refl _⟩
  room := Nat.zero_le _
  producer := trivial
  consumer := trivial
  held := by intro i impossible; cases impossible
  laid := Window.laid_empty
  constructs := rfl
  destroys := rfl
  consumed := rfl

end RingBuffers.Spsc
