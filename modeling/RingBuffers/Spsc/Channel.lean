import RingBuffers.Library.Link
import RingBuffers.Spsc.Reports
import RingBuffers.Spsc.Shutdown
import RingBuffers.Spsc.Linearizable

/-! Two threads whose loads may be stale are the two ends of a link. `popCursor_` carries the
receipts back, `pushCursor_` the counts forward, and `closed_` the notices; what a thread goes by
is what it loaded last, and what it may still load is what the link lets it read. -/
namespace RingBuffers.Spsc
open ReleaseAcquire Transition Link

variable {α : Type} {r : Ring}

def Loc.owner : Loc → Agent
  | .pushCursor | .closed => .producer
  | .popCursor => .consumer

/-- The pops the producer knows of, by its cache or by the load it has just made. -/
def State.acked (s : State α) : Nat :=
  match s.producer with
  | .loaded _ pop => pop.stamp
  | _ => s.popCursorCache.stamp

def State.arrived (s : State α) : Nat :=
  match s.consumer with
  | .frontLoaded _ push => push.stamp
  | _ => s.pushCursorCache.stamp

def State.channel (s : State α) : Channel α where
  sent := s.pushed
  taken := s.consumed.length
  acked := s.acked
  arrived := s.arrived
  known := (s.memory.view .consumer).stamp .pushCursor
  notices := (s.memory.history .closed).map fun msg => msg.view.stamp .pushCursor
  heard := (s.memory.view .consumer).stamp .closed

def looks (s : State α) (i : Option Nat) : List (Event α) :=
  match i.bind s.slots with
  | some v => [.peek v]
  | none => []

def events (r : Ring) (s : State α) : Label α → List (Event α)
  | .producer i => match s.producer with
    | .loadPopCursor _ => [.ack i]
    | .loaded f pop => if !r.cached && refuses r f pop then [.refuse] else []
    | .recheck f => if refuses r f s.popCursorCache then [.refuse] else []
    | .storePushCursor f => [.send f.value]
    | .storeClosed => [.notify]
    | _ => []
  | .consumer i => match s.consumer with
    | .frontReadCache pop =>
      if pop = s.pushCursorCache.value then [] else looks s (r.slot pop)
    | .frontLoadPush _ => [.arrive i]
    | .frontLoaded pop push =>
      if r.cached then [] else if pop = push.value then [.empty] else looks s (r.slot pop)
    | .frontRecheck pop =>
      if pop = s.pushCursorCache.value then [.empty] else looks s (r.slot pop)
    | .popAssert _ => [.glance i]
    | .popStore _ v => [.take v]
    | .loadClosed => [.hear i]
    | _ => []
  | .read => looks s s.held
  | _ => []

/-- The event of the link that each answer of a call goes with. The consumer is told that the
buffer is closed when it hears of any notice but the first. -/
inductive Signifies : Operation α × Option (Outcome α) → List (Event α) → Prop where
  | push (v : α) : Signifies (.call (.push v), some (.answer .done)) [.send v]
  | accepted (v : α) : Signifies (.call (.tryPush v), some (.answer (.pushed true))) [.send v]
  | refused (v : α) : Signifies (.call (.tryPush v), some (.answer (.pushed false))) [.refuse]
  | threw (mode : Mode) : Signifies (.throwing mode, some .threw) []
  | close : Signifies (.call .close, some (.answer .done)) [.notify]
  | null : Signifies (.call .front, some (.answer (.front none))) [.empty]
  | front (v : α) : Signifies (.call .front, some (.answer (.front (some v)))) [.peek v]
  | pop (v : α) : Signifies (.call .pop, some (.answer .done)) [.take v]
  | closed (k : Nat) : Signifies (.call .closed, some (.answer (.closed (k != 0)))) [.hear k]

/-- The events that end a call; the element at a pointer may also be read later. -/
def ends : Event α → Bool
  | .send _ | .refuse | .notify | .empty | .take _ | .hear _ => true
  | .ack _ | .arrive _ | .glance _ | .peek _ => false

/-- What the clients are told with a step goes with its events. -/
structure Tells (r : Ring) (s : State α) (l : Label α) (t : State α) : Prop where
  answers : ∀ k ∈ reports s t, Signifies k (events r s l)
  answered : ∀ x ∈ events r s l, ends x = true → ∃ k ∈ reports s t, Signifies k [x]

/-- The producer knows of no pop but those it has loaded, and every store of `closed_` after the
constructor's is a `close()`. -/
structure Attuned (s : State α) : Prop where
  owned : Owned Loc.owner s.memory
  acked : (s.memory.view .producer).stamp .popCursor = s.acked
  flags : ∃ n, s.flags = false :: List.replicate n true
  fresh : s.Fresh

section Attuned

variable {e : Encoding r} {s t : State α}

theorem Move.owned {l : Label α} (move : Move e s l t) (sync : Synchronizes r)
    (owned : Owned Loc.owner s.memory) : Owned Loc.owner t.memory := by
  cases move with
  | loadPush i mode v f m at_pc load | loadPop i x f m at_pc load | frontLoadPop i m at_pc load
  | frontLoadPush i pop x m at_pc load | popLoadPop i m at_pc load
  | popAssert i pop x m at_pc load | loadClosed i b m at_pc load => exact owned.load load
  | construct | destroy => exact owned.perform _
  | publish | storeClosed | giveBack => exact owned.store rfl sync.releases
  | _ => exact owned

theorem Move.flags {l : Label α} (move : Move e s l t) {n : Nat}
    (flags : s.flags = false :: List.replicate n true) :
    ∃ n, t.flags = false :: List.replicate n true := by
  cases move with
  | loadPush i mode v f m at_pc load | loadPop i x f m at_pc load | frontLoadPop i m at_pc load
  | frontLoadPush i pop x m at_pc load | popLoadPop i m at_pc load
  | popAssert i pop x m at_pc load | loadClosed i b m at_pc load =>
    exact ⟨n, (flags_load load).trans flags⟩
  | publish | giveBack => exact ⟨n, (flags_store (by decide)).trans flags⟩
  | storeClosed =>
    refine ⟨n + 1, ?_⟩
    rw [State.flags, flags_close, flags, List.replicate_succ', List.cons_append]
  | _ => exact ⟨n, flags⟩

theorem Move.attuned {l : Label α} (move : Move e s l t) (sync : Synchronizes r)
    (attuned : Attuned s) : Attuned t := by
  obtain ⟨n, flags⟩ := attuned.flags
  refine ⟨move.owned sync attuned.owned, ?_, move.flags flags, move.fresh attuned.fresh⟩
  have acked := attuned.acked
  cases move with
  | emplace v at_pc | tryEmplace v at_pc | close at_pc | cacheFull i f at_pc | cacheRoom i f at_pc
  | loadedSpin i f pop at_pc | loadedFull i f pop at_pc | loadedRoom i f pop at_pc
  | recheckFull i f at_pc | recheckRoom i f at_pc | threw f at_pc =>
    simpa [State.acked, at_pc] using acked
  | loadedCache i f pop at_pc =>
    cases mode : f.mode <;> simpa [State.acked, at_pc, mode] using acked
  | loadPush i mode v f m at_pc load =>
    have same := attuned.owned.load_own load rfl .popCursor
    cases cached : r.cached <;> simpa [State.acked, at_pc, same] using acked
  | loadPop i x f m at_pc load => exact attuned.owned.load_stamp load
  | construct i f at_pc =>
    simpa [State.acked, at_pc, Memory.perform] using acked
  | publish i f at_pc | storeClosed i at_pc =>
    simpa [State.acked, at_pc, Memory.store] using acked
  | frontLoadPop i m at_pc load | frontLoadPush i pop x m at_pc load | popLoadPop i m at_pc load
  | popAssert i pop x m at_pc load | loadClosed i b m at_pc load =>
    have same := load_view_other load (b := .producer) (by decide)
    simpa [State.acked, same] using acked
  | destroy => simpa [State.acked, Memory.perform] using acked
  | giveBack => simpa [State.acked, Memory.store] using acked
  | _ => exact acked

end Attuned

end RingBuffers.Spsc
