import RingBuffers.Spsc.Moves

/-! The cached cursors lag behind the cursors they copy, on the safe side. The machine is run
with a note of how many stores a cursor had seen when it was loaded; the note travels with the
loaded value into the cache. -/
namespace RingBuffers.Spsc
open ReleaseAcquire Transition

variable {α : Type} {r : Ring}

def cachingClasses : List Class :=
  [spscBuffer, spscBufferStage3, spscBufferStage4, spscBufferStage5, spscBufferStage6,
    spscBufferCachedCursors]

/-- The number of completed stores of an atomic; its history starts with the initial value. -/
def State.stores (s : State α) (k : Loc) : Nat := (s.memory.history k).length - 1

/-- `popsLoaded` is the number of stores of `popCursor_` at the producer's last reload of it,
`popsCached` that at the reload whose value `popCursorCache_` holds; likewise for the consumer
and `pushCursor_`. -/
structure Noted (α : Type) where
  state : State α
  popsLoaded : Nat
  popsCached : Nat
  pushesLoaded : Nat
  pushesCached : Nat

def Noted.start (α : Type) : Noted α := ⟨Spsc.start α, 0, 0, 0, 0⟩

def Noted.note (x : Noted α) : Label α → Noted α
  | .producer _ => match x.state.producer with
    | .loadPopCursor _ => { x with popsLoaded := x.state.stores .popCursor }
    | .loaded _ _ => { x with popsCached := x.popsLoaded }
    | _ => x
  | .consumer _ => match x.state.consumer with
    | .frontLoadPush _ => { x with pushesLoaded := x.state.stores .pushCursor }
    | .frontLoaded _ _ => { x with pushesCached := x.pushesLoaded }
    | _ => x
  | _ => x

def Noted.step (r : Ring) (x : Noted α) (l : Label α) : Option (Noted α) :=
  (Spsc.step r x.state l).map fun t => { x.note l with state := t }

def ConsumerPC.popping : ConsumerPC α → Bool
  | .popLoadPop | .popAssert _ | .popDestroy _ | .popStore _ _ => true
  | _ => false

/-- Each cache is behind the cursor it copies and ahead of what its thread relies on; the four
stored cursors are the four counts as residues. -/
structure Conservative (r : Ring) (x : Noted α) : Prop where
  popCache : x.popsCached ≤ x.state.stores .popCursor
  middle : x.state.stores .popCursor ≤ x.pushesCached
  pushCache : x.pushesCached ≤ x.state.stores .pushCursor
  room : x.state.stores .pushCursor ≤ x.popsCached + r.capacity_ - 1
  covered : (x.state.held.isSome = true ∨ x.state.consumer.popping = true) →
    x.state.stores .popCursor < x.pushesCached
  pushCursor : x.state.memory.newest .pushCursor =
    some (x.state.stores .pushCursor % r.capacity_)
  popCursor : x.state.memory.newest .popCursor = some (x.state.stores .popCursor % r.capacity_)
  pushCursorCache : x.state.pushCursorCache.value = x.pushesCached % r.capacity_
  popCursorCache : x.state.popCursorCache.value = x.popsCached % r.capacity_
  below : ∀ v, x.state.memory.newest .pushCursor = some v ∨
    x.state.memory.newest .popCursor = some v ∨ x.state.pushCursorCache.value = v ∨
    x.state.popCursorCache.value = v → v < r.capacity_

structure Notes (e : Encoding r) (x : Noted α) : Prop where
  inv : Inv e x.state
  popCache : x.popsCached = x.state.popCursorCache.stamp
  pushCache : x.pushesCached = x.state.pushCursorCache.stamp
  loadedPop : ∀ f pop, x.state.producer = .loaded f pop → x.popsLoaded = pop.stamp
  loadedPush : ∀ pop push, x.state.consumer = .frontLoaded pop push → x.pushesLoaded = push.stamp

section Notes

variable {e : Encoding r} {x y : Noted α} {s : State α}

theorem notes_start (e : Encoding r) : Notes e (Noted.start α) :=
  ⟨inv_start e, rfl, rfl, (by intro f pop impossible; cases impossible),
    (by intro pop push impossible; cases impossible)⟩

theorem Inv.stores_push (inv : Inv e s) : s.stores .pushCursor = s.pushed.length := by
  rw [State.stores, inv.pushHistory.length, Nat.add_sub_cancel]

theorem Inv.stores_pop (inv : Inv e s) : s.stores .popCursor = s.consumed.length := by
  rw [State.stores, inv.popHistory.length, Nat.add_sub_cancel]

theorem Notes.step (notes : Notes e x) (sync : Synchronizes r) {l : Label α}
    (now : newest x.state l = true) (contract : frontFirst x.state l = true)
    (h : x.step r l = some y) : Notes e y := by
  obtain ⟨t, taken, rfl⟩ := Option.map_eq_some_iff.mp h
  have move := step_move notes.inv sync contract taken
  have inv := move.inv notes.inv sync
  have popCache := notes.popCache
  have pushCache := notes.pushCache
  have loadedPop := notes.loadedPop
  have loadedPush := notes.loadedPush
  cases move with
  | loadPop i x' f m at_pc load =>
    have current := notes.inv.newest_pop at_pc now
    simp only [Noted.note, at_pc]
    refine ⟨inv, popCache, pushCache, ?_, loadedPush⟩
    intro f' pop same
    cases same
    rw [notes.inv.stores_pop, current]
  | loadedCache i f pop at_pc =>
    simp only [Noted.note, at_pc]
    refine ⟨inv, loadedPop f pop at_pc, pushCache, ?_, loadedPush⟩
    intro f' pop' same
    cases mode : f.mode <;> simp [mode] at same
  | loadedSpin i f pop at_pc | loadedFull i f pop at_pc | loadedRoom i f pop at_pc =>
    simp only [Noted.note, at_pc]
    exact ⟨inv, loadedPop f pop at_pc, pushCache, (by intro f' pop' same; cases same), loadedPush⟩
  | frontLoadPush i pop x' m at_pc load =>
    have current := notes.inv.newest_push at_pc now
    simp only [Noted.note, at_pc]
    refine ⟨inv, popCache, pushCache, loadedPop, ?_⟩
    intro pop' push same
    cases same
    rw [notes.inv.stores_push, current]
  | frontLoadedCache i pop push at_pc | frontLoadedNull i pop push at_pc
  | frontLoadedHit i pop push at_pc =>
    simp only [Noted.note, at_pc]
    exact ⟨inv, popCache, loadedPush pop push at_pc, loadedPop,
      (by intro pop' push' same; cases same)⟩
  | emplace | tryEmplace | close =>
    exact ⟨inv, popCache, pushCache, (by intro f pop same; cases same), loadedPush⟩
  | front | pop | closed =>
    exact ⟨inv, popCache, pushCache, loadedPop, (by intro pop push same; cases same)⟩
  | read => exact notes
  | threw => exact ⟨inv, popCache, pushCache, (by intro f pop same; cases same), loadedPush⟩
  | loadPush i mode v f m at_pc =>
    simp only [Noted.note, at_pc]
    refine ⟨inv, popCache, pushCache, ?_, loadedPush⟩
    intro f' pop same
    cases cached : r.cached <;> simp [cached] at same
  | cacheFull i f at_pc | cacheRoom i f at_pc | recheckFull i f at_pc | recheckRoom i f at_pc
  | construct i f at_pc | publish i f at_pc | storeClosed i at_pc =>
    simp only [Noted.note, at_pc]
    exact ⟨inv, popCache, pushCache, (by intro f' pop same; cases same), loadedPush⟩
  | frontLoadPop i m at_pc =>
    simp only [Noted.note, at_pc]
    refine ⟨inv, popCache, pushCache, loadedPop, ?_⟩
    intro pop push same
    cases cached : r.cached <;> simp [cached] at same
  | popLoadPop i m at_pc =>
    simp only [Noted.note, at_pc]
    refine ⟨inv, popCache, pushCache, loadedPop, ?_⟩
    intro pop push same
    cases debug : r.ndebug <;> simp [debug] at same
  | frontCacheEmpty i pop at_pc | frontCacheHit i pop at_pc | frontNull i pop at_pc
  | frontHit i pop at_pc | popAssert i pop x' m at_pc | destroy i pop v at_pc
  | giveBack i pop v at_pc | loadClosed i b m at_pc =>
    simp only [Noted.note, at_pc]
    exact ⟨inv, popCache, pushCache, loadedPop, (by intro pop' push same; cases same)⟩

theorem Inv.covered_popping (inv : Inv e s)
    (shown : s.held.isSome = true ∨ s.consumer.popping = true) :
    s.consumed.length < s.pushCursorCache.stamp := by
  rcases shown with held | popping
  · obtain ⟨i, at_i⟩ := Option.isSome_iff_exists.mp held
    exact (inv.held i at_i).1
  · have ok := inv.consumer
    cases at_pc : s.consumer with
    | popLoadPop | popAssert | popDestroy | popStore =>
      rw [at_pc] at ok
      first | exact ok.2 | exact ok.2.1
    | _ => simp [at_pc, ConsumerPC.popping] at popping

theorem Notes.conservative {n : Nat} (e : Encoding r) (notes : Notes e x)
    (size : r.capacity_ = n + 1) (bound : e.bound = n)
    (cursor : ∀ k, e.cursor k = k % (n + 1)) : Conservative r x := by
  have inv := notes.inv
  have pushes := inv.stores_push
  have pops := inv.stores_pop
  have pushCursor : x.state.memory.newest .pushCursor =
      some (x.state.stores .pushCursor % r.capacity_) := by
    rw [inv.newest_pushCursor, cursor, pushes, size]
  have popCursor : x.state.memory.newest .popCursor =
      some (x.state.stores .popCursor % r.capacity_) := by
    rw [inv.newest_popCursor, cursor, pops, size]
  have pushCursorCache : x.state.pushCursorCache.value = x.pushesCached % r.capacity_ := by
    rw [inv.pushCache.value, cursor, notes.pushCache, size]
  have popCursorCache : x.state.popCursorCache.value = x.popsCached % r.capacity_ := by
    rw [inv.popCache.value, cursor, notes.popCache, size]
  exact {
    popCache := by
      rw [pops, notes.popCache]
      exact inv.behind
    middle := by
      rw [pops, notes.pushCache]
      exact inv.pushCache.low
    pushCache := by
      rw [pushes, notes.pushCache]
      exact inv.ahead
    room := by
      have room := inv.room
      rw [bound] at room
      rw [pushes, notes.popCache, size]
      exact room
    covered := by
      rw [pops, notes.pushCache]
      exact inv.covered_popping
    pushCursor := pushCursor
    popCursor := popCursor
    pushCursorCache := pushCursorCache
    popCursorCache := popCursorCache
    below := by
      have small : ∀ k, k % r.capacity_ < r.capacity_ := fun k =>
        Nat.mod_lt k (by rw [size]; exact Nat.succ_pos n)
      rw [pushCursor, popCursor, pushCursorCache, popCursorCache]
      rintro v (same | same | same | same)
      · exact Option.some.inj same ▸ small _
      · exact Option.some.inj same ▸ small _
      · exact same ▸ small _
      · exact same ▸ small _ }

end Notes

theorem cachingClasses_slack (c : Class) (member : c ∈ cachingClasses) :
    c.Slack ∧ c.other.acquires = true ∧ c.store.releases = true := by
  have all : ∀ c ∈ cachingClasses, (c.cursors = .modulus ∨ c.cursors = .branch) ∧
      c.other.acquires = true ∧ c.store.releases = true := by decide
  exact all c member

/-- In every class with cached cursors and under every interleaving the caches are
conservative, also in the middle of a call. -/
theorem cached_cursors_conservative (env : Environment) (n : Nat) (c : Class)
    (member : c ∈ cachingClasses) (r : Ring) (made : c.construct env n = .ok r)
    (fits : c.Fits env n) (ls : List (Label α)) (x : Noted α)
    (run : Run (Noted.step r)
      (fun x l => newest x.state l = true ∧ frontFirst x.state l = true)
      (Noted.start α) ls x) : Conservative r x := by
  obtain ⟨slack, acquires, releases⟩ := cachingClasses_slack c member
  have kind := (construct_ok made).2.2
  have sync : Synchronizes r := by
    rw [kind]
    exact ⟨acquires, releases⟩
  have notes : Notes (slack.encoding made fits.capacity) x :=
    run.invariant (Notes _) (fun _ _ _ notes admitted h => notes.step sync admitted.1 admitted.2 h)
      (notes_start _)
  have size : r.capacity_ = n + 1 := by
    rw [kind]
    exact slack.capacity fits.capacity
  exact notes.conservative _ size rfl (fun _ => rfl)

/-- A push, a pop and a push into a buffer of capacity one, stopped at the reload that finds
the first element gone. -/
def midReload : List (Label Nat) :=
  [.emplace 7, .producer 0, .producer 0, .producer 0, .producer 0,
    .front, .consumer 0, .consumer 0, .consumer 1, .consumer 0, .consumer 0,
    .pop, .consumer 0, .consumer 1, .consumer 0, .consumer 0,
    .tryEmplace 8, .producer 1, .producer 0, .producer 1]

theorem cached_cursors_conservative_at_one : ∃ x : Noted Nat,
    Conservative (spscBuffer.ring .desktop 1) x ∧ x.popsCached = 0 ∧ x.popsLoaded = 1 ∧
      x.pushesCached = 1 :=
  ⟨_, cached_cursors_conservative .desktop 1 spscBuffer List.mem_cons_self _ rfl (by decide)
    midReload _ (Run.of_exec (by decide) (by decide)), by decide, by decide, by decide⟩

end RingBuffers.Spsc
