import RingBuffers.Spsc.Moves

/-! `closed()` before `front()`. A producer that closes the buffer last publishes with
`closed_` everything it has pushed; a consumer that has read true from `closed_` can no longer
load an older `pushCursor_`, so a null `front()` that it calls afterwards tells the truth. -/
namespace RingBuffers.Spsc
open ReleaseAcquire Transition

variable {α : Type} {r : Ring}

def closesLast (s : State α) : Label α → Bool
  | .emplace _ | .tryEmplace _ | .close => (s.memory.history .closed).length == 1
  | _ => true

/-- What a message of `closed_` publishes when the producer closes last. -/
structure Closing (s : State α) : Prop where
  started : 0 < (s.memory.history .closed).length
  late : ∀ msg ∈ s.memory.history .closed, msg.value = true →
    1 < (s.memory.history .closed).length
  published : ∀ msg ∈ s.memory.history .closed, msg.value = true →
    s.pushed.length ≤ msg.view.stamp .pushCursor
  done : 1 < (s.memory.history .closed).length → s.producer = .idle
  told : s.consumerResult = some (.closed true) → 1 < (s.memory.history .closed).length ∧
    s.pushed.length ≤ (s.memory.view .consumer).stamp .pushCursor

/-- What a consumer that knows of all `pushes` has loaded since. -/
def Fresh (pushes cache : Nat) : ConsumerPC α → Prop
  | .frontLoaded _ push => pushes ≤ push.stamp
  | .frontRecheck _ => pushes ≤ cache
  | _ => True

/-- The consumer knows of every push: whatever it has loaded since is the last `pushCursor_`. -/
structure Told (s : State α) : Prop where
  closed : 1 < (s.memory.history .closed).length
  seen : s.pushed.length ≤ (s.memory.view .consumer).stamp .pushCursor
  fresh : Fresh s.pushed.length s.pushCursorCache.stamp s.consumer
  null : s.consumerResult = some (.front none) → s.consumed.length = s.pushed.length

section Closing

variable {e : Encoding r} {s t : State α}

theorem closing_start : Closing (start α) where
  started := Nat.zero_lt_one
  late := by
    intro msg mem value
    rw [List.mem_singleton.mp mem] at value
    cases value
  published := by
    intro msg mem value
    rw [List.mem_singleton.mp mem] at value
    cases value
  done := by intro impossible; cases impossible with | step h => cases h
  told := by intro impossible; cases impossible

theorem Closing.keep (closing : Closing s) (grows : View.Le (s.memory.view .consumer)
      (t.memory.view .consumer))
    (history : t.memory.history .closed = s.memory.history .closed) (pushed : t.pushed = s.pushed)
    (producer : s.producer = .idle → t.producer = .idle)
    (result : t.consumerResult = some (.closed true) → s.consumerResult = some (.closed true)) :
    Closing t where
  started := history ▸ closing.started
  late := history ▸ closing.late
  published := by
    rw [history, pushed]
    exact closing.published
  done := by
    rw [history]
    exact fun late => producer (closing.done late)
  told := by
    intro answer
    obtain ⟨late, seen⟩ := closing.told (result answer)
    rw [history, pushed]
    exact ⟨late, seen.trans (grows.stamp .pushCursor)⟩

theorem Closing.open_of_busy (closing : Closing s) (busy : s.producer ≠ .idle) :
    (s.memory.history .closed).length = 1 := by
  have started := closing.started
  by_contra more
  exact busy (closing.done (by omega))

theorem Closing.open_published (closing : Closing s)
    (one : (s.memory.history .closed).length = 1) :
    ∀ msg ∈ s.memory.history .closed, msg.value ≠ true := by
  intro msg mem value
  have late := closing.late msg mem value
  omega

theorem Closing.publish (closing : Closing s) (busy : s.producer ≠ .idle) {v : α} {x : Nat} :
    Closing { s with
      memory := s.memory.store .producer .pushCursor r.store x
      producer := .idle
      pushResult := some .constructed
      pushed := s.pushed ++ [v] } := by
  have one := closing.open_of_busy busy
  have history : (s.memory.store .producer .pushCursor r.store x).history .closed =
      s.memory.history .closed := store_history_other (by decide)
  have never := closing.open_published one
  constructor
  · exact history ▸ closing.started
  · exact history ▸ closing.late
  · intro msg mem value
    exact absurd value (never msg (history ▸ mem))
  · intro _
    rfl
  · intro answer
    have late := (closing.told answer).1
    omega

theorem Closing.close (closing : Closing s) (inv : Inv e s) (sync : Synchronizes r)
    (at_pc : s.producer = .storeClosed) :
    Closing { s with
      memory := s.memory.store .producer .closed r.store true, producer := .idle } := by
  have one := closing.open_of_busy (by rw [at_pc]; intro h; cases h)
  have never := closing.open_published one
  have own := inv.ownPush
  constructor
  · simp
  · intro _ _ _
    simp [one]
  · intro msg mem value
    rw [store_history_self, sync.releases] at mem
    rcases List.mem_append.mp mem with old | new
    · exact absurd value (never msg old)
    · rw [List.mem_singleton.mp new]
      simpa using own
  · intro _
    rfl
  · intro answer
    have late := (closing.told answer).1
    omega

theorem Closing.load_true (closing : Closing s) (sync : Synchronizes r) {i : Nat} {m : Atomics α}
    (load : s.memory.load .consumer .closed r.other i = some (true, m)) :
    1 < (s.memory.history .closed).length ∧
      s.pushed.length ≤ (m.view .consumer).stamp .pushCursor := by
  obtain ⟨_, msg, at_i, value, rfl⟩ := load_eq_some.mp load
  have mem := List.mem_of_getElem? at_i
  refine ⟨closing.late msg mem value, (closing.published msg mem value).trans ?_⟩
  simp only [Memory.take, sync.acquires, if_true, Function.update_self, View.join]
  exact Nat.le_max_right _ _

theorem Move.closing {l : Label α} (move : Move e s l t) (inv : Inv e s) (sync : Synchronizes r)
    (last : closesLast s l = true) (closing : Closing s) : Closing t := by
  have same := View.Le.refl (s.memory.view .consumer)
  cases move with
  | emplace v idle | tryEmplace v idle | close idle =>
    have one : (s.memory.history .closed).length = 1 := by simpa [closesLast] using last
    exact { closing with done := by intro late; simp only at late; omega }
  | front | pop | closed => exact closing.keep same rfl rfl id (by intro h; cases h)
  | read => exact closing
  | loadPush i mode v f m at_pc load | loadPop i x f m at_pc load =>
    exact closing.keep (load_grows load .consumer) (congrFun (load_history load) _) rfl
      (by rw [at_pc]; intro h; cases h) id
  | cacheFull i f at_pc | cacheRoom i f at_pc | loadedCache i f pop at_pc | loadedSpin i f pop at_pc
  | loadedFull i f pop at_pc | loadedRoom i f pop at_pc | recheckFull i f at_pc
  | recheckRoom i f at_pc | threw f at_pc =>
    exact closing.keep same rfl rfl (by rw [at_pc]; intro h; cases h) id
  | construct i f at_pc =>
    exact closing.keep (perform_grows _ Agent.consumer) rfl rfl (by rw [at_pc]; intro h; cases h) id
  | publish i f at_pc => exact closing.publish (by rw [at_pc]; intro h; cases h)
  | storeClosed i at_pc => exact closing.close inv sync at_pc
  | frontLoadPop i m at_pc load | frontLoadPush i pop x m at_pc load
  | popLoadPop i m at_pc load | popAssert i pop x m at_pc load =>
    exact closing.keep (load_grows load .consumer) (congrFun (load_history load) _) rfl id id
  | frontCacheEmpty | frontLoadedCache => exact closing.keep same rfl rfl id id
  | frontCacheHit | frontLoadedNull | frontLoadedHit | frontNull | frontHit =>
    exact closing.keep same rfl rfl id (by intro h; cases h)
  | destroy => exact closing.keep (perform_grows _ Agent.consumer) rfl rfl id id
  | giveBack =>
    exact closing.keep (store_grows Agent.consumer) (store_history_other (by decide)) rfl id
      (by intro h; cases h)
  | loadClosed i b m at_pc load =>
    have history := congrFun (load_history load) .closed
    refine { closing.keep (t := { s with memory := m, consumer := .idle, consumerResult := none })
      (load_grows load .consumer) history rfl id (by intro h; cases h) with told := ?_ }
    intro answer
    cases answer
    rw [history]
    exact closing.load_true sync load

theorem Told.keep (told : Told s)
    (grows : View.Le (s.memory.view .consumer) (t.memory.view .consumer))
    (history : t.memory.history .closed = s.memory.history .closed) (pushed : t.pushed = s.pushed)
    (fresh : Fresh s.pushed.length t.pushCursorCache.stamp t.consumer)
    (null : t.consumerResult = some (.front none) → t.consumed.length = s.pushed.length) :
    Told t where
  closed := history ▸ told.closed
  seen := by
    rw [pushed]
    exact told.seen.trans (grows.stamp .pushCursor)
  fresh := pushed ▸ fresh
  null := pushed ▸ null

theorem Move.told {l : Label α} (move : Move e s l t) (inv : Inv e s)
    (last : closesLast s l = true) (closing : Closing s) (told : Told s) : Told t := by
  have same := View.Le.refl (s.memory.view .consumer)
  have idle := closing.done told.closed
  have closed := told.closed
  have ordered := inv.ordered
  have fresh := told.fresh
  cases move with
  | emplace | tryEmplace | close =>
    have one : (s.memory.history .closed).length = 1 := by simpa [closesLast] using last
    omega
  | read => exact told
  -- the producer has made its last call
  | loadPush i mode v f m at_pc | loadPop i x f m at_pc | cacheFull i f at_pc
  | cacheRoom i f at_pc | loadedCache i f pop at_pc | loadedSpin i f pop at_pc
  | loadedFull i f pop at_pc | loadedRoom i f pop at_pc | recheckFull i f at_pc
  | recheckRoom i f at_pc | threw f at_pc | construct i f at_pc | publish i f at_pc
  | storeClosed i at_pc =>
    rw [idle] at at_pc
    cases at_pc
  | front | pop | closed =>
    exact told.keep same rfl rfl trivial (by intro h; cases h)
  | frontLoadPop i m at_pc load =>
    refine told.keep (load_grows load .consumer) (congrFun (load_history load) _) rfl ?_ told.null
    cases r.cached <;> trivial
  | popLoadPop i m at_pc load =>
    refine told.keep (load_grows load .consumer) (congrFun (load_history load) _) rfl ?_ told.null
    cases r.ndebug <;> trivial
  | frontLoadPush i pop x m at_pc load =>
    -- the acquire that read true bounds every later load from below
    exact told.keep (load_grows load .consumer) (congrFun (load_history load) _) rfl
      (told.seen.trans (load_value load).1) told.null
  | popAssert i pop x m at_pc load =>
    exact told.keep (load_grows load .consumer) (congrFun (load_history load) _) rfl trivial
      told.null
  | frontCacheEmpty => exact told.keep same rfl rfl trivial told.null
  | frontLoadedCache i pop push at_pc =>
    rw [at_pc] at fresh
    exact told.keep same rfl rfl fresh told.null
  | frontCacheHit | frontLoadedHit | frontHit =>
    exact told.keep same rfl rfl trivial (by intro h; cases h)
  | frontLoadedNull i pop push at_pc cached empty =>
    rw [at_pc] at fresh
    have known : s.pushed.length ≤ push.stamp := fresh
    exact told.keep same rfl rfl trivial (fun _ => by simp only; omega)
  | frontNull i pop at_pc empty =>
    rw [at_pc] at fresh
    have known : s.pushed.length ≤ s.pushCursorCache.stamp := fresh
    exact told.keep same rfl rfl trivial (fun _ => by simp only; omega)
  | destroy => exact told.keep (perform_grows _ Agent.consumer) rfl rfl trivial told.null
  | giveBack =>
    exact told.keep (store_grows Agent.consumer) (store_history_other (by decide)) rfl trivial
      (by intro h; cases h)
  | loadClosed i b m at_pc load =>
    exact told.keep (load_grows load .consumer) (congrFun (load_history load) _) rfl trivial
      (by intro h; cases h)

theorem Move.pushed_of_idle {l : Label α} (move : Move e s l t) (idle : s.producer = .idle) :
    t.pushed = s.pushed := by
  cases move with
  | publish i f at_pc =>
    rw [idle] at at_pc
    cases at_pc
  | _ => rfl

end Closing

theorem run_closing (e : Encoding r) (sync : Synchronizes r) {ls : List (Label α)} {s : State α}
    (run : Run (step r) (fun s l => closesLast s l = true ∧ frontFirst s l = true) (start α)
      ls s) : Inv e s ∧ Closing s := by
  apply run.invariant (fun s => Inv e s ∧ Closing s) _ ⟨inv_start e, closing_start⟩
  rintro s l t ⟨inv, closing⟩ ⟨last, contract⟩ h
  have move := step_move inv sync contract h
  exact ⟨move.inv inv sync, move.closing inv sync last closing⟩

theorem run_told (e : Encoding r) (sync : Synchronizes r) {ls : List (Label α)} {s t : State α}
    (inv : Inv e s) (closing : Closing s) (told : Told s)
    (run : Run (step r) (fun s l => closesLast s l = true ∧ frontFirst s l = true) s ls t) :
    Inv e t ∧ Closing t ∧ Told t ∧ t.pushed = s.pushed := by
  apply run.invariant (fun t => Inv e t ∧ Closing t ∧ Told t ∧ t.pushed = s.pushed) _
    ⟨inv, closing, told, rfl⟩
  rintro t l u ⟨inv, closing, told, same⟩ ⟨last, contract⟩ h
  have move := step_move inv sync contract h
  refine ⟨move.inv inv sync, move.closing inv sync last closing,
    move.told inv last closing told, ?_⟩
  rw [← same]
  exact move.pushed_of_idle (closing.done told.closed)

/-- `closed()` before `front()` is a sound test: a null `front()` called after `closed()` has
returned true means that everything ever pushed has been popped, in order. -/
theorem spsc_drained (env : Environment) (n : Nat) (r : Ring)
    (made : spscBuffer.construct env n = .ok r) (fits : n + 1 + 2 * env.padding < sizeModulus)
    (ls ks : List (Label α)) (s t : State α)
    (run : Run (step r) (fun s l => closesLast s l = true ∧ frontFirst s l = true) (start α) ls s)
    (idle : s.consumer = .idle) (told : s.consumerResult = some (.closed true))
    (rest : Run (step r) (fun s l => closesLast s l = true ∧ frontFirst s l = true) s ks t)
    (null : t.consumerResult = some (.front none)) :
    t.consumed = t.pushed ∧ ∀ us u,
      Run (step r) (fun s l => closesLast s l = true ∧ frontFirst s l = true) t us u →
        u.pushed = t.consumed := by
  have sync := spscBuffer_synchronizes made
  have e := spscBuffer_slack.encoding made (by omega)
  obtain ⟨inv, closing⟩ := run_closing e sync run
  obtain ⟨late, seen⟩ := closing.told told
  have fresh : Fresh s.pushed.length s.pushCursorCache.stamp s.consumer := by
    rw [idle]
    trivial
  have known : Told s := ⟨late, seen, fresh, by rw [told]; intro h; cases h⟩
  obtain ⟨inv', closing', known', _⟩ := run_told e sync inv closing known rest
  have drained : t.consumed = t.pushed := by
    rw [inv'.consumed, known'.null null, List.take_length]
  refine ⟨drained, ?_⟩
  intro us u after
  rw [(run_told e sync inv' closing' known' after).2.2.2, drained]

def closedAfterNull : List (Label Nat) :=
  [.front, .consumer 0, .consumer 0, .consumer 0, .consumer 0, .consumer 0,
    .emplace 7, .producer 0, .producer 0, .producer 0, .producer 0, .close, .producer 0,
    .closed, .consumer 1]

def drainedAfterClosed : List (Label Nat) :=
  [.front, .consumer 0, .consumer 0, .consumer 1, .consumer 0, .consumer 0, .read,
    .pop, .consumer 0, .consumer 1, .consumer 0, .consumer 0,
    .front, .consumer 1, .consumer 0, .consumer 1, .consumer 0, .consumer 0]

theorem spsc_drained_at_one : ∃ t : State Nat, (t.consumed = t.pushed ∧
    ∀ us u, Run (step (spscBuffer.ring .desktop 1))
      (fun s l => closesLast s l = true ∧ frontFirst s l = true) t us u → u.pushed = t.consumed) ∧
    t.pushed = [7] :=
  ⟨_, spsc_drained .desktop 1 _ rfl (by decide) closedAfterNull drainedAfterClosed _ _
    (Run.of_exec (by decide) (by decide)) (by rfl) (by decide)
    (Run.of_exec (by decide) (by decide)) (by decide), by decide⟩

end RingBuffers.Spsc
