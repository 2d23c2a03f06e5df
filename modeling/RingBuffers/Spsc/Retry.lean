import RingBuffers.Spsc.Lockstep

/-! `emplace` is `try_emplace` retried: beside the lockstep of the two, when a push finds room and
how often it reloads `popCursor_` for that. -/
namespace RingBuffers.Spsc
open ReleaseAcquire Transition

variable {α : Type}

/-- `emplace(v)` called in `s` on a buffer of capacity `n`. -/
structure RetriesExactly (r : Ring) (n : Nat) (s : State α) (v : α) : Prop where
  together : ∀ ls, (∀ l ∈ ls, l.running = true) →
    Along (step r) (fun s l => frontFirst s l = true) s (.emplace v :: ls) →
    Option.Rel Together (exec (step r) s (.emplace v :: ls))
        (exec (retryStep r v) s (.tryEmplace v :: ls)) ∧
      reloads (step r) s (.emplace v :: ls) = reloads (retryStep r v) s (.tryEmplace v :: ls)
  returns : ∀ ls t, (∀ l ∈ ls, l.running = true) →
    Run (step r) (fun s l => frontFirst s l = true) s (.emplace v :: ls) t → t.exited = true →
    ∃ (ks : List Nat) (u : State α), ks.length ≤ 2 ∧ exec (step r) t (ks.map .producer) = some u ∧
      u.producer = .idle
  room : s.queue.length < n →
    (∃ (ks : List Nat) (t : State α), t.exited = true ∧
      Run (step r) (fun s l => current s l = true) s (.emplace v :: ks.map .producer) t) ∧
    ∀ ls, (∀ l ∈ ls, l.running = true) →
      Along (step r) (fun s l => frontFirst s l = true ∧ current s l = true) s
        (.emplace v :: ls) →
      (reloads (step r) s (.emplace v :: ls)).length ≤ 1
  full : s.queue.length = n → ∀ ls t, (∀ l ∈ ls, l.running = true) →
    Run (step r) (fun s l => frontFirst s l = true) s (.emplace v :: ls) t → t.exited = true →
    (s.memory.history .popCursor).length < (t.memory.history .popCursor).length

section Progress

variable {r : Ring} {e : Encoding r} {s t u : State α}

theorem step_publish {f : Frame α} (sound : s.fault = none)
    (at_pc : s.producer = .storePushCursor f) (i : Nat) :
    ∃ t, step r s (.producer i) = some t ∧ t.producer = .idle := by
  simp [step, sound, producerStep, at_pc]

theorem Inv.step_construct (inv : Inv e s) {f : Frame α} (at_pc : s.producer = .construct f)
    (i : Nat) : ∃ t, step r s (.producer i) = some t ∧ t.fault = none ∧
      t.producer = .storePushCursor f := by
  obtain ⟨slot, free⟩ := inv.construct_slot at_pc
  simp [step, inv.sound, producerStep, at_pc, constructAt, slot, free]

theorem Inv.returns_soon (inv : Inv e s) (exited : s.exited = true) :
    ∃ (ks : List Nat) (t : State α), ks.length ≤ 2 ∧ exec (step r) s (ks.map .producer) = some t ∧
      t.producer = .idle := by
  cases at_pc : s.producer with
  | idle => exact ⟨[], s, by decide, rfl, at_pc⟩
  | construct f =>
    obtain ⟨t, built, sound, at_store⟩ := inv.step_construct at_pc 0
    obtain ⟨u, stored, idle⟩ := step_publish (r := r) sound at_store 0
    exact ⟨[0, 0], u, by decide, by simp [exec, built, stored], idle⟩
  | storePushCursor f =>
    obtain ⟨u, stored, idle⟩ := step_publish (r := r) inv.sound at_pc 0
    exact ⟨[0], u, by decide, by simp [exec, stored], idle⟩
  | _ => simp [State.exited, at_pc] at exited

/-- What a push adds: nothing while it runs, its element once it has returned. -/
structure Fills (v : α) (s t : State α) : Prop where
  running : t.producer ≠ .idle → t.pushed = s.pushed
  returned : t.producer = .idle → t.pushed = s.pushed ++ [v]

theorem Mirrors.place {v : α} (mirrors : Mirrors v t u) :
    t.producer ≠ .storeClosed ∧ (∀ f, t.producer ≠ .recheck f) ∧
      ∀ f, t.producer = .storePushCursor f → f.value = v := by
  have twin := mirrors.twin
  generalize t.pushResult = res at twin
  generalize t.producer = pc at twin
  generalize u.producer = pc' at twin
  cases twin <;> simp

theorem Move.fills {v : α} {l : Label α} (move : Move e t l u) (cached : r.cached = true)
    (running : l.running = true) {w : State α} (mirrors : Mirrors v t w) (fills : Fills v s t) :
    Fills v s u := by
  obtain ⟨notClosing, notRechecking, pushes⟩ := mirrors.place
  have busy : ∀ {pc}, t.producer = pc → pc ≠ .idle → t.pushed = s.pushed := by
    intro pc at_pc ne
    exact fills.running (at_pc ▸ ne)
  cases move with
  | emplace | tryEmplace | close | threw => cases running
  | publish i f at_pc =>
    have same := busy at_pc (by intro h; cases h)
    refine ⟨fun ne => absurd rfl ne, fun _ => ?_⟩
    rw [same, pushes f at_pc]
  | storeClosed i at_pc => exact absurd at_pc notClosing
  | recheckFull i f at_pc | recheckRoom i f at_pc => exact absurd at_pc (notRechecking f)
  | loadedSpin i f pop at_pc bare | loadedFull i f pop at_pc bare | loadedRoom i f pop at_pc bare =>
    rw [cached] at bare
    cases bare
  | loadPush i mode v f m at_pc =>
    have same := busy at_pc (by intro h; cases h)
    rw [cached]
    exact ⟨fun _ => same, by intro h; cases h⟩
  | loadedCache i f pop at_pc =>
    have same := busy at_pc (by intro h; cases h)
    refine ⟨fun _ => same, ?_⟩
    cases f.mode <;> simp
  | loadPop i x f m at_pc | cacheFull i f at_pc | cacheRoom i f at_pc | construct i f at_pc =>
    have same := busy at_pc (by intro h; cases h)
    exact ⟨fun _ => same, by intro h; cases h⟩
  | _ => exact ⟨fills.running, fills.returned⟩

structure Pushing (e : Encoding r) (v : α) (s t : State α) : Prop where
  inv : Inv e t
  mirrored : ∃ w, Mirrors v t w
  fills : Fills v s t

theorem Inv.pushing (inv : Inv e s) (idle : s.producer = .idle) (v : α) :
    Pushing e v s (s.calling .emplace v) where
  inv := inv.calling idle _ v
  mirrored := ⟨s.calling .tryEmplace v, .loadPushCursor, rfl⟩
  fills := ⟨fun _ => rfl, by intro h; cases h⟩

theorem Pushing.step {v : α} (pushing : Pushing e v s t) (shape : Caching r) {l : Label α}
    (contract : frontFirst t l = true) (running : l.running = true)
    (moved : step r t l = some u) : Pushing e v s u := by
  obtain ⟨inv, ⟨w, mirrors⟩, fills⟩ := pushing
  have move := step_move inv shape.toSynchronizes contract moved
  refine ⟨move.inv inv shape.toSynchronizes, ?_, move.fills shape.cached running mirrors fills⟩
  have both := mirrors.step inv shape contract running
  rw [moved] at both
  rcases rel_cases both with ⟨stuck, _⟩ | ⟨u', w', same, _, _, still⟩
  · cases stuck
  · cases same
    exact ⟨w', still⟩

theorem Pushing.exited {v : α} (pushing : Pushing e v s t) (exited : t.exited = true) :
    s.pushed.length < t.consumed.length + e.bound := by
  have ok := pushing.inv.producer
  have behind := pushing.inv.behind
  have bounded := pushing.inv.bounded
  cases at_pc : t.producer with
  | idle =>
    have added := congrArg List.length (pushing.fills.returned at_pc)
    rw [List.length_append, List.length_singleton] at added
    omega
  | construct f | storePushCursor f =>
    have same := congrArg List.length (pushing.fills.running (by rw [at_pc]; intro h; cases h))
    rw [at_pc] at ok
    have room := ok.2
    omega
  | _ => simp [State.exited, at_pc] at exited

theorem Inv.run_emplace (inv : Inv e s) (idle : s.producer = .idle) {v : α}
    {P : State α → Label α → Prop} {ls : List (Label α)} (running : ∀ l ∈ ls, l.running = true)
    (run : Run (step r) P s (.emplace v :: ls) t) :
    Run (step r) (fun s l => P s l ∧ l.running = true) (s.calling .emplace v) ls t := by
  obtain ⟨_, u, call, rest⟩ := (run_cons _ _ _ _).mp run
  have called := inv.step_call idle .emplace v
  rw [Mode.call, call] at called
  cases called
  exact ⟨rest.ends, rest.obeys.labels (fun l => l.running = true) running⟩

theorem Inv.run_pushing (inv : Inv e s) (shape : Caching r) (idle : s.producer = .idle) {v : α}
    {ls : List (Label α)} (running : ∀ l ∈ ls, l.running = true)
    (run : Run (Spsc.step r) (fun s l => frontFirst s l = true) s (.emplace v :: ls) t) :
    Pushing e v s t := by
  apply (inv.run_emplace idle running run).invariant (Pushing e v s) _ (inv.pushing idle v)
  intro t l u pushing admitted moved
  exact pushing.step shape admitted.1 admitted.2 moved

/-- The push does not need to read `popCursor_` any more. -/
def Served (e : Encoding r) (s : State α) : Prop :=
  match s.producer with
  | .loaded _ pop => s.pushed.length < pop.stamp + e.bound
  | .readCache _ | .recheck _ => s.pushed.length < s.popCursorCache.stamp + e.bound
  | .construct _ | .storePushCursor _ | .idle => True
  | _ => False

theorem Served.reload_eq (served : Served e s) (l : Label α) : reload s l = none := by
  unfold Served at served
  cases l with
  | producer i =>
    cases at_pc : s.producer with
    | loadPopCursor f => simp [at_pc] at served
    | _ => simp [reload, at_pc]
  | _ => rfl

theorem Move.served {l : Label α} (move : Move e s l t) (running : l.running = true)
    (served : Served e s) : Served e t := by
  unfold Served at served
  cases move with
  | emplace | tryEmplace | close | threw => cases running
  | loadPush i mode v f m at_pc | loadPop i x f m at_pc | storeClosed i at_pc =>
    simp [at_pc] at served
  | cacheFull i f at_pc full =>
    simp only [at_pc] at served
    omega
  | loadedSpin i f pop at_pc _ _ full =>
    simp only [at_pc] at served
    omega
  | loadedCache i f pop at_pc =>
    simp only [at_pc] at served
    cases mode : f.mode <;> simpa [Served] using served
  | cacheRoom | construct | publish | loadedFull | loadedRoom | recheckFull | recheckRoom =>
    trivial
  | _ => exact served

/-- A slot is free that the push may not know of yet. -/
def Roomy (e : Encoding r) (s : State α) : Prop := s.pushed.length < s.consumed.length + e.bound

theorem Move.roomy {l : Label α} (move : Move e s l t) (roomy : Roomy e s) :
    Served e t ∨ Roomy e t := by
  cases move with
  | publish => exact .inl trivial
  | giveBack i pop v at_pc =>
    refine .inr ?_
    simp only [Roomy, List.length_append, List.length_singleton] at roomy ⊢
    omega
  | _ => exact .inr roomy

theorem Move.reloaded {l : Label α} {i : Nat} (move : Move e s l t) (inv : Inv e s)
    (fresh : current s l = true) (roomy : Roomy e s) (reloads : reload s l = some i) :
    Served e t := by
  have length := inv.popHistory.length
  rw [current, reloads] at fresh
  have last : i = s.consumed.length := by
    have := eq_of_beq fresh
    omega
  cases move with
  | loadPop j x f m at_pc =>
    have same : j = i := by simpa [reload, at_pc] using reloads
    subst same
    rw [last]
    exact roomy
  | emplace | tryEmplace | close | front | pop | closed | read | threw => cases reloads
  | loadPush j mode v f m at_pc | cacheFull j f at_pc | cacheRoom j f at_pc
  | loadedCache j f pop at_pc | loadedSpin j f pop at_pc | loadedFull j f pop at_pc
  | loadedRoom j f pop at_pc | recheckFull j f at_pc | recheckRoom j f at_pc
  | construct j f at_pc | publish j f at_pc | storeClosed j at_pc =>
    simp [reload, at_pc] at reloads
  | _ => cases reloads

theorem reloads_cons (f : State α → Label α → Option (State α)) (l : Label α)
    (ls : List (Label α)) :
    reloads f s (l :: ls) = (reload s l).toList ++ match f s l with
      | none => []
      | some t => reloads f t ls := by
  simp only [reloads, trace]
  cases reload s l <;> cases f s l <;> rfl

theorem Served.reloads_eq (served : Served e s) (inv : Inv e s) (sync : Synchronizes r)
    {ls : List (Label α)}
    (admitted : Along (step r) (fun s l => frontFirst s l = true ∧ l.running = true) s ls) :
    reloads (step r) s ls = [] := by
  induction ls generalizing s with
  | nil => rfl
  | cons l ls ih =>
    obtain ⟨⟨contract, running⟩, later⟩ := admitted
    rw [reloads_cons, served.reload_eq, Option.toList_none, List.nil_append]
    cases moved : step r s l with
    | none => rfl
    | some t =>
      rw [moved] at later
      have move := step_move inv sync contract moved
      exact ih (move.served running served) (move.inv inv sync) later

theorem Roomy.reloads_le (roomy : Roomy e s) (inv : Inv e s) (sync : Synchronizes r)
    {ls : List (Label α)}
    (admitted : Along (step r)
      (fun s l => (frontFirst s l = true ∧ current s l = true) ∧ l.running = true) s ls) :
    (reloads (step r) s ls).length ≤ 1 := by
  induction ls generalizing s with
  | nil => exact Nat.zero_le 1
  | cons l ls ih =>
    obtain ⟨⟨⟨contract, fresh⟩, running⟩, later⟩ := admitted
    rw [reloads_cons]
    cases moved : step r s l with
    | none => cases reload s l <;> simp
    | some t =>
      rw [moved] at later
      have move := step_move inv sync contract moved
      have inv' := move.inv inv sync
      have kept := later.imp (fun s l admitted =>
        (⟨admitted.1.1, admitted.2⟩ : frontFirst s l = true ∧ l.running = true))
      cases reads : reload s l with
      | none =>
        rcases move.roomy roomy with served | roomy'
        · simp [served.reloads_eq inv' sync kept]
        · exact ih roomy' inv' later
      | some i =>
        have served := move.reloaded inv fresh roomy reads
        simp [served.reloads_eq inv' sync kept]

theorem Inv.step_reload (inv : Inv e s) (shape : Caching r) {f : Frame α}
    (at_pc : s.producer = .loadPopCursor f) (mode : f.mode = .emplace) :
    ∃ t u, step r s (.producer s.consumed.length) = some t ∧ reload t (.producer 0) = none ∧
      step r t (.producer 0) = some u ∧ Inv e u ∧ u.producer = .readCache f ∧
      u.pushed = s.pushed ∧ u.popCursorCache.stamp = s.consumed.length := by
  have seen := (inv.views.agents .producer).popBound
  have length := inv.popHistory.length
  obtain ⟨x, m, load⟩ := load_isSome (o := r.other) seen (by omega)
  have loaded : step r s (.producer s.consumed.length) =
      some { s with memory := m, producer := .loaded f ⟨x, s.consumed.length⟩ } := by
    simp [step, inv.sound, producerStep, at_pc, load]
  have sync := shape.toSynchronizes
  have inv' := step_inv sync inv rfl loaded
  have cachedNow : step r { s with memory := m, producer := .loaded f ⟨x, s.consumed.length⟩ }
      (.producer 0) = some { s with
        memory := m
        popCursorCache := ⟨x, s.consumed.length⟩
        producer := .readCache f } := by
    simp [step, inv.sound, producerStep, afterLoad, shape.cached, mode]
  exact ⟨_, _, loaded, rfl, cachedNow, step_inv sync inv' rfl cachedNow, rfl, rfl, rfl⟩

theorem Inv.emplace_exits (inv : Inv e s) (shape : Caching r) (idle : s.producer = .idle)
    (roomy : Roomy e s) (v : α) :
    ∃ (ks : List Nat) (t : State α), t.exited = true ∧
      Run (step r) (fun s l => current s l = true) s (.emplace v :: ks.map .producer) t := by
  have call : step r s (.emplace v) = some (s.calling .emplace v) := inv.step_call idle .emplace v
  have own := inv.step_own shape .emplace v
  have test : step r (s.asProducer (.readCache (s.frame e .emplace v)) none) (.producer 0) =
      some (s.asProducer (if s.pushed.length = s.popCursorCache.stamp + e.bound then
        .loadPopCursor (s.frame e .emplace v) else .construct (s.frame e .emplace v)) none) :=
    (inv.reading idle .emplace v).step_test rfl 0
  by_cases full : s.pushed.length = s.popCursorCache.stamp + e.bound
  · rw [if_pos full] at test
    have spins := step_inv shape.toSynchronizes (inv.reading idle .emplace v) rfl test
    obtain ⟨t, u, loaded, quiet, cachedNow, inv', at_pc, pushed, stamp⟩ :=
      spins.step_reload shape rfl rfl
    have leaves := inv'.step_test at_pc 0
    have free : u.pushed.length ≠ u.popCursorCache.stamp + e.bound := by
      rw [pushed, stamp]
      exact Nat.ne_of_lt roomy
    rw [if_neg free] at leaves
    have last : current (s.asProducer (.loadPopCursor (s.frame e .emplace v)) none)
        (.producer s.consumed.length) = true := by
      simp [current, reload, State.asProducer, inv.popHistory.length]
    have run : Run (step r) (fun s l => current s l = true) s
        (.emplace v :: [(s.memory.history .pushCursor).length - 1, 0, s.consumed.length, 0,
          0].map .producer)
        { u with producer := .construct (s.frame e .emplace v) } := by
      refine Run.cons rfl call ?_
      refine Run.cons rfl own ?_
      refine Run.cons rfl test ?_
      refine Run.cons last loaded ?_
      refine Run.cons (by rw [current, quiet]) cachedNow ?_
      refine Run.cons (by rw [current, reload, at_pc]) leaves ?_
      exact Run.nil _
    exact ⟨_, _, rfl, run⟩
  · rw [if_neg full] at test
    have run : Run (step r) (fun s l => current s l = true) s
        (.emplace v :: [(s.memory.history .pushCursor).length - 1, 0].map .producer)
        (s.asProducer (.construct (s.frame e .emplace v)) none) := by
      refine Run.cons rfl call ?_
      refine Run.cons rfl own ?_
      refine Run.cons rfl test ?_
      exact Run.nil _
    exact ⟨_, _, rfl, run⟩

theorem Inv.retriesExactly (inv : Inv e s) (shape : Caching r) (idle : s.producer = .idle)
    (v : α) : RetriesExactly r e.bound s v where
  together ls running contract := inv.together shape idle v running contract
  returns ls t running run exited :=
    (inv.run_pushing shape idle running run).inv.returns_soon exited
  room := by
    intro free
    have ordered := inv.ordered
    rw [Inv.queue_length] at free
    have roomy : Roomy e s := by
      unfold Roomy
      omega
    refine ⟨inv.emplace_exits shape idle roomy v, ?_⟩
    intro ls running admitted
    have call : step r s (.emplace v) = some (s.calling .emplace v) := inv.step_call idle .emplace v
    obtain ⟨_, later⟩ := admitted
    rw [call] at later
    have called : Roomy e (s.calling .emplace v) := roomy
    rw [reloads_cons, call]
    exact called.reloads_le (inv.calling idle _ v) shape.toSynchronizes
      (later.labels (fun l => l.running = true) running)
  full := by
    intro full ls t running run exited
    have pushing := inv.run_pushing shape idle running run
    have found := pushing.exited exited
    have ordered := inv.ordered
    have before := inv.popHistory.length
    have after := pushing.inv.popHistory.length
    rw [Inv.queue_length] at full
    omega

end Progress

theorem spscBuffer_caching {env : Environment} {n : Nat} {r : Ring}
    (made : spscBuffer.construct env n = .ok r) : Caching r where
  toSynchronizes := spscBuffer_synchronizes made
  cached := by rw [(construct_ok made).2.2]; rfl
  relaxed := by rw [(construct_ok made).2.2]; rfl

/-- `emplace` is `try_emplace` retried: under each schedule of the consumer's steps and of the
stores that the reloads read, both find room at the same reload and leave the same buffer. With
a slot free one reload is enough, and a full buffer lets nothing in before the consumer has
stored a new `popCursor_`. -/
theorem emplace_retries_exactly (env : Environment) (n : Nat) (r : Ring)
    (made : spscBuffer.construct env n = .ok r) (fits : n + 1 + 2 * env.padding < sizeModulus)
    (ls : List (Label α)) (s : State α)
    (run : Run (step r) (fun s l => frontFirst s l = true) (start α) ls s)
    (idle : s.producer = .idle) (v : α) :
    RetriesExactly r n s v := by
  have shape := spscBuffer_caching made
  have inv := run_inv (spscBuffer_slack.encoding made (by omega)) shape.toSynchronizes run
  exact inv.retriesExactly shape idle v

def filledAtOne : List (Label Nat) :=
  [.emplace 7, .producer 0, .producer 0, .producer 0, .producer 0]

theorem emplace_retries_exactly_at_one : ∃ s : State Nat,
    RetriesExactly (spscBuffer.ring .desktop 1) 1 s 8 ∧ s.queue = [7] :=
  ⟨_, emplace_retries_exactly .desktop 1 _ rfl (by decide) filledAtOne _
    (Run.of_exec (by decide) (by decide)) (by rfl) 8, by decide⟩

end RingBuffers.Spsc
