import RingBuffers.Spsc.Moves

/-! The end of a transfer. The producer pushes a list of items and then closes the
buffer; the consumer runs the loop of the README, the stress test and the
benchmarks. The loop learns that the buffer is empty and that it is closed from two
separate loads, and what the producer does between them decides the outcome. -/
namespace RingBuffers.Spsc
open ReleaseAcquire Transition

variable {α : Type} {r : Ring}

/-- The loop of the consumer: `front()`; on a pointer use it and `pop()`; otherwise
`closed()`, which ends the loop or repeats it. -/
def consumerLoop (s : State α) : Label α → Bool
  | .front => match s.consumerResult with
    | none | some .popped | some (.closed false) => true
    | _ => false
  | .pop | .read => match s.consumerResult with
    | some (.front (some _)) => true
    | _ => false
  | .closed => match s.consumerResult with
    | some (.front none) => true
    | _ => false
  | _ => true

def State.flags (s : State α) : List Bool := (s.memory.history .closed).map Message.value

/-- The producer calls `push` for the next item, again if its constructor threw, and
calls `close` once, when nothing is left. -/
def producerScript (items : List α) (s : State α) : Label α → Prop
  | .emplace v => items[s.pushed.length]? = some v
  | .tryEmplace _ => False
  | .close => s.pushed.length = items.length ∧ s.flags = [false]
  | _ => True

instance decidableProducerScript [DecidableEq α] (items : List α) (s : State α) (l : Label α) :
    Decidable (producerScript items s l) := by
  cases l <;> simp only [producerScript] <;> infer_instance

/-- The runs in question: no load is stale and both clients follow their programs. -/
structure Transfer (items : List α) (s : State α) (l : Label α) : Prop where
  now : newest s l = true
  loop : consumerLoop s l = true
  script : producerScript items s l

instance decidableTransfer [DecidableEq α] (items : List α) (s : State α) (l : Label α) :
    Decidable (Transfer items s l) :=
  decidable_of_iff (newest s l = true ∧ consumerLoop s l = true ∧ producerScript items s l)
    ⟨fun h => ⟨h.1, h.2.1, h.2.2⟩, fun h => ⟨h.now, h.loop, h.script⟩⟩

def State.left (s : State α) : Bool :=
  match s.consumer, s.consumerResult with
  | .idle, some (.closed true) => true
  | _, _ => false

/-- The consumer has seen an empty buffer and has not yet loaded `closed_`. -/
def State.missed (s : State α) : Bool :=
  match s.consumer with
  | .frontLoaded pop push => decide (pop = push.value)
  | .frontRecheck pop => decide (pop = s.pushCursorCache.value)
  | .idle => decide (s.consumerResult = some (.front none))
  | .loadClosed => true
  | _ => false

/-- The store of `closed_` does not fall between the load that showed an empty buffer
and the load of `closed_`, unless the cursors still agree. -/
def closesInTime (s : State α) : Label α → Bool
  | .producer _ => match s.producer with
    | .storeClosed =>
      !s.missed || decide (s.memory.newest .pushCursor = s.memory.newest .popCursor)
    | _ => true
  | _ => true

def ProducerPC.item : ProducerPC α → Option α
  | .idle | .storeClosed => none
  | .loadPushCursor _ v => some v
  | .readCache f | .loadPopCursor f | .loaded f _ | .recheck f | .construct f
  | .storePushCursor f => some f.value

structure Script (items : List α) (s : State α) : Prop where
  pushed : s.pushed <+: items
  item : ∀ v, s.producer.item = some v → items[s.pushed.length]? = some v
  closing : s.producer = .storeClosed → s.pushed = items ∧ s.flags = [false]
  flags : s.flags = [false] ∨
    s.flags = [false, true] ∧ s.pushed = items ∧ s.producer = .idle
  told : s.consumerResult = some (.closed true) → s.flags = [false, true]
  pointer : ∀ i, s.consumerResult = some (.front (some i)) → s.held = some i

/-- The transfer is over: the buffer is closed and the consumer will look at it no more. -/
def State.Settled (s : State α) : Prop :=
  s.flags = [false, true] ∧ (s.missed = true ∨ s.left = true)

section Script

variable {e : Encoding r} {items : List α} {s t : State α}

theorem flags_load {a : Agent} {k : Loc} {o : Order} {i : Nat} {x : k.Val} {m : Atomics α}
    (h : s.memory.load a k o i = some (x, m)) :
    (m.history .closed).map Message.value = s.flags := by
  rw [load_history h]
  rfl

theorem flags_store {a : Agent} {k : Loc} {o : Order} {x : k.Val} (ne : Loc.closed ≠ k) :
    ((s.memory.store a k o x).history .closed).map Message.value = s.flags := by
  rw [store_history_other ne]
  rfl

theorem flags_close {a : Agent} {o : Order} :
    ((s.memory.store a .closed o true).history .closed).map Message.value =
      s.flags ++ [true] := by
  simp [State.flags]

theorem Script.start : Script items (start α) where
  pushed := List.nil_prefix
  item := by intro v impossible; cases impossible
  closing := by intro impossible; cases impossible
  flags := .inl rfl
  told := by intro impossible; cases impossible
  pointer := by intro i impossible; cases impossible

theorem Script.open_of_item (script : Script items s) {v : α}
    (item : items[s.pushed.length]? = some v) : s.flags = [false] := by
  rcases script.flags with still | ⟨_, all, _⟩
  · exact still
  · rw [all, List.getElem?_eq_none (Nat.le_refl _)] at item
    cases item

theorem Script.toProducer (script : Script items s) (pushed : t.pushed = s.pushed)
    (flags : t.flags = s.flags) (result : t.consumerResult = s.consumerResult)
    (held : t.held = s.held) (busy : s.producer ≠ .idle) (next : t.producer ≠ .storeClosed)
    (item : ∀ v, t.producer.item = some v → s.producer.item = some v) : Script items t where
  pushed := pushed ▸ script.pushed
  item v h := pushed ▸ script.item v (item v h)
  closing h := absurd h next
  flags := by
    rw [flags, pushed]
    rcases script.flags with still | ⟨_, _, idle⟩
    · exact .inl still
    · exact absurd idle busy
  told := by rw [result, flags]; exact script.told
  pointer := by rw [result, held]; exact script.pointer

theorem Script.toConsumer (script : Script items s) (pushed : t.pushed = s.pushed)
    (flags : t.flags = s.flags) (producer : t.producer = s.producer)
    (told : t.consumerResult = some (.closed true) → s.flags = [false, true])
    (pointer : ∀ i, t.consumerResult = some (.front (some i)) → t.held = some i) :
    Script items t where
  pushed := pushed ▸ script.pushed
  item := by rw [producer, pushed]; exact script.item
  closing := by rw [producer, pushed, flags]; exact script.closing
  flags := by rw [producer, pushed, flags]; exact script.flags
  told := by rw [flags]; exact told
  pointer := pointer

theorem Script.flags_of_load (script : Script items s) {o : Order} {i : Nat} {m : Atomics α}
    (h : s.memory.load .consumer .closed o i = some (true, m)) : s.flags = [false, true] := by
  obtain ⟨_, msg, at_i, value⟩ := load_value h
  rcases script.flags with still | ⟨done, _⟩
  · have mem : true ∈ s.flags := List.mem_map.mpr ⟨msg, List.mem_of_getElem? at_i, value⟩
    simp [still] at mem
  · exact done

theorem Script.publish (script : Script items s) {f : Frame α}
    (at_pc : s.producer = .storePushCursor f) : s.pushed ++ [f.value] <+: items := by
  have item := script.item f.value (by rw [at_pc]; rfl)
  obtain ⟨rest, split⟩ := script.pushed
  have tail : rest[0]? = some f.value := by
    rw [← split, List.getElem?_append_right (Nat.le_refl _), Nat.sub_self] at item
    exact item
  cases rest with
  | nil => cases tail
  | cons v rest =>
    refine ⟨rest, ?_⟩
    rw [← split, ← Option.some.inj tail, List.append_assoc, List.singleton_append]

theorem Move.script {l : Label α} (move : Move e s l t) (obeys : producerScript items s l)
    (script : Script items s) : Script items t := by
  cases move with
  | emplace v idle =>
    have item : items[s.pushed.length]? = some v := obeys
    exact { script with
      item := by
        intro w h
        cases h
        exact item
      closing := by intro impossible; cases impossible
      flags := .inl (script.open_of_item item) }
  | tryEmplace v idle => exact absurd obeys id
  | close idle =>
    obtain ⟨length, flags⟩ := obeys
    exact { script with
      item := by intro v impossible; cases impossible
      closing := fun _ => ⟨script.pushed.eq_of_length length, flags⟩
      flags := .inl flags }
  | loadPush i mode v f m at_pc load frame =>
    refine script.toProducer rfl (flags_load load) rfl rfl (by simp [at_pc]) ?_ ?_
    · cases r.cached <;> simp
    · subst frame
      cases r.cached <;> simp [at_pc, ProducerPC.item]
  | cacheFull i f at_pc | cacheRoom i f at_pc | loadedSpin i f pop at_pc
  | loadedFull i f pop at_pc | loadedRoom i f pop at_pc | recheckFull i f at_pc
  | recheckRoom i f at_pc | construct i f at_pc | threw f at_pc =>
    exact script.toProducer rfl rfl rfl rfl (by simp [at_pc]) (by simp)
      (by simp [at_pc, ProducerPC.item])
  | loadPop i x f m at_pc load =>
    exact script.toProducer rfl (flags_load load) rfl rfl (by simp [at_pc]) (by simp)
      (by simp [at_pc, ProducerPC.item])
  | loadedCache i f pop at_pc =>
    refine script.toProducer rfl rfl rfl rfl (by simp [at_pc]) ?_ ?_
    · cases f.mode <;> simp
    · cases f.mode <;> simp [at_pc, ProducerPC.item]
  | publish i f at_pc =>
    have item := script.item f.value (by rw [at_pc]; rfl)
    have flags := script.open_of_item item
    exact { script with
      pushed := script.publish at_pc
      item := by intro v impossible; cases impossible
      closing := by intro impossible; cases impossible
      flags := .inl ((flags_store (by decide)).trans flags)
      told := fun h => (flags_store (by decide)).trans (script.told h) }
  | storeClosed i at_pc =>
    obtain ⟨all, flags⟩ := script.closing at_pc
    have after : ((s.memory.store .producer .closed r.store true).history .closed).map
        Message.value = [false, true] := by
      rw [flags_close, flags]
      rfl
    exact { script with
      item := by intro v impossible; cases impossible
      closing := by intro impossible; cases impossible
      flags := .inr ⟨after, all, rfl⟩
      told := fun _ => after }
  | front | closed | pop =>
    exact script.toConsumer rfl rfl rfl (by intro h; cases h) (by intro i h; cases h)
  | read => exact script
  | frontLoadPop i m at_pc load | frontLoadPush i pop x m at_pc load | popLoadPop i m at_pc load
  | popAssert i pop x m at_pc load =>
    exact script.toConsumer rfl (flags_load load) rfl script.told script.pointer
  | frontCacheEmpty | frontLoadedCache | destroy =>
    exact script.toConsumer rfl rfl rfl script.told script.pointer
  | frontLoadedNull | frontNull =>
    exact script.toConsumer rfl rfl rfl (by intro h; cases h) (by intro i h; cases h)
  | frontCacheHit | frontLoadedHit | frontHit =>
    exact script.toConsumer rfl rfl rfl (by intro h; cases h)
      (by intro i h; cases h; rfl)
  | giveBack =>
    exact script.toConsumer rfl (flags_store (by decide)) rfl (by intro h; cases h)
      (by intro i h; cases h)
  | loadClosed i b m at_pc load =>
    refine script.toConsumer rfl (flags_load load) rfl ?_ (by intro i h; cases h)
    intro h
    cases h
    exact script.flags_of_load load

theorem Script.frontFirst (script : Script items s) {l : Label α}
    (loop : consumerLoop s l = true) : frontFirst s l = true := by
  cases l with
  | pop =>
    simp only [consumerLoop] at loop
    split at loop
    · rename_i i result
      simp only [Spsc.frontFirst, script.pointer i result, Option.isSome_some]
    · cases loop
  | _ => rfl

end Script

section Outcome

variable {e : Encoding r} {items : List α} {ls : List (Label α)} {s t : State α}

theorem Inv.queue_nil_iff (inv : Inv e s) :
    s.queue = [] ↔ s.consumed.length = s.pushed.length := by
  have length := Inv.queue_length s
  have ordered := inv.ordered
  rw [List.eq_nil_iff_length_eq_zero]
  omega

theorem Inv.agree_iff (inv : Inv e s) :
    s.memory.newest .pushCursor = s.memory.newest .popCursor ↔ s.queue = [] := by
  rw [inv.newest_pushCursor, inv.newest_popCursor, inv.queue_nil_iff, Option.some.injEq, eq_comm]
  exact e.empty_iff _ _ inv.ordered inv.bounded

theorem Script.idle (script : Script items s) (closed : s.flags = [false, true]) :
    s.pushed = items ∧ s.producer = .idle := by
  rcases script.flags with still | ⟨_, all, idle⟩
  · rw [still] at closed
    cases closed
  · exact ⟨all, idle⟩

theorem State.left_iff (s : State α) :
    s.left = true ↔ s.consumer = .idle ∧ s.consumerResult = some (.closed true) := by
  unfold State.left
  split
  · rename_i idle result
    simp [idle, result]
  · rename_i other
    simpa using other

theorem over_idle (idle : s.consumer = .idle) (ended : s.missed = true ∨ s.left = true) :
    s.consumerResult = some (.front none) ∨ s.consumerResult = some (.closed true) := by
  rw [State.left_iff] at ended
  simpa [State.missed, idle] using ended

theorem Move.settled {l : Label α} (move : Move e s l t) (inv : Inv e s)
    (script : Script items s) (admitted : Transfer items s l) (settled : s.Settled) :
    t.Settled ∧ t.queue = s.queue ∧ closesInTime s l = true := by
  obtain ⟨closed, ended⟩ := settled
  obtain ⟨all, idle⟩ := script.idle closed
  have loop := admitted.loop
  cases move with
  | emplace v =>
    have still := script.open_of_item admitted.script
    rw [closed] at still
    cases still
  | tryEmplace v => exact absurd admitted.script id
  | close =>
    have still := admitted.script.2
    rw [closed] at still
    cases still
  | front at_pc | pop at_pc | read i v at_pc =>
    rcases over_idle at_pc ended with result | result <;> simp [consumerLoop, result] at loop
  | closed at_pc => exact ⟨⟨closed, .inl rfl⟩, rfl, rfl⟩
  | frontLoadPop i m at_pc | frontCacheEmpty i pop at_pc | frontCacheHit i pop at_pc
  | frontLoadPush i pop x m at_pc | popLoadPop i m at_pc | popAssert i pop x m at_pc
  | destroy i pop v at_pc | giveBack i pop v at_pc =>
    simp [State.missed, State.left, at_pc] at ended
  | frontLoadedCache i pop push at_pc cached =>
    have test : pop = push.value := by
      simpa [State.missed, State.left, at_pc] using ended
    exact ⟨⟨closed, .inl (decide_eq_true test)⟩, rfl, rfl⟩
  | frontLoadedNull i pop push at_pc | frontNull i pop at_pc =>
    exact ⟨⟨closed, .inl rfl⟩, rfl, rfl⟩
  | frontLoadedHit i pop push at_pc cached lt =>
    have test : pop = push.value := by
      simpa [State.missed, State.left, at_pc] using ended
    have eq := (inv.misses_loaded at_pc).mp test
    omega
  | frontHit i pop at_pc lt =>
    have ok := inv.consumer
    rw [at_pc] at ok
    have test : pop = s.pushCursorCache.value := by
      simpa [State.missed, State.left, at_pc] using ended
    have eq := (inv.misses_cache ok).mp test
    omega
  | loadClosed i b m at_pc load =>
    -- the newest store of the flag is the producer's
    have last : i + 1 = s.flags.length := by
      simpa [newest, loads, at_pc, State.flags] using admitted.now
    obtain ⟨_, msg, at_i, value⟩ := load_value load
    have told : s.flags[i]? = some b := by simp [State.flags, at_i, value]
    rw [closed] at last told
    have eq : i = 1 := by simpa using last
    subst eq
    cases told
    exact ⟨⟨(flags_load load).trans closed, .inr rfl⟩, rfl, rfl⟩
  | _ => simp_all

/-- The step that ends the transfer leaves the buffer empty exactly when it closes in time. -/
theorem Move.settles {l : Label α} (move : Move e s l t) (inv : Inv e s)
    (script : Script items s) (admitted : Transfer items s l) (before : ¬ s.Settled)
    (after : t.Settled) : t.queue = [] ↔ closesInTime s l = true := by
  have loop := admitted.loop
  cases move with
  | storeClosed i at_pc =>
    obtain ⟨_, open_⟩ := script.closing at_pc
    have missed : s.missed = true := by
      refine after.2.resolve_right fun left => ?_
      rw [script.told ((State.left_iff _).mp left).2] at open_
      cases open_
    have test : closesInTime s (.producer i) =
        decide (s.memory.newest .pushCursor = s.memory.newest .popCursor) := by
      simp [closesInTime, at_pc, missed]
    rw [test, decide_eq_true_eq]
    exact inv.agree_iff.symm
  | frontLoadPush i pop x m at_pc load value =>
    have ok := inv.consumer
    rw [at_pc] at ok
    have same : pop = e.cursor s.consumed.length := ok
    have test : pop = x := by
      simpa [State.missed, State.left] using after.2
    have current := inv.newest_push at_pc admitted.now
    have between := (inv.load_push load).widen inv.pushCache.low (Nat.le_refl _)
    have eq := (inv.empty_iff between (by simp [current])).mp (same.symm.trans test)
    have nil : s.queue = [] := queue_nil (by simpa [current] using eq)
    exact ⟨fun _ => rfl, fun _ => nil⟩
  | emplace | tryEmplace | close | cacheFull | cacheRoom | loadedCache | loadedSpin | loadedFull
  | loadedRoom | recheckFull | recheckRoom | construct | threw | read =>
    exact absurd after before
  | loadPush i mode v f m at_pc load | loadPop i x f m at_pc load =>
    exact absurd ⟨(flags_load load).symm.trans after.1, after.2⟩ before
  | publish i f at_pc =>
    exact absurd ⟨(flags_store (by decide)).symm.trans after.1, after.2⟩ before
  | closed at_pc =>
    have result : s.consumerResult = some (.front none) := by
      simp only [consumerLoop] at loop
      split at loop
      · assumption
      · cases loop
    exact absurd ⟨after.1, .inl (by simp [State.missed, at_pc, result])⟩ before
  | frontLoadedCache i pop push at_pc =>
    have test : pop = push.value := by simpa [State.missed, State.left] using after.2
    exact absurd ⟨after.1, .inl (by simp [State.missed, at_pc, test])⟩ before
  | frontLoadedNull i pop push at_pc cached eq =>
    have test := (inv.misses_loaded at_pc).mpr eq
    exact absurd ⟨after.1, .inl (by simp [State.missed, at_pc, test])⟩ before
  | frontNull i pop at_pc eq =>
    have ok := inv.consumer
    rw [at_pc] at ok
    have test := (inv.misses_cache ok).mpr eq
    exact absurd ⟨after.1, .inl (by simp [State.missed, at_pc, test])⟩ before
  | loadClosed i b m at_pc load =>
    exact absurd ⟨(flags_load load).symm.trans after.1, .inl (by simp [State.missed, at_pc])⟩
      before
  | front | pop | frontCacheEmpty | frontCacheHit | frontLoadedHit | frontHit | popAssert
  | destroy | giveBack =>
    have ended := after.2
    simp [State.missed, State.left] at ended
  | frontLoadPop =>
    have ended := after.2
    cases cached : r.cached <;> simp [State.missed, State.left, cached] at ended
  | popLoadPop =>
    have ended := after.2
    cases debug : r.ndebug <;> simp [State.missed, State.left, debug] at ended

theorem Move.closes {l : Label α} (move : Move e s l t) (script : Script items s)
    (open_ : ¬ t.Settled) : closesInTime s l = true := by
  cases move with
  | storeClosed i at_pc =>
    obtain ⟨_, flags⟩ := script.closing at_pc
    have after : ((s.memory.store .producer .closed r.store true).history .closed).map
        Message.value = [false, true] := by
      rw [flags_close, flags]
      rfl
    cases watching : s.missed with
    | false => simp [closesInTime, at_pc, watching]
    | true => exact absurd ⟨after, .inl watching⟩ open_
  | _ => simp_all [closesInTime]

theorem transfer_complete_iff (e : Encoding r) (sync : Synchronizes r)
    (run : Run (step r) (Transfer items) (start α) ls s) (left : s.left = true) :
    (s.consumed = items ∧ s.queue = []) ↔
      Along (step r) (fun u l => closesInTime u l = true) (start α) ls := by
  have moves : ∀ (s t : State α) l, Inv e s ∧ Script items s → Transfer items s l →
      step r s l = some t → Move e s l t := fun _ _ _ inv admitted h =>
    step_move inv.1 sync (inv.2.frontFirst admitted.loop) h
  have preserved : ∀ (s : State α) l t, Inv e s ∧ Script items s → Transfer items s l →
      step r s l = some t → Inv e t ∧ Script items t := fun s l t inv admitted h =>
    ⟨(moves s t l inv admitted h).inv inv.1 sync,
      (moves s t l inv admitted h).script admitted.script inv.2⟩
  have initial : Inv e (start α) ∧ Script items (start α) := ⟨inv_start e, Script.start⟩
  obtain ⟨inv, script⟩ := run.invariant _ preserved initial
  have closed := script.told ((State.left_iff s).mp left).2
  have decided := (run.decided _ State.Settled (fun s => s.queue = []) _ preserved
    (fun s l t inv admitted h open_ => (moves s t l inv admitted h).closes inv.2 open_)
    (fun s l t inv admitted h => (moves s t l inv admitted h).settles inv.1 inv.2 admitted)
    (fun s l t inv admitted h settled => by
      obtain ⟨ended, same, met⟩ := (moves s t l inv admitted h).settled inv.1 inv.2 admitted settled
      exact ⟨ended, by rw [same], met⟩)
    initial ⟨closed, .inr left⟩).2 (by intro settled; cases settled.1)
  rw [← decided]
  constructor
  · exact And.right
  · intro empty
    have all := inv.consumed_append_queue
    rw [empty, List.append_nil, (script.idle closed).1] at all
    exact ⟨all, empty⟩

end Outcome

/-- `SPSCBuffer(n)` loses nothing at shutdown exactly when it is closed in time. -/
theorem spsc_shutdown (env : Environment) (n : Nat) (r : Ring)
    (made : spscBuffer.construct env n = .ok r) (fits : n + 1 + 2 * env.padding < sizeModulus)
    (items : List α) (ls : List (Label α)) (s : State α)
    (run : Run (step r) (Transfer items) (start α) ls s) (left : s.left = true) :
    (s.consumed = items ∧ s.queue = []) ↔
      Along (step r) (fun u l => closesInTime u l = true) (start α) ls := by
  have sync := spscBuffer_synchronizes made
  exact transfer_complete_iff (spscBuffer_slack.encoding made (by omega)) sync run left

def closedBeforeFront : List (Label Nat) :=
  [.emplace 7, .producer 0, .producer 0, .producer 0, .producer 0, .close, .producer 0,
    .front, .consumer 0, .consumer 0, .consumer 1, .consumer 0, .consumer 0, .read,
    .pop, .consumer 0, .consumer 1, .consumer 0, .consumer 0,
    .front, .consumer 1, .consumer 0, .consumer 1, .consumer 0, .consumer 0,
    .closed, .consumer 1]

theorem spsc_shutdown_in_time : ∃ s : State Nat,
    (s.consumed = [7] ∧ s.queue = []) ∧ s.left = true :=
  ⟨_, (spsc_shutdown .desktop 1 _ rfl (by decide) [7] closedBeforeFront _
    (Run.of_exec (by decide) (by decide)) (by decide)).mpr (by decide), by decide⟩

/-- The consumer finds nothing; then the only item is pushed and the buffer closed; then
the consumer finds it closed. -/
def closedAfterFront : List (Label Nat) :=
  [.front, .consumer 0, .consumer 0, .consumer 0, .consumer 0, .consumer 0,
    .emplace 7, .producer 0, .producer 0, .producer 0, .producer 0, .close, .producer 0,
    .closed, .consumer 1]

theorem spsc_shutdown_can_lose : ¬ ∀ (r : Ring) (ls : List (Label Nat)) (s : State Nat),
    spscBuffer.construct .desktop 1 = .ok r → Run (step r) (Transfer [7]) (start Nat) ls s →
    s.left = true → s.consumed = [7] ∧ s.queue = [] := by
  intro complete
  have lost := (complete _ closedAfterFront _ rfl (Run.of_exec (by decide) (by decide))
    (by decide)).1
  revert lost
  decide

end RingBuffers.Spsc
