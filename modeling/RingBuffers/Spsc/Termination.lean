import RingBuffers.Library.Fairness
import RingBuffers.Spsc.Progress
import RingBuffers.Spsc.Shutdown

/-! The transfer of the stress test and the benchmarks comes to an end. Both threads spin while
the buffer is full or empty, so this needs a scheduler that lets each of them run, and stores
that become visible some time; it needs no load to be up to date. -/
namespace RingBuffers.Spsc
open Fairness ReleaseAcquire Transition

variable {α : Type} {r : Ring}

structure Program (items : List α) (s : State α) (l : Label α) : Prop where
  loop : consumerLoop s l = true
  script : producerScript items s l

instance decidableProgram [DecidableEq α] (items : List α) (s : State α) (l : Label α) :
    Decidable (Program items s l) :=
  decidable_of_iff (consumerLoop s l = true ∧ producerScript items s l)
    ⟨fun h => ⟨h.1, h.2⟩, fun h => ⟨h.loop, h.script⟩⟩

/-- The steps that count for a thread: its calls and what they do. An exception of the element
type and a read through the pointer do not. -/
def Label.works (a : Agent) (l : Label α) : Prop := l.calls a = true ∨ l.advances a = true

/-- Every store becomes visible: from some time on no load reads an older one. -/
def Visible (σ : Nat → State α) (ls : Nat → Option (Label α)) : Prop :=
  ∀ k i j, i < ((σ j).memory.history k).length →
    ∃ m, ∀ n, m ≤ n → ∀ l x, ls n = some l → loads (σ n) l = some (k, x) → i ≤ x

/-- All is pushed, the buffer is closed and the consumer has left its loop. -/
structure Finished (items : List α) (s : State α) : Prop where
  pushed : s.pushed = items
  producer : s.producer = .idle
  flags : s.flags = [false, true]
  left : s.left = true

structure Transferring (e : Encoding r) (items : List α) (s : State α) : Prop where
  inv : Inv e s
  grounded : Grounded s.memory
  script : Script items s
  emplaces : s.producer.mode ≠ some .tryEmplace

section Steps

variable {e : Encoding r} {items : List α} {s t : State α} {l : Label α}

theorem transferring_start (e : Encoding r) (items : List α) :
    Transferring e items (start α) :=
  ⟨inv_start e, grounded_atomics, Script.start, nofun⟩

theorem Transferring.move (now : Transferring e items s) (sync : Synchronizes r)
    (program : Program items s l) (h : step r s l = some t) : Move e s l t :=
  step_move now.inv sync (now.script.frontFirst program.loop) h

theorem Move.emplaces (move : Move e s l t) (obeys : producerScript items s l)
    (emplaces : s.producer.mode ≠ some .tryEmplace) : t.producer.mode ≠ some .tryEmplace := by
  cases theirs : l.consumers with
  | true =>
    rw [(move.keeps_producer theirs).producer]
    exact emplaces
  | false =>
    cases move with
    | emplace => simp [ProducerPC.mode]
    | tryEmplace => exact absurd obeys id
    | loadPush i mode v f m at_pc load frame =>
      subst frame
      rw [at_pc] at emplaces
      cases r.cached <;> simpa [ProducerPC.mode] using emplaces
    | loadedCache i f pop at_pc =>
      rw [at_pc] at emplaces
      cases mode : f.mode with
      | emplace => simp [ProducerPC.mode, mode]
      | tryEmplace => exact absurd (congrArg some mode) emplaces
    | cacheFull i f at_pc | cacheRoom i f at_pc | loadPop i x f m at_pc
    | loadedSpin i f pop at_pc | loadedRoom i f pop at_pc | recheckRoom i f at_pc
    | construct i f at_pc =>
      rw [at_pc] at emplaces
      exact emplaces
    | close | loadedFull | recheckFull | publish | storeClosed | threw => simp [ProducerPC.mode]
    | _ => cases theirs

theorem Transferring.step (now : Transferring e items s) (sync : Synchronizes r)
    (program : Program items s l) (h : step r s l = some t) : Transferring e items t := by
  have move := now.move sync program h
  exact ⟨move.inv now.inv sync, move.grounded now.grounded, move.script program.script now.script,
    move.emplaces program.script now.emplaces⟩

theorem Transferring.enabled_advance (now : Transferring e items s) {a : Agent}
    (busy : ¬ s.rests a) :
    Enabled (Spsc.step r) (Program items) (Label.works a) s := by
  obtain ⟨i, _, possible⟩ := now.inv.advances now.grounded busy
  obtain ⟨t, moved⟩ := Option.isSome_iff_exists.mp possible
  refine ⟨.advance a i, t, .inr ?_, ?_, moved⟩
  · cases a <;> rfl
  · cases a <;> exact ⟨rfl, trivial⟩

theorem Transferring.enabled_call (now : Transferring e items s) {a : Agent}
    (called : l.calls a = true) (rests : s.rests a) (program : Program items s l) :
    Enabled (Spsc.step r) (Program items) (Label.works a) s := by
  have sound : s.fault.isSome = false := by rw [now.inv.sound]; rfl
  have possible : (Spsc.step r s l).isSome = true := by
    simp only [Spsc.step, sound, Bool.false_eq_true, if_false]
    cases a with
    | producer =>
      have idle : s.producer = .idle := rests
      cases l with
      | emplace v | tryEmplace v | close => simp [callProducer, idle]
      | _ => cases called
    | consumer =>
      have idle : s.consumer = .idle := rests
      cases l with
      | front | pop | closed => simp [callConsumer, idle]
      | _ => cases called
  obtain ⟨t, moved⟩ := Option.isSome_iff_exists.mp possible
  exact ⟨l, t, .inl called, program, moved⟩

theorem Transferring.enabled_producer (now : Transferring e items s)
    (still_open : s.flags = [false]) :
    Enabled (Spsc.step r) (Program items) (Label.works .producer) s := by
  by_cases idle : s.producer = .idle
  · by_cases all : s.pushed.length = items.length
    · exact now.enabled_call (l := .close) rfl idle ⟨rfl, all, still_open⟩
    · have some_left : s.pushed.length < items.length := by
        have := now.script.pushed.length_le
        omega
      have next := List.getElem?_eq_getElem some_left
      exact now.enabled_call (l := .emplace items[s.pushed.length]) rfl idle ⟨rfl, next⟩
  · exact now.enabled_advance (a := .producer) idle

theorem Transferring.enabled_consumer (now : Transferring e items s) (stays : s.left = false) :
    Enabled (Spsc.step r) (Program items) (Label.works .consumer) s := by
  by_cases idle : s.consumer = .idle
  · cases result : s.consumerResult with
    | none =>
      exact now.enabled_call (l := .front) rfl idle ⟨by simp [consumerLoop, result], trivial⟩
    | some answer =>
      cases answer with
      | front pointer =>
        cases pointer with
        | none =>
          exact now.enabled_call (l := .closed) rfl idle ⟨by simp [consumerLoop, result], trivial⟩
        | some i =>
          exact now.enabled_call (l := .pop) rfl idle ⟨by simp [consumerLoop, result], trivial⟩
      | popped =>
        exact now.enabled_call (l := .front) rfl idle ⟨by simp [consumerLoop, result], trivial⟩
      | closed b =>
        cases b with
        | false =>
          exact now.enabled_call (l := .front) rfl idle ⟨by simp [consumerLoop, result], trivial⟩
        | true => simp [State.left, idle, result] at stays
  · exact now.enabled_advance (a := .consumer) idle

theorem Finished.stuck (finished : Finished items s) (program : Program items s l) :
    step r s l = none := by
  obtain ⟨rfl, producer, flags, left⟩ := finished
  obtain ⟨loop, script⟩ := program
  obtain ⟨consumer, result⟩ := (State.left_iff s).mp left
  unfold step
  split
  · rfl
  · cases l with
    | emplace v =>
      have item : s.pushed[s.pushed.length]? = some v := script
      rw [List.getElem?_eq_none (Nat.le_refl _)] at item
      cases item
    | tryEmplace v => exact absurd script id
    | close =>
      have still : s.flags = [false] := script.2
      rw [flags] at still
      cases still
    | front | pop | closed | read => simp [consumerLoop, result] at loop
    | producer i => simp [producerStep, producer]
    | consumer i => simp [consumerStep, consumer]
    | throw => simp [throwStep, producer]

end Steps

section Ranks

variable {e : Encoding r} {items : List α} {s t : State α} {l : Label α}

/-- The steps of the producer to its next store, while the buffer has room: an old load of
`popCursor_` may still cost it one round. -/
def State.toPush (e : Encoding r) (s : State α) : Nat :=
  match s.producer with
  | .storeClosed | .storePushCursor _ => 0
  | .construct _ => 1
  | .recheck _ => 2
  | .readCache _ => if s.pushed.length = s.popCursorCache.stamp + e.bound then 5 else 2
  | .loaded _ pop => if s.pushed.length = pop.stamp + e.bound then 6 else 3
  | .loadPopCursor _ => 4
  | .loadPushCursor _ _ => 7
  | .idle => 8

/-- The steps of the consumer to its next `popCursor_` store, while the buffer has elements:
an old load of `pushCursor_` may still cost it one look at `closed_`. -/
def State.toPop (s : State α) : Nat :=
  match s.consumer with
  | .popStore _ _ => 0
  | .popDestroy _ => 1
  | .popAssert _ => 2
  | .popLoadPop => 3
  | .frontRecheck _ => if s.consumed.length = s.pushCursorCache.stamp then 13 else 5
  | .frontLoaded _ push => if s.consumed.length = push.stamp then 14 else 6
  | .frontLoadPush _ => 7
  | .frontReadCache _ => 8
  | .frontLoadPop => 9
  | .loadClosed => 11
  | .idle => match s.consumerResult with
    | some (.front (some _)) => 4
    | some (.front none) => 12
    | some (.closed true) => 0
    | _ => 10

/-- The steps of the consumer until it leaves, when the buffer is empty and closed. -/
def State.toLeave (s : State α) : Nat :=
  match s.consumer with
  | .loadClosed => 1
  | .frontRecheck _ => 3
  | .frontLoaded _ _ => 4
  | .frontLoadPush _ => 5
  | .frontReadCache _ => 6
  | .frontLoadPop => 7
  | .popLoadPop | .popAssert _ | .popDestroy _ | .popStore _ _ => 0
  | .idle => match s.consumerResult with
    | some (.front none) => 2
    | some (.closed true) => 0
    | _ => 8

theorem Move.lowers_toPush (move : Move e s l t) (inv : Inv e s) (mine : l.works .producer)
    (now : newest s l = true) (emplaces : s.producer.mode ≠ some .tryEmplace)
    (room : s.pushed.length < s.consumed.length + e.bound)
    (pushed : t.pushed.length = s.pushed.length) (flags : t.flags = s.flags) :
    t.toPush e < s.toPush e := by
  cases move with
  | emplace v idle | tryEmplace v idle | close idle => simp [State.toPush, idle]
  | loadPush i mode v f m at_pc load frame =>
    cases r.cached with
    | true =>
      simp only [State.toPush, at_pc, if_true]
      split <;> decide
    | false => simp [State.toPush, at_pc]
  | cacheFull i f at_pc full => simp [State.toPush, at_pc, full]
  | cacheRoom i f at_pc lt => simp [State.toPush, at_pc, Nat.ne_of_lt lt]
  | loadPop i x f m at_pc load value =>
    have last := inv.newest_pop at_pc now
    simp [State.toPush, at_pc, last, Nat.ne_of_lt room]
  | loadedCache i f pop at_pc cached =>
    rw [at_pc] at emplaces
    cases mode : f.mode with
    | tryEmplace => exact absurd (congrArg some mode) emplaces
    | emplace =>
      simp only [State.toPush, at_pc]
      split <;> decide
  | loadedSpin i f pop at_pc cached mode full => simp [State.toPush, at_pc, full]
  | loadedFull i f pop at_pc cached mode | recheckFull i f at_pc mode =>
    rw [at_pc] at emplaces
    exact absurd (congrArg some mode) emplaces
  | loadedRoom i f pop at_pc cached lt => simp [State.toPush, at_pc, Nat.ne_of_lt lt]
  | recheckRoom i f at_pc | construct i f at_pc => simp [State.toPush, at_pc]
  | publish i f at_pc => simp at pushed
  | storeClosed i at_pc =>
    have longer := congrArg List.length flags
    rw [State.flags, flags_close] at longer
    simp at longer
  | _ => rcases mine with call | advance <;> contradiction

theorem Move.lowers_toPop (move : Move e s l t) (inv : Inv e s) (mine : l.works .consumer)
    (now : newest s l = true) (loop : consumerLoop s l = true)
    (some_left : s.consumed.length < s.pushed.length)
    (consumed : t.consumed.length = s.consumed.length) : t.toPop < s.toPop := by
  cases move with
  | front idle | pop idle | closed idle =>
    simp only [consumerLoop] at loop
    split at loop
    all_goals first | contradiction | (rename_i result; simp [State.toPop, idle, result])
  | frontLoadPop i m at_pc => cases r.cached <;> simp [State.toPop, at_pc]
  | frontCacheEmpty i pop at_pc | frontCacheHit i pop at_pc => simp [State.toPop, at_pc]
  | frontLoadPush i pop x m at_pc load value =>
    have last := inv.newest_push at_pc now
    simp [State.toPop, at_pc, last, Nat.ne_of_lt some_left]
  | frontLoadedCache i pop push at_pc =>
    simp only [State.toPop, at_pc]
    split <;> decide
  | frontLoadedNull i pop push at_pc cached eq | frontNull i pop at_pc eq =>
    simp [State.toPop, at_pc, eq]
  | frontLoadedHit i pop push at_pc cached lt | frontHit i pop at_pc lt =>
    simp [State.toPop, at_pc, Nat.ne_of_lt lt]
  | popLoadPop i m at_pc => cases r.ndebug <;> simp [State.toPop, at_pc]
  | popAssert i pop x m at_pc | destroy i pop v at_pc => simp [State.toPop, at_pc]
  | giveBack i pop v at_pc => simp at consumed
  | loadClosed i b m at_pc => cases b <;> simp [State.toPop, at_pc]
  | _ => rcases mine with call | advance <;> contradiction

theorem Script.newest_closed (closed : s.flags = [false, true]) {i : Nat} {b : Bool}
    {m : Atomics α} (at_pc : s.consumer = .loadClosed) (now : newest s (.consumer i) = true)
    (load : s.memory.load .consumer .closed r.other i = some (b, m)) : b = true := by
  have last : i + 1 = s.flags.length := by
    simpa [newest, loads, at_pc, State.flags] using now
  obtain ⟨_, msg, at_i, value⟩ := load_value load
  have told : s.flags[i]? = some b := by simp [State.flags, at_i, value]
  rw [closed] at last told
  have eq : i = 1 := by simpa using last
  subst eq
  exact (Option.some.inj told).symm

theorem Move.lowers_toLeave (move : Move e s l t) (inv : Inv e s) (mine : l.works .consumer)
    (now : newest s l = true) (loop : consumerLoop s l = true)
    (nothing : s.consumed.length = s.pushed.length) (closed : s.flags = [false, true]) :
    t.toLeave < s.toLeave := by
  have ahead := inv.ahead
  have ok := inv.consumer
  have seen := (inv.views.agents .consumer).pushBound
  cases move with
  | front idle | closed idle =>
    simp only [consumerLoop] at loop
    split at loop
    all_goals first | contradiction | (rename_i result; simp [State.toLeave, idle, result])
  | frontLoadPop i m at_pc => cases r.cached <;> simp [State.toLeave, at_pc]
  | frontCacheEmpty i pop at_pc | frontLoadPush i pop x m at_pc
  | frontLoadedCache i pop push at_pc | frontLoadedNull i pop push at_pc
  | frontNull i pop at_pc => simp [State.toLeave, at_pc]
  | loadClosed i b m at_pc load =>
    rw [Script.newest_closed closed at_pc now load]
    simp [State.toLeave, at_pc]
  | pop idle lt => omega
  | frontCacheHit i pop at_pc lt | frontHit i pop at_pc lt => omega
  | frontLoadedHit i pop push at_pc cached lt =>
    rw [at_pc] at ok
    have bound := ok.2.high
    omega
  | popLoadPop i m at_pc =>
    rw [at_pc] at ok
    have lt := ok.2
    omega
  | popAssert i pop x m at_pc | destroy i pop v at_pc | giveBack i pop v at_pc =>
    rw [at_pc] at ok
    have lt := ok.2.1
    omega
  | _ => rcases mine with call | advance <;> contradiction

theorem SameConsumer.toPop (same : SameConsumer s t) : t.toPop = s.toPop := by
  obtain ⟨consumer, cache, result, consumed⟩ := same
  rw [State.toPop, State.toPop, consumer, cache, result, consumed]

theorem SameConsumer.toLeave (same : SameConsumer s t) : t.toLeave = s.toLeave := by
  obtain ⟨consumer, _, result, _⟩ := same
  rw [State.toLeave, State.toLeave, consumer, result]

theorem SameProducer.toPush (same : SameProducer s t) : t.toPush e = s.toPush e := by
  obtain ⟨producer, cache, pushed⟩ := same
  rw [State.toPush, State.toPush, producer, cache, pushed]

theorem Move.keeps_others (move : Move e s l t) (theirs : ¬ l.works .consumer) :
    SameConsumer s t := by
  cases l with
  | read =>
    cases move
    exact ⟨rfl, rfl, rfl, rfl⟩
  | front | pop | closed => exact absurd (.inl rfl) theirs
  | consumer i => exact absurd (.inr rfl) theirs
  | emplace v | tryEmplace v | close | producer i | throw => exact move.keeps_consumer rfl

end Ranks

section Behaviors

variable {e : Encoding r} {items : List α} {s t : State α} {l : Label α} {σ : Nat → State α}
  {ls : Nat → Option (Label α)}

theorem Move.flags_grow (move : Move e s l t) : s.flags.length ≤ t.flags.length := by
  cases move with
  | loadPush i mode v f m at_pc load | loadPop i x f m at_pc load | frontLoadPop i m at_pc load
  | frontLoadPush i pop x m at_pc load | popLoadPop i m at_pc load
  | popAssert i pop x m at_pc load | loadClosed i b m at_pc load =>
    exact Nat.le_of_eq (congrArg List.length (flags_load load).symm)
  | publish | giveBack => exact Nat.le_of_eq (congrArg List.length (flags_store (by decide)).symm)
  | storeClosed i at_pc =>
    have longer : ((s.memory.store .producer .closed r.store true).history .closed).map
        Message.value = s.flags ++ [true] := flags_close
    rw [State.flags, State.flags, longer, List.length_append]
    exact Nat.le_add_right _ _
  | _ => exact Nat.le_refl _

theorem loads_made (moved : step r s l = some t) {k : Loc} {i : Nat}
    (load : loads s l = some (k, i)) : i < (s.memory.history k).length := by
  have made : ∀ (a : Agent) (o : Order), (s.memory.load a k o i).isSome = true →
      i < (s.memory.history k).length := by
    intro a o read
    obtain ⟨⟨x, m⟩, h⟩ := Option.isSome_iff_exists.mp read
    obtain ⟨_, msg, at_i, _⟩ := load_value h
    exact (List.getElem?_eq_some_iff.mp at_i).1
  unfold step at moved
  split at moved
  · cases moved
  · cases l with
    | producer j =>
      simp only [loads] at load
      split at load
      · rename_i at_pc
        cases load
        simp only [producerStep, at_pc, Option.map_eq_some_iff] at moved
        obtain ⟨_, read, _⟩ := moved
        exact made _ _ (Option.isSome_of_eq_some read)
      · rename_i at_pc
        cases load
        simp only [producerStep, at_pc, Option.map_eq_some_iff] at moved
        obtain ⟨_, read, _⟩ := moved
        exact made _ _ (Option.isSome_of_eq_some read)
      · cases load
    | consumer j =>
      simp only [loads] at load
      split at load
      all_goals cases load
      all_goals
        rename_i at_pc
        simp only [consumerStep, at_pc, Option.map_eq_some_iff] at moved
        obtain ⟨_, read, _⟩ := moved
        exact made _ _ (Option.isSome_of_eq_some read)
    | _ => cases load

/-- From instant `n` on nothing is stored or thrown any more, and no load is stale. -/
structure Calm (σ : Nat → State α) (ls : Nat → Option (Label α)) (n : Nat) : Prop where
  pushed : ∀ j, n ≤ j → (σ j).pushed.length = (σ n).pushed.length
  consumed : ∀ j, n ≤ j → (σ j).consumed.length = (σ n).consumed.length
  flags : ∀ j, n ≤ j → (σ j).flags = (σ n).flags
  newest : ∀ j l, n ≤ j → ls j = some l → newest (σ j) l = true
  throws : ∀ j, n ≤ j → ls j ≠ some .throw

theorem Script.flags_eq {u : State α} (script : Script items s) (script' : Script items u)
    (length : u.flags.length = s.flags.length) : u.flags = s.flags := by
  rcases script.flags with flags | ⟨flags, _⟩ <;> rcases script'.flags with flags' | ⟨flags', _⟩
  · rw [flags, flags']
  · rw [flags, flags'] at length
    cases length
  · rw [flags, flags'] at length
    cases length
  · rw [flags, flags']

variable (sync : Synchronizes r) (behavior : Behavior (step r) (Program items) σ ls)
  (always : ∀ i, Transferring e items (σ i))

include sync behavior always

theorem move_at {j : Nat} (taken : ls j = some l) :
    Program items (σ j) l ∧ Move e (σ j) l (σ (j + 1)) := by
  obtain ⟨program, moved⟩ := behavior.step_at taken
  exact ⟨program, (always j).move sync program moved⟩

theorem exists_calm (visible : Visible σ ls)
    (throws : ∃ n, ∀ j, n ≤ j → ls j ≠ some .throw) : ∃ n, Calm σ ls n := by
  have ordered : ∀ s, Transferring e items s → s.pushed.length ≤ items.length :=
    fun s now => now.script.pushed.length_le
  obtain ⟨n₁, pushes⟩ := behavior.settles (fun s => s.pushed.length) items.length _ always
    (fun s l t now program h => by
      simp only [(now.move sync program h).pushes, List.length_append]
      exact Nat.le_add_right _ _) ordered
  obtain ⟨n₂, pops⟩ := behavior.settles (fun s => s.consumed.length) items.length _ always
    (fun s l t now program h => by
      simp only [(now.move sync program h).pops, List.length_append]
      exact Nat.le_add_right _ _) (fun s now => now.inv.ordered.trans (ordered s now))
  obtain ⟨n₃, closes⟩ := behavior.settles (fun s => s.flags.length) 2 _ always
    (fun s l t now program h => (now.move sync program h).flags_grow)
    (fun s now => by rcases now.script.flags with flags | ⟨flags, _⟩ <;> simp [flags])
  obtain ⟨n₄, quiet⟩ := throws
  have settled : ∃ n, n₄ ≤ n ∧ ∀ j, n ≤ j → (σ j).pushed.length = (σ n).pushed.length ∧
      (σ j).consumed.length = (σ n).consumed.length ∧
      (σ j).flags.length = (σ n).flags.length := by
    refine ⟨n₁ + n₂ + n₃ + n₄, Nat.le_add_left _ _, fun j le => ⟨?_, ?_, ?_⟩⟩
    · rw [pushes j (by omega), pushes (n₁ + n₂ + n₃ + n₄) (by omega)]
    · rw [pops j (by omega), pops (n₁ + n₂ + n₃ + n₄) (by omega)]
    · rw [closes j (by omega), closes (n₁ + n₂ + n₃ + n₄) (by omega)]
  obtain ⟨n₅, thrown, same⟩ := settled
  have histories : ∀ k j, n₅ ≤ j →
      ((σ j).memory.history k).length = ((σ n₅).memory.history k).length := by
    intro k j le
    obtain ⟨pushed, consumed, flags⟩ := same j le
    cases k with
    | pushCursor =>
      rw [(always j).inv.pushHistory.length, (always n₅).inv.pushHistory.length, pushed]
    | popCursor =>
      rw [(always j).inv.popHistory.length, (always n₅).inv.popHistory.length, consumed]
    | closed => simpa [State.flags] using flags
  -- once the last stores are visible, every load reads the last store
  have last : ∀ k, ∃ m, ∀ j, m ≤ j → ∀ l x, ls j = some l → loads (σ j) l = some (k, x) →
      ((σ n₅).memory.history k).length - 1 ≤ x := by
    intro k
    have made := (always n₅).grounded.agents .producer k
    exact visible k _ n₅ (by omega)
  obtain ⟨m₁, freshPush⟩ := last .pushCursor
  obtain ⟨m₂, freshPop⟩ := last .popCursor
  obtain ⟨m₃, freshClosed⟩ := last .closed
  refine ⟨n₅ + m₁ + m₂ + m₃, ?_, ?_, ?_, ?_, ?_⟩
  · intro j le
    rw [(same j (by omega)).1, (same (n₅ + m₁ + m₂ + m₃) (by omega)).1]
  · intro j le
    rw [(same j (by omega)).2.1, (same (n₅ + m₁ + m₂ + m₃) (by omega)).2.1]
  · intro j le
    apply (always _).script.flags_eq (always j).script
    rw [(same j (by omega)).2.2, (same (n₅ + m₁ + m₂ + m₃) (by omega)).2.2]
  · intro j l le taken
    unfold newest
    split
    · rfl
    · rename_i k x load
      have bound := loads_made (behavior.step_at taken).2 load
      have fresh : ((σ n₅).memory.history k).length - 1 ≤ x := by
        cases k with
        | pushCursor => exact freshPush j (by omega) l x taken load
        | popCursor => exact freshPop j (by omega) l x taken load
        | closed => exact freshClosed j (by omega) l x taken load
      rw [histories k j (by omega)] at bound ⊢
      rw [beq_iff_eq]
      omega
  · exact fun j le => quiet j (by omega)

variable {n : Nat} (calm : Calm σ ls n)

include calm

theorem Calm.producer_done
    (fair : Fair (step r) (Program items) (Label.works .producer) σ ls)
    (room : (σ n).pushed.length < (σ n).consumed.length + e.bound) :
    (σ n).flags = [false, true] := by
  rcases (always n).script.flags with still_open | ⟨closed, _⟩
  · refine (fair.exhausts behavior (State.toPush e) n ?_ ?_ ?_).elim
    · intro j le
      exact (always j).enabled_producer ((calm.flags j le).trans still_open)
    · intro j l le taken mine
      obtain ⟨_, move⟩ := move_at sync behavior always taken
      have pushed := calm.pushed j le
      have consumed := calm.consumed j le
      apply move.lowers_toPush (always j).inv mine (calm.newest j l le taken) (always j).emplaces
      · omega
      · rw [calm.pushed (j + 1) (by omega), pushed]
      · rw [calm.flags (j + 1) (by omega), calm.flags j le]
    · intro j l le taken theirs
      obtain ⟨_, move⟩ := move_at sync behavior always taken
      cases l with
      | throw => exact absurd taken (calm.throws j le)
      | front | pop | closed | consumer i | read =>
        exact Nat.le_of_eq (move.keeps_producer rfl).toPush
      | emplace v | tryEmplace v | close => exact absurd (.inl rfl) theirs
      | producer i => exact absurd (.inr rfl) theirs
  · exact closed

theorem Calm.consumer_leaves
    (fair : Fair (step r) (Program items) (Label.works .consumer) σ ls)
    (stays : ∀ j, n ≤ j → (σ j).left = false) :
    (σ n).consumed.length = (σ n).pushed.length ∧ (σ n).flags ≠ [false, true] := by
  have enabled : ∀ j, n ≤ j →
      Enabled (step r) (Program items) (Label.works .consumer) (σ j) :=
    fun j le => (always j).enabled_consumer (stays j le)
  have keeps : ∀ j l, n ≤ j → ls j = some l → ¬ l.works .consumer →
      SameConsumer (σ j) (σ (j + 1)) := fun j l le taken theirs =>
    (move_at sync behavior always taken).2.keeps_others theirs
  have loop : ∀ j l, ls j = some l → consumerLoop (σ j) l = true := fun j l taken =>
    (move_at sync behavior always taken).1.loop
  have nothing : (σ n).consumed.length = (σ n).pushed.length := by
    by_contra differs
    have some_left := Nat.lt_of_le_of_ne (always n).inv.ordered differs
    refine fair.exhausts behavior State.toPop n enabled ?_ ?_
    · intro j l le taken mine
      obtain ⟨_, move⟩ := move_at sync behavior always taken
      have consumed := calm.consumed j le
      have pushed := calm.pushed j le
      apply move.lowers_toPop (always j).inv mine (calm.newest j l le taken) (loop j l taken)
      · omega
      · rw [calm.consumed (j + 1) (by omega), consumed]
    · intro j l le taken theirs
      exact Nat.le_of_eq (keeps j l le taken theirs).toPop
  refine ⟨nothing, fun closed => ?_⟩
  refine fair.exhausts behavior State.toLeave n enabled ?_ ?_
  · intro j l le taken mine
    obtain ⟨_, move⟩ := move_at sync behavior always taken
    have consumed := calm.consumed j le
    have pushed := calm.pushed j le
    apply move.lowers_toLeave (always j).inv mine (calm.newest j l le taken) (loop j l taken)
    · omega
    · rw [calm.flags j le, closed]
  · intro j l le taken theirs
    exact Nat.le_of_eq (keeps j l le taken theirs).toLeave

omit calm

theorem terminates (fair : ∀ a, Fair (step r) (Program items) (Label.works a) σ ls)
    (visible : Visible σ ls) (throws : ∃ n, ∀ j, n ≤ j → ls j ≠ some .throw) :
    ∃ n, ∀ j, n ≤ j → Finished items (σ j) := by
  obtain ⟨n, calm⟩ := exists_calm sync behavior always visible throws
  by_cases leaves : ∃ j, n ≤ j ∧ (σ j).left = true
  · obtain ⟨j, _, left⟩ := leaves
    have script := (always j).script
    have closed := script.told ((State.left_iff (σ j)).mp left).2
    obtain ⟨all, idle⟩ := script.idle closed
    refine ⟨j, fun k le => behavior.stays (Finished items) ?_ ⟨all, idle, closed, left⟩ le⟩
    intro k l _ taken finished
    obtain ⟨program, moved⟩ := behavior.step_at taken
    rw [finished.stuck program] at moved
    cases moved
  · push Not at leaves
    have stays : ∀ j, n ≤ j → (σ j).left = false := fun j le => by simpa using leaves j le
    obtain ⟨nothing, still_open⟩ :=
      calm.consumer_leaves sync behavior always (fair .consumer) stays
    -- the buffer is empty, so that the producer cannot be waiting for room
    have room : (σ n).pushed.length < (σ n).consumed.length + e.bound := by
      have := e.bound_pos
      omega
    exact absurd (calm.producer_done sync behavior always (fair .producer) room) still_open

end Behaviors

/-- Every behaviour of the transfer, over any of the classes, ends with all items pushed and
the consumer out of its loop, if the scheduler is fair to both threads and stores become
visible some time. The loads may be as stale as they like until then. -/
theorem spsc_transfer_terminates (c : Class) (member : c ∈ queueClasses) (env : Environment)
    (n : Nat) (r : Ring) (made : c.construct env n = .ok r) (fits : c.Fits env n)
    (items : List α) (σ : Nat → State α) (ls : Nat → Option (Label α))
    (behavior : Behavior (step r) (Program items) σ ls) (starts : σ 0 = start α)
    (fair : ∀ a, Fair (step r) (Program items) (Label.works a) σ ls) (visible : Visible σ ls)
    (throws : ∃ n, ∀ j, n ≤ j → ls j ≠ some .throw) :
    ∃ n, ∀ j, n ≤ j → Finished items (σ j) := by
  obtain ⟨e, _, _, sync⟩ := queue_encoding member made fits
  have always : ∀ i, Transferring e items (σ i) := behavior.invariant _
    (fun s l t now program moved => now.step sync program moved)
    (starts ▸ transferring_start e items)
  exact terminates sync behavior always fair visible throws

theorem spsc_transfer_terminates_at_one : ∃ (σ : Nat → State Nat) (n : Nat),
    σ 0 = start Nat ∧ ∀ j, n ≤ j → Finished [7] (σ j) := by
  have ends : (exec (step (spscBuffer.ring .desktop 1)) (start Nat) closedBeforeFront).isSome := by
    decide
  have run := Run.of_exec ends (by decide : Along _ (Program [7]) _ _)
  have finished : Finished [7] (Option.get _ ends) := ⟨rfl, rfl, rfl, rfl⟩
  have done : ∀ a, ¬ Enabled (step (spscBuffer.ring .desktop 1)) (Program [7]) (Label.works a)
      (Option.get _ ends) := by
    rintro a ⟨l, t, _, program, moved⟩
    rw [finished.stuck program] at moved
    cases moved
  have silent : ∀ j l, closedBeforeFront.length ≤ j → closedBeforeFront[j]? ≠ some l := by
    intro j l le taken
    rw [List.getElem?_eq_none le] at taken
    cases taken
  obtain ⟨n, finished⟩ := spsc_transfer_terminates spscBuffer
    (by simp [queueClasses, slackClasses]) .desktop 1 _ rfl (by decide) [7] _ _
    (behavior_of_run run) (states_zero _ _) (fun a => fair_of_run run (done a))
    (fun k i j _ => ⟨_, fun j le l x taken => absurd taken (silent j l le)⟩)
    ⟨_, fun j le => silent j _ le⟩
  exact ⟨_, n, states_zero _ _, finished⟩

end RingBuffers.Spsc
