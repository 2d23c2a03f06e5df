import RingBuffers.Spsc.Classes
import RingBuffers.Spsc.Begun

/-! The calls as steps and the calls as functions. When calls do not overlap and no load is
stale, the machine computes what the functions say, cached cursors and all. -/
namespace RingBuffers.Spsc
open BoundedQueue Calls ReleaseAcquire Transition

variable {α : Type} {r : Ring}

section Steps

variable {e : Encoding r} {x : Session α} {s t : State α} {l : Label α}

theorem Inv.serial_throws (inv : Inv e s) (serial : Serial r x s) {f : Frame α}
    (at_pc : s.producer = .construct f)
    (threw : t = { s with producer := .idle, pushResult := some .threw }) :
    ∃ y, Path (Serves r) x (reports s t) y ∧ Serial r y t := by
  subst threw
  obtain ⟨slot, free⟩ := inv.construct_slot at_pc
  have at_slot : r.slot s.toBuffer.pushCursor = some (e.index s.pushed.length) := by
    rw [inv.toBuffer_cursors.1]
    exact e.slot_cursor _
  have vacant : s.toBuffer.slots (e.index s.pushed.length) = none := free
  refine serial.ends_push at_pc rfl rfl rfl (o := .threw) rfl rfl ?_
  simp only [ProducerPC.finish, concludePush, at_slot, vacant, beq_self_eq_true, if_true]
  rfl

theorem Move.serial_producer {i : Nat} (move : Move e s (.producer i) t) (inv : Inv e s)
    (fresh : s.Fresh) (now : newest s (.producer i) = true) (serial : Serial r x s) :
    ∃ y, Path (Serves r) x (reports s t) y ∧ Serial r y t := by
  have producer := inv.producer
  obtain ⟨pushCursor, popCursor⟩ := inv.toBuffer_cursors
  cases move with
  | loadPush i mode v f m at_pc load at_f =>
    subst at_f
    refine serial.keeps_push at_pc (by simp) (by cases r.cached <;> simp) rfl rfl
      (by cases r.cached <;> simp) ?_
    intro throws op pending
    have next : r.next s.toBuffer.pushCursor = some (e.cursor (s.pushed.length + 1)) := by
      rw [pushCursor]
      exact e.next_cursor _
    have begins := performPush_eq throws mode v next
    rw [pushCursor] at begins
    rw [toBuffer_load load]
    refine ⟨?_, begins.symm⟩
    cases cached : r.cached <;> simpa [cached, ProducerPC.operation] using pending
  | cacheFull i f at_pc full =>
    rw [at_pc] at producer
    have none_ : ¬ s.pushed.length < s.popCursorCache.stamp + e.bound := by omega
    refine serial.keeps_push at_pc (by simp) (by simp) rfl rfl (by simp) ?_
    intro throws op pending
    refine ⟨pending, ?_⟩
    simp only [ProducerPC.finish, inv.roomIn_cache producer, none_, decide_false,
      Bool.false_eq_true, if_false]
    rfl
  | cacheRoom i f at_pc free =>
    rw [at_pc] at producer
    refine serial.keeps_push at_pc (by simp) (by simp) rfl rfl (by simp) ?_
    intro throws op pending
    refine ⟨pending, ?_⟩
    simp only [ProducerPC.finish, inv.roomIn_cache producer, free, decide_true, if_true]
    rfl
  | loadPop i y f m at_pc load value =>
    have current := inv.newest_pop at_pc now
    have same : y = s.toBuffer.popCursor := by rw [value, current, popCursor]
    refine serial.keeps_push at_pc (by simp) (by simp) rfl rfl ?_ ?_
    · intro g pop at_loaded
      cases at_loaded
      rw [toBuffer_load load]
      exact same
    · intro throws op pending
      rw [toBuffer_load load]
      refine ⟨pending, ?_⟩
      simp only [ProducerPC.finish, same]
  | loadedCache i f pop at_pc cached =>
    have same := serial.reads f pop at_pc
    refine serial.keeps_push at_pc (by simp) (by cases f.mode <;> simp) rfl rfl
      (by cases f.mode <;> simp) ?_
    intro throws op pending
    cases mode : f.mode with
    | tryEmplace =>
      simp only [mode] at pending ⊢
      exact ⟨pending, rfl⟩
    | emplace =>
      simp only [mode] at pending ⊢
      refine ⟨pending, ?_⟩
      exact congrArg (concludePush r throws f)
        (roomIn_again (b := { s.toBuffer with popCursorCache := pop.value }) same)
  | loadedSpin i f pop at_pc cached mode full =>
    have same := serial.reads f pop at_pc
    refine serial.keeps_push at_pc (by simp) (by simp) rfl rfl (by simp) ?_
    intro throws op pending
    refine ⟨pending, ?_⟩
    simp only [ProducerPC.finish, same]
    rfl
  | loadedFull i f pop at_pc cached mode full =>
    have none_ : ¬ s.pushed.length < pop.stamp + e.bound := by omega
    refine serial.ends_push at_pc rfl rfl rfl rfl (o := .answer (.pushed false)) ?_ ?_
    · simp [Mode.operation, mode, Operation.outcome]
    · simp only [ProducerPC.finish, inv.roomIn_loaded at_pc, none_, decide_false, concludePush,
        mode]
      rfl
  | loadedRoom i f pop at_pc cached free =>
    refine serial.keeps_push at_pc (by simp) (by simp) rfl rfl (by simp) ?_
    intro throws op pending
    refine ⟨pending, ?_⟩
    simp only [ProducerPC.finish, inv.roomIn_loaded at_pc, free, decide_true]
    rfl
  | recheckFull i f at_pc mode full =>
    have none_ : ¬ s.pushed.length < s.popCursorCache.stamp + e.bound := by omega
    rw [at_pc] at producer
    refine serial.ends_push at_pc rfl rfl rfl rfl (o := .answer (.pushed false)) ?_ ?_
    · simp [Mode.operation, mode, Operation.outcome]
    · simp only [ProducerPC.finish, inv.roomIn_cache producer.1, none_, decide_false, concludePush,
        mode]
      rfl
  | recheckRoom i f at_pc free =>
    rw [at_pc] at producer
    refine serial.keeps_push at_pc (by simp) (by simp) rfl rfl (by simp) ?_
    intro throws op pending
    refine ⟨pending, ?_⟩
    simp only [ProducerPC.finish, inv.roomIn_cache producer.1, free, decide_true]
    rfl
  | construct i f at_pc =>
    obtain ⟨slot, free⟩ := inv.construct_slot at_pc
    rw [at_pc] at producer
    refine serial.keeps_push at_pc (by simp) (by simp) rfl rfl (by simp) ?_
    intro throws op pending
    cases throws with
    | true => cases pending
    | false =>
      refine ⟨pending, ?_⟩
      have at_slot : r.slot s.toBuffer.pushCursor = some (e.index s.pushed.length) := by
        rw [pushCursor]
        exact e.slot_cursor _
      have vacant : s.toBuffer.slots (e.index s.pushed.length) = none := free
      simp only [ProducerPC.finish, concludePush, constructNext, at_slot, vacant,
        Bool.false_eq_true, if_false]
      rfl
  | publish i f at_pc =>
    refine serial.ends_push at_pc rfl rfl rfl rfl (o := f.mode.accepted) ?_ ?_
    · cases mode : f.mode <;> rfl
    · simp [ProducerPC.finish, State.toBuffer, Memory.newest, Memory.store]
  | storeClosed i at_pc =>
    have nothing : s.pushResult = none := fresh (by simp [at_pc])
    have pending : (.storeClosed : ProducerPC α).operation (s.pushResult == some .threw) =
        some (.call .close) := by
      simp [ProducerPC.operation, nothing]
    refine serial.ends_push at_pc rfl rfl rfl (o := .answer .done) pending ?_ ?_
    · simp [Operation.outcome, nothing]
    · simp [ProducerPC.finish, Spsc.close, State.toBuffer, Memory.newest, Memory.store]

theorem Move.serial_consumer {i : Nat} (move : Move e s (.consumer i) t) (inv : Inv e s)
    (now : newest s (.consumer i) = true) (serial : Serial r x s) :
    ∃ y, Path (Serves r) x (reports s t) y ∧ Serial r y t := by
  have consumer := inv.consumer
  obtain ⟨pushCursor, popCursor⟩ := inv.toBuffer_cursors
  cases move with
  | frontLoadPop i m at_pc load =>
    refine serial.keeps_pull at_pc (by simp) (by cases r.cached <;> simp) rfl rfl ?_ ?_
    · cases r.cached <;> rfl
    · rw [toBuffer_load load]
      simp only [ConsumerPC.finish, perform_front, popCursor]
      cases r.cached <;> rfl
  | frontCacheEmpty i pop at_pc empty =>
    rw [at_pc] at consumer
    have misses : pop = s.toBuffer.pushCursorCache := (inv.misses_cache consumer).mpr empty
    refine serial.keeps_pull at_pc (by simp) (by simp) rfl rfl rfl ?_
    simp only [ConsumerPC.finish]
    rw [if_pos misses]
    rfl
  | frontCacheHit i pop at_pc covered | frontHit i pop at_pc covered =>
    rw [at_pc] at consumer
    have misses : ¬ pop = s.pushCursorCache.value := by
      rw [inv.misses_cache consumer]
      omega
    have test : ¬ pop = s.toBuffer.pushCursorCache := misses
    obtain ⟨v, present, live⟩ := inv.oldest_slot (by rw [at_pc]; rfl) covered
    have slot := e.slot_cursor s.consumed.length
    rw [← consumer] at slot
    have there : s.toBuffer.slots (e.index s.consumed.length) = some v := live
    refine serial.ends_pull at_pc rfl rfl (a := .front (some v)) ?_ rfl ?_ ?_
    · simp [heldAfter]
    · simp [ConsumerResult.answer, live]
    · simp only [ConsumerPC.finish, concludeFront]
      rw [if_neg test]
      simp only [lookAt, slot, there]
      rfl
  | frontLoadPush i pop y m at_pc load value =>
    have current := inv.newest_push at_pc now
    have same : y = s.toBuffer.pushCursor := by rw [value, current, pushCursor]
    refine serial.keeps_pull at_pc (by simp) (by simp) rfl rfl rfl ?_
    rw [toBuffer_load load]
    simp only [ConsumerPC.finish, same]
  | frontLoadedCache i pop push at_pc cached =>
    refine serial.keeps_pull at_pc (by simp) (by simp) rfl rfl rfl ?_
    rfl
  | frontLoadedNull i pop push at_pc cached empty =>
    have misses := (inv.misses_loaded at_pc).mpr empty
    refine serial.ends_pull at_pc rfl rfl (a := .front none) ?_ rfl rfl ?_
    · simp [heldAfter]
    · simp only [ConsumerPC.finish, concludeFront, misses, if_true]
      rfl
  | frontLoadedHit i pop push at_pc cached covered =>
    have misses : ¬ pop = push.value := by
      rw [inv.misses_loaded at_pc]
      omega
    rw [at_pc] at consumer
    have newer :=
      inv.toPushCache push (.frontRecheck pop) (by rw [at_pc]; rfl) consumer.2 consumer.1
    obtain ⟨v, present, live⟩ := newer.oldest_slot rfl covered
    have slot := e.slot_cursor s.consumed.length
    rw [← consumer.1] at slot
    have there : s.slots (e.index s.consumed.length) = some v := live
    have inside : s.toBuffer.slots (e.index s.consumed.length) = some v := live
    refine serial.ends_pull at_pc rfl rfl (a := .front (some v)) ?_ rfl ?_ ?_
    · simp [heldAfter]
    · simp [ConsumerResult.answer, there]
    · simp only [ConsumerPC.finish, concludeFront, if_neg misses, lookAt, slot, inside]
      rfl
  | frontNull i pop at_pc empty =>
    rw [at_pc] at consumer
    have misses := (inv.misses_cache consumer).mpr empty
    have test : pop = s.toBuffer.pushCursorCache := misses
    refine serial.ends_pull at_pc rfl rfl (a := .front none) ?_ rfl rfl ?_
    · simp [heldAfter]
    · simp only [ConsumerPC.finish, concludeFront]
      rw [if_pos test]
      rfl
  | popLoadPop i m at_pc load =>
    refine serial.keeps_pull at_pc (by simp) (by cases r.ndebug <;> simp) rfl rfl ?_ ?_
    · cases r.ndebug <;> rfl
    · rw [toBuffer_load load]
      simp only [ConsumerPC.finish, perform_pop, popCursor]
      cases r.ndebug <;> rfl
  | popAssert i pop y m at_pc load value covered =>
    have ahead := inv.ahead
    have bounded := inv.bounded
    rw [at_pc] at consumer
    obtain ⟨_, lt, same⟩ := consumer
    have passes : ¬ pop = s.toBuffer.pushCursor := by
      rw [same, pushCursor, e.empty_iff _ _ (by omega) (by omega)]
      omega
    refine serial.keeps_pull at_pc (by simp) (by simp) rfl rfl rfl ?_
    rw [toBuffer_load load]
    simp only [ConsumerPC.finish]
    rw [if_neg passes]
  | destroy i pop v at_pc present =>
    rw [at_pc] at consumer
    obtain ⟨_, lt, same⟩ := consumer
    obtain ⟨w, present', live⟩ := inv.oldest_slot (by rw [at_pc]; rfl) lt
    obtain rfl := Option.some.inj (present.symm.trans present')
    have slot := e.slot_cursor s.consumed.length
    rw [← same] at slot
    have inside : s.toBuffer.slots (e.index s.consumed.length) = some v := live
    refine serial.keeps_pull at_pc (by simp) (by simp) rfl rfl rfl ?_
    simp only [ConsumerPC.finish, destroyFront, slot, inside]
    rfl
  | giveBack i pop v at_pc present =>
    rw [at_pc] at consumer
    obtain ⟨fresh, lt, same, _⟩ := consumer
    have next := e.next_cursor s.consumed.length
    rw [← same] at next
    refine serial.ends_pull at_pc rfl rfl (a := .done) ?_ rfl rfl ?_
    · simp [heldAfter, fresh]
    · simp [ConsumerPC.finish, concludePop, next, State.toBuffer, Memory.newest, Memory.store]
  | loadClosed i b m at_pc load =>
    have members := toBuffer_load load s.producer .idle (some (.closed b))
    obtain ⟨_, msg, at_i, answer⟩ := load_value load
    have closed : s.toBuffer.closed = b := by
      simp only [newest, loads, at_pc, beq_iff_eq] at now
      rw [State.toBuffer, newest_eq now.symm at_i, answer, Option.getD_some]
    refine serial.ends_pull at_pc rfl rfl (a := .closed b) ?_ rfl rfl ?_
    · simp [heldAfter]
    · rw [members]
      simp only [ConsumerPC.finish, closed]

theorem Move.serial (move : Move e s l t) (inv : Inv e s) (fresh : s.Fresh) (now : newest s l = true)
    (separate : apart s l = true) (serial : Serial r x s) :
    ∃ y, Path (Serves r) x (reports s t) y ∧ Serial r y t := by
  cases l with
  | producer i => exact move.serial_producer inv fresh now serial
  | consumer i => exact move.serial_consumer inv now serial
  | emplace v =>
    cases move with
    | emplace _ idle =>
      exact stays (reports_none (.inr (by simp)) (.inl rfl)) rfl
        (serial.starts_mode idle (ConsumerPC.eq_idle separate) .emplace v)
  | tryEmplace v =>
    cases move with
    | tryEmplace _ idle =>
      exact stays (reports_none (.inr (by simp)) (.inl rfl)) rfl
        (serial.starts_mode idle (ConsumerPC.eq_idle separate) .tryEmplace v)
  | close =>
    cases move with
    | close idle =>
      exact stays (reports_none (.inr (by simp)) (.inl rfl)) rfl
        (serial.starts_close idle (ConsumerPC.eq_idle separate))
  | front =>
    cases move with
    | front idle =>
      have quiet : s.quiet := ⟨ProducerPC.eq_idle separate, idle⟩
      obtain rfl := serial.rests quiet
      exact stays (reports_none (.inl rfl) (.inr (by simp))) rfl
        (starts_pull quiet rfl (by simp) rfl rfl fun _ => rfl)
  | pop =>
    cases move with
    | pop idle =>
      have quiet : s.quiet := ⟨ProducerPC.eq_idle separate, idle⟩
      obtain rfl := serial.rests quiet
      exact stays (reports_none (.inl rfl) (.inr (by simp))) rfl
        (starts_pull quiet rfl (by simp) rfl rfl fun _ => rfl)
  | closed =>
    cases move with
    | closed idle =>
      have quiet : s.quiet := ⟨ProducerPC.eq_idle separate, idle⟩
      obtain rfl := serial.rests quiet
      exact stays (reports_none (.inl rfl) (.inr (by simp))) rfl
        (starts_pull quiet rfl (by simp) rfl rfl fun _ => rfl)
  | throw =>
    cases move with
    | threw f at_pc => exact inv.serial_throws serial at_pc rfl
  | read =>
    cases move with
    | read => exact stays (reports_none (.inl rfl) (.inl rfl)) rfl serial

theorem step_serial (sync : Synchronizes r) (here : (Inv e s ∧ s.Fresh) ∧ Serial r x s)
    (admitted : (newest s l = true ∧ frontFirst s l = true) ∧ apart s l = true)
    (h : step r s l = some t) :
    ∃ y, Path (Serves r) x (answered r s l) y ∧ (Inv e t ∧ t.Fresh) ∧ Serial r y t := by
  obtain ⟨⟨inv, fresh⟩, serial⟩ := here
  obtain ⟨⟨now, contract⟩, separate⟩ := admitted
  have move := step_move inv sync contract h
  obtain ⟨y, path, still⟩ := move.serial inv fresh now separate serial
  refine ⟨y, ?_, ⟨move.inv inv sync, move.fresh fresh⟩, still⟩
  simpa only [answered, h] using path

theorem serial_start (e : Encoding r) :
    (Inv e (start α) ∧ (start α).Fresh) ∧ Serial r (Session.start α) (start α) := by
  have members : (start α).session = Session.start α := rfl
  rw [← members]
  exact ⟨⟨inv_start e, fun busy => absurd rfl busy⟩, serial_quiet ⟨rfl, rfl⟩⟩

theorem run_returns (sync : Synchronizes r) (e : Encoding r) {ls : List (Label α)}
    (run : Run (step r) (fun s l => (newest s l = true ∧ frontFirst s l = true) ∧ apart s l = true)
      (start α) ls s) (quiet : s.quiet) :
    List.Forall₂ Returns (ls.filterMap Label.call) ((served r ls).map Prod.fst) := by
  obtain ⟨ks, same, returns⟩ := run_accounts
    (fun s => ∃ x, (Inv e s ∧ s.Fresh) ∧ Serial r x s)
    (fun s l t ⟨x, here⟩ admitted h =>
      have ⟨y, _, later⟩ := step_serial sync here admitted h
      ⟨y, later⟩)
    (fun s l t ⟨x, ⟨inv, fresh⟩, serial⟩ ⟨⟨_, contract⟩, separate⟩ h =>
      (step_move inv sync contract h).accounts fresh separate serial.alone)
    run ⟨_, serial_start e⟩
  have none_before : (start α).running = [] := rfl
  have none_left : s.running = [] := by
    rw [State.running, quiet.1, quiet.2]
    rfl
  rw [none_before, none_left, List.nil_append, List.append_nil] at same
  rw [same]
  exact returns

end Steps

/-- A run in which calls do not overlap computes the functions: the calls it makes, made one after
the other, answer the same and leave the same members between calls, cached cursors included. -/
theorem spsc_serial (c : Class) (member : c ∈ queueClasses) (env : Environment) (n : Nat)
    (r : Ring) (made : c.construct env n = .ok r) (fits : c.Fits env n)
    (ls : List (Label α)) (s : State α)
    (run : Run (step r) (fun s l => (newest s l = true ∧ frontFirst s l = true) ∧ apart s l = true)
      (start α) ls s) (quiet : s.quiet) :
    List.Forall₂ Returns (ls.filterMap Label.call) ((served r ls).map Prod.fst) ∧
      ∃ answers, serve (operate r) (Session.start α) ((served r ls).map Prod.fst) =
          .ok (answers, s.session) ∧
        (served r ls).map Prod.snd = answers.map some := by
  obtain ⟨e, _, _, sync⟩ := queue_encoding member made fits
  refine ⟨run_returns sync e run quiet, ?_⟩
  obtain ⟨y, path, _, serial⟩ := run.follows (Serves r)
    (fun s x => (Inv e s ∧ s.Fresh) ∧ Serial r x s) (answered r)
    (fun s l t x => step_serial sync) (serial_start e)
  rw [serial.rests quiet]
  exact serve_path path

/-- The second push finds the buffer full; the third is refused nothing and throws. -/
def oneByOne : List (Label Nat) :=
  [.tryEmplace 7, .producer 0, .producer 0, .producer 0, .producer 0,
    .tryEmplace 8, .producer 1, .producer 0, .producer 0, .producer 0, .producer 0,
    .front, .consumer 0, .consumer 0, .consumer 1, .consumer 0, .consumer 0, .read,
    .pop, .consumer 0, .consumer 1, .consumer 0, .consumer 0,
    .emplace 9, .producer 1, .producer 0, .producer 1, .producer 0, .producer 0, .throw]

theorem spsc_serial_at_one :
    (∃ s : State Nat, List.Forall₂ Returns (oneByOne.filterMap Label.call)
        ((served (spscBuffer.ring .desktop 1) oneByOne).map Prod.fst) ∧
      ∃ answers, serve (operate (spscBuffer.ring .desktop 1)) (Session.start Nat)
          ((served (spscBuffer.ring .desktop 1) oneByOne).map Prod.fst) =
          .ok (answers, s.session) ∧
        (served (spscBuffer.ring .desktop 1) oneByOne).map Prod.snd = answers.map some) ∧
    (served (spscBuffer.ring .desktop 1) oneByOne).map Prod.snd =
      [some (.answer (.pushed true)), some (.answer (.pushed false)),
        some (.answer (.front (some 7))), some (.answer .done), some .threw] :=
  ⟨⟨_, spsc_serial spscBuffer (by simp [queueClasses, slackClasses]) .desktop 1 _ rfl (by decide)
    oneByOne _ (Run.of_exec (by decide) (by decide)) ⟨by rfl, by rfl⟩⟩, by decide⟩

end RingBuffers.Spsc
