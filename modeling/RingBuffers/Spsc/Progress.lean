import RingBuffers.Spsc.Classes
import RingBuffers.Spsc.Independence

/-! Calls that return. Each thread can always take its next step, whatever the other has left
unfinished, and every call but `emplace` has a fixed number of steps. -/
namespace RingBuffers.Spsc
open ReleaseAcquire Transition

variable {α : Type} {r : Ring}

def Label.calls : Agent → Label α → Bool
  | .producer, .emplace _ | .producer, .tryEmplace _ | .producer, .close => true
  | .consumer, .front | .consumer, .pop | .consumer, .closed => true
  | _, _ => false

def Label.advances : Agent → Label α → Bool
  | .producer, .producer _ | .consumer, .consumer _ => true
  | _, _ => false

def Label.advance : Agent → Nat → Label α
  | .producer, i => .producer i
  | .consumer, i => .consumer i

def State.rests (s : State α) : Agent → Prop
  | .producer => s.producer = .idle
  | .consumer => s.consumer = .idle

def ProducerPC.mode : ProducerPC α → Option Mode
  | .idle | .storeClosed => none
  | .loadPushCursor mode _ => some mode
  | .readCache f | .loadPopCursor f | .loaded f _ | .recheck f | .construct f
  | .storePushCursor f => some f.mode

/-- The steps a call still takes, at most; for an `emplace` those of one round of its loop. -/
def ProducerPC.left : ProducerPC α → Nat
  | .idle => 0
  | .storeClosed | .storePushCursor _ => 1
  | .construct _ => 2
  | .recheck _ => 3
  | .loaded _ _ => 4
  | .loadPopCursor _ => 5
  | .readCache _ => 6
  | .loadPushCursor _ _ => 7

def ConsumerPC.left : ConsumerPC α → Nat
  | .idle => 0
  | .frontRecheck _ | .popStore _ _ | .loadClosed => 1
  | .frontLoaded _ _ | .popDestroy _ => 2
  | .frontLoadPush _ | .popAssert _ => 3
  | .frontReadCache _ | .popLoadPop => 4
  | .frontLoadPop => 5

def State.remains (s : State α) : Agent → Nat
  | .producer => s.producer.left
  | .consumer => s.consumer.left

/-- The thread is not in the loop of an `emplace`. -/
def State.straight (s : State α) : Agent → Prop
  | .producer => s.producer.mode ≠ some .emplace
  | .consumer => True

section Steps

variable {e : Encoding r} {s t : State α}

theorem grounded_atomics : Grounded (Atomics.start α) := grounded_start _

theorem Move.grounded {l : Label α} (move : Move e s l t) (grounded : Grounded s.memory) :
    Grounded t.memory := by
  cases move with
  | loadPush i mode v f m at_pc load | loadPop i x f m at_pc load | frontLoadPop i m at_pc load
  | frontLoadPush i pop x m at_pc load | popLoadPop i m at_pc load
  | popAssert i pop x m at_pc load | loadClosed i b m at_pc load => exact grounded.load load
  | construct | destroy => exact grounded.perform _
  | publish | storeClosed | giveBack => exact grounded.store
  | _ => exact grounded

theorem Inv.advances (inv : Inv e s) (grounded : Grounded s.memory) {a : Agent}
    (busy : ¬ s.rests a) : ∃ i, newest s (.advance a i) = true ∧
      (step r s (.advance a i)).isSome = true := by
  have sound : s.fault.isSome = false := by rw [inv.sound]; rfl
  have last : ∀ (b : Agent) (k : Loc) (o : Order),
      (s.memory.history k).length - 1 + 1 = (s.memory.history k).length ∧
        (s.memory.load b k o ((s.memory.history k).length - 1)).isSome = true := by
    intro b k o
    obtain ⟨x, m, load⟩ := grounded.readable b k o
    have below := grounded.agents b k
    exact ⟨by omega, by rw [load]; rfl⟩
  cases a with
  | producer =>
    cases at_pc : s.producer with
    | idle => exact absurd at_pc busy
    | loadPushCursor mode v =>
      obtain ⟨newest, read⟩ := last .producer .pushCursor r.own
      refine ⟨(s.memory.history .pushCursor).length - 1, ?_, ?_⟩
      · simpa [Spsc.newest, loads, Label.advance, at_pc] using newest
      · simpa [step, sound, Label.advance, producerStep, at_pc] using read
    | loadPopCursor f =>
      obtain ⟨newest, read⟩ := last .producer .popCursor r.other
      refine ⟨(s.memory.history .popCursor).length - 1, ?_, ?_⟩
      · simpa [Spsc.newest, loads, Label.advance, at_pc] using newest
      · simpa [step, sound, Label.advance, producerStep, at_pc] using read
    | recheck f =>
      refine ⟨0, by simp [newest, loads, Label.advance, at_pc], ?_⟩
      simp only [Label.advance, step, sound, Bool.false_eq_true, if_false, producerStep, at_pc]
      split <;> rfl
    | _ =>
      refine ⟨0, by simp [newest, loads, Label.advance, at_pc], ?_⟩
      simp [Label.advance, step, sound, producerStep, at_pc]
  | consumer =>
    cases at_pc : s.consumer with
    | idle => exact absurd at_pc busy
    | frontLoadPop | popLoadPop =>
      obtain ⟨newest, read⟩ := last .consumer .popCursor r.own
      refine ⟨(s.memory.history .popCursor).length - 1, ?_, ?_⟩
      · simpa [Spsc.newest, loads, Label.advance, at_pc] using newest
      · simpa [step, sound, Label.advance, consumerStep, at_pc] using read
    | frontLoadPush pop | popAssert pop =>
      obtain ⟨newest, read⟩ := last .consumer .pushCursor r.other
      refine ⟨(s.memory.history .pushCursor).length - 1, ?_, ?_⟩
      · simpa [Spsc.newest, loads, Label.advance, at_pc] using newest
      · simpa [step, sound, Label.advance, consumerStep, at_pc] using read
    | loadClosed =>
      obtain ⟨newest, read⟩ := last .consumer .closed r.other
      refine ⟨(s.memory.history .closed).length - 1, ?_, ?_⟩
      · simpa [Spsc.newest, loads, Label.advance, at_pc] using newest
      · simpa [step, sound, Label.advance, consumerStep, at_pc] using read
    | frontReadCache pop | frontRecheck pop =>
      refine ⟨0, by simp [newest, loads, Label.advance, at_pc], ?_⟩
      simp only [Label.advance, step, sound, Bool.false_eq_true, if_false, consumerStep, at_pc]
      split <;> rfl
    | _ =>
      refine ⟨0, by simp [newest, loads, Label.advance, at_pc], ?_⟩
      simp [Label.advance, step, sound, consumerStep, at_pc]

structure SameProducer (s t : State α) : Prop where
  producer : t.producer = s.producer
  popCursorCache : t.popCursorCache = s.popCursorCache
  pushed : t.pushed = s.pushed

structure SameConsumer (s t : State α) : Prop where
  consumer : t.consumer = s.consumer
  pushCursorCache : t.pushCursorCache = s.pushCursorCache
  consumerResult : t.consumerResult = s.consumerResult
  consumed : t.consumed = s.consumed

theorem Move.keeps_producer {l : Label α} (move : Move e s l t) (theirs : l.consumers = true) :
    SameProducer s t := by
  cases move <;> first | exact ⟨rfl, rfl, rfl⟩ | cases theirs

theorem Move.keeps_consumer {l : Label α} (move : Move e s l t) (theirs : l.consumers = false) :
    SameConsumer s t := by
  cases move <;> first | exact ⟨rfl, rfl, rfl, rfl⟩ | cases theirs

theorem Move.lowers_producer {l : Label α} (move : Move e s l t)
    (mine : l.advances .producer = true) (tries : s.producer.mode ≠ some .emplace) :
    t.producer.left < s.producer.left ∧ t.producer.mode ≠ some .emplace := by
  cases move with
  | loadPush i mode v f m at_pc load frame =>
    subst frame
    rw [at_pc] at tries
    cases r.cached <;> simpa [at_pc, ProducerPC.left, ProducerPC.mode] using tries
  | loadedCache i f pop at_pc =>
    rw [at_pc] at tries
    cases mode : f.mode with
    | emplace => exact absurd (congrArg some mode) tries
    | tryEmplace => simp [at_pc, ProducerPC.left, ProducerPC.mode, mode]
  | loadedSpin i f pop at_pc cached mode =>
    rw [at_pc] at tries
    exact absurd (congrArg some mode) tries
  | cacheFull i f at_pc | cacheRoom i f at_pc | loadPop i x f m at_pc | loadedRoom i f pop at_pc
  | recheckRoom i f at_pc | construct i f at_pc =>
    rw [at_pc] at tries
    simpa [at_pc, ProducerPC.left, ProducerPC.mode] using tries
  | loadedFull i f pop at_pc | recheckFull i f at_pc | publish i f at_pc | storeClosed i at_pc =>
    simp [at_pc, ProducerPC.left, ProducerPC.mode]
  | _ => cases mine

theorem Move.lowers_consumer {l : Label α} (move : Move e s l t)
    (mine : l.advances .consumer = true) : t.consumer.left < s.consumer.left := by
  cases move with
  | frontLoadPop i m at_pc => cases r.cached <;> simp [at_pc, ConsumerPC.left]
  | popLoadPop i m at_pc => cases r.ndebug <;> simp [at_pc, ConsumerPC.left]
  | frontCacheEmpty i pop at_pc | frontCacheHit i pop at_pc | frontLoadPush i pop x m at_pc
  | frontLoadedCache i pop push at_pc | frontLoadedNull i pop push at_pc
  | frontLoadedHit i pop push at_pc | frontNull i pop at_pc | frontHit i pop at_pc
  | popAssert i pop x m at_pc | destroy i pop v at_pc | giveBack i pop v at_pc
  | loadClosed i b m at_pc => simp [at_pc, ConsumerPC.left]
  | _ => cases mine

theorem Move.remains {l : Label α} (move : Move e s l t) {a : Agent} (straight : s.straight a)
    (running : l.calls a = false) :
    t.straight a ∧ (l.advances a = true → t.remains a < s.remains a) ∧
      (l.advances a = false → t.remains a ≤ s.remains a) := by
  cases a with
  | producer =>
    cases l with
    | producer i =>
      obtain ⟨lower, still⟩ := move.lowers_producer rfl straight
      exact ⟨still, fun _ => lower, nofun⟩
    | emplace v | tryEmplace v | close => cases running
    | throw =>
      cases move
      exact ⟨nofun, nofun, fun _ => Nat.zero_le _⟩
    | front | pop | closed | consumer i | read =>
      have same := (move.keeps_producer rfl).producer
      simp only [State.straight, State.remains, same]
      exact ⟨straight, nofun, fun _ => Nat.le_refl _⟩
  | consumer =>
    refine ⟨trivial, fun mine => move.lowers_consumer mine, fun mine => ?_⟩
    cases l with
    | consumer i => cases mine
    | front | pop | closed => cases running
    | read =>
      cases move
      exact Nat.le_refl _
    | emplace v | tryEmplace v | close | producer i | throw =>
      have same := (move.keeps_consumer rfl).consumer
      simp only [State.remains, same]
      exact Nat.le_refl _

end Steps

/-- The call `k` of a thread, made in `s`, returns within `n` steps of that thread: until then
the thread has taken fewer and can take another, whatever the other thread is doing. -/
def ReturnsWithin (r : Ring) (s : State α) (a : Agent) (k : Label α) (n : Nat) : Prop :=
  ∀ ls t, Run (step r) (fun s l => frontFirst s l = true) s (k :: ls) t →
    (∀ l ∈ ls, l.calls a = false) →
    t.rests a ∨ ls.countP (Label.advances a) < n ∧ ∃ i, (step r t (.advance a i)).isSome = true

structure WaitFree (r : Ring) (s : State α) : Prop where
  tryEmplace : ∀ v, ReturnsWithin r s .producer (.tryEmplace v) 7
  close : ReturnsWithin r s .producer .close 1
  front : ReturnsWithin r s .consumer .front 5
  pop : ReturnsWithin r s .consumer .pop 4
  closed : ReturnsWithin r s .consumer .closed 1

section Calls

variable {e : Encoding r} {s : State α}

theorem remains_pos {a : Agent} (busy : ¬ s.rests a) : 0 < s.remains a := by
  cases a with
  | producer =>
    cases at_pc : s.producer with
    | idle => exact absurd at_pc busy
    | _ => simp [State.remains, at_pc, ProducerPC.left]
  | consumer =>
    cases at_pc : s.consumer with
    | idle => exact absurd at_pc busy
    | _ => simp [State.remains, at_pc, ConsumerPC.left]

theorem Inv.returnsWithin (inv : Inv e s) (sync : Synchronizes r) (grounded : Grounded s.memory)
    {a : Agent} {k : Label α} {n : Nat}
    (enters : ∀ u, Move e s k u → u.straight a ∧ u.remains a ≤ n) : ReturnsWithin r s a k n := by
  intro ls t run running
  obtain ⟨contract, u, moved, rest⟩ := (run_cons s t k ls).mp run
  have called := step_move inv sync contract moved
  obtain ⟨straight, enough⟩ := enters u called
  have inv' := called.inv inv sync
  have kept : ∀ (s : State α) l t, (Inv e s ∧ Grounded s.memory) ∧ s.straight a →
      frontFirst s l = true ∧ l.calls a = false → step r s l = some t →
      (Inv e t ∧ Grounded t.memory) ∧ t.straight a := by
    intro s l t ⟨⟨inv, grounded⟩, straight⟩ ⟨contract, mine⟩ h
    have move := step_move inv sync contract h
    exact ⟨⟨move.inv inv sync, move.grounded grounded⟩, (move.remains straight mine).1⟩
  have alone : Run (step r) (fun s l => frontFirst s l = true ∧ l.calls a = false) u ls t :=
    ⟨rest.ends, rest.obeys.labels _ running⟩
  have initial := And.intro (And.intro inv' (called.grounded grounded)) straight
  have spent := alone.spends (fun s => s.remains a) (Label.advances a) _ kept
    (fun s l t ⟨⟨inv, _⟩, straight⟩ ⟨contract, mine⟩ h =>
      ((step_move inv sync contract h).remains straight mine).2.1)
    (fun s l t ⟨⟨inv, _⟩, straight⟩ ⟨contract, mine⟩ h =>
      ((step_move inv sync contract h).remains straight mine).2.2) initial
  obtain ⟨⟨last, ground⟩, _⟩ := alone.invariant _ kept initial
  by_cases returned : t.rests a
  · exact .inl returned
  · have pending := remains_pos returned
    obtain ⟨i, _, possible⟩ := last.advances ground returned
    exact .inr ⟨by omega, i, possible⟩

theorem Inv.waitFree (inv : Inv e s) (sync : Synchronizes r) (grounded : Grounded s.memory) :
    WaitFree r s where
  tryEmplace v := inv.returnsWithin sync grounded fun u move => by
    cases move
    exact ⟨by simp [State.straight, ProducerPC.mode], Nat.le_refl _⟩
  close := inv.returnsWithin sync grounded fun u move => by
    cases move
    exact ⟨nofun, Nat.le_refl _⟩
  front := inv.returnsWithin sync grounded fun u move => by
    cases move
    exact ⟨trivial, Nat.le_refl _⟩
  pop := inv.returnsWithin sync grounded fun u move => by
    cases move
    exact ⟨trivial, Nat.le_refl _⟩
  closed := inv.returnsWithin sync grounded fun u move => by
    cases move
    exact ⟨trivial, Nat.le_refl _⟩

end Calls

/-- In every reachable state, and however stale the loads are, each call but `emplace` is
wait-free. -/
theorem calls_wait_free (c : Class) (member : c ∈ queueClasses) (env : Environment) (n : Nat)
    (r : Ring) (made : c.construct env n = .ok r) (fits : c.Fits env n) (ls : List (Label α))
    (s : State α) (run : Run (step r) (fun s l => frontFirst s l = true) (start α) ls s) :
    WaitFree r s := by
  obtain ⟨e, _, _, sync⟩ := queue_encoding member made fits
  have ⟨inv, grounded⟩ := run.invariant (fun s => Inv e s ∧ Grounded s.memory)
    (fun s l t ⟨inv, grounded⟩ contract h =>
      have move := step_move inv sync contract h
      ⟨move.inv inv sync, move.grounded grounded⟩) ⟨inv_start e, grounded_atomics⟩
  exact inv.waitFree sync grounded

/-- On a full buffer whose consumer is stopped in the middle of `pop()`. -/
theorem calls_wait_free_at_one : ∃ s : State Nat, WaitFree (spscBuffer.ring .desktop 1) s ∧
    s.consumer = .popStore 0 7 ∧ s.queue = [7] :=
  ⟨_, calls_wait_free spscBuffer (by simp [queueClasses, slackClasses]) .desktop 1 _ rfl
    (by decide)
    [.tryEmplace 7, .producer 0, .producer 0, .producer 0, .producer 0, .front, .consumer 0,
      .consumer 0, .consumer 1, .consumer 0, .consumer 0, .pop, .consumer 0, .consumer 1,
      .consumer 0] _ (Run.of_exec (by decide) (by decide)), rfl, by decide⟩

end RingBuffers.Spsc
