import RingBuffers.Spsc.Footprint
import RingBuffers.Spsc.Moves
import RingBuffers.Spsc.Sequential

/-! Where the slots of a run lie. The constructors check only that the size is positive;
the additions that compute `capacity_` and the allocation wrap. When they do not, every
access of every run, stale or outside the contract, stays between the margins; when one
of them wraps, the first push already leaves the allocation or divides by zero. -/
namespace RingBuffers.Spsc
open ReleaseAcquire Transition

variable {α : Type} {r : Ring}

def ProducerPC.frame : ProducerPC α → Option (Frame α)
  | .idle | .loadPushCursor _ _ | .storeClosed => none
  | .readCache f | .loadPopCursor f | .loaded f _ | .recheck f | .construct f
  | .storePushCursor f => some f

def ConsumerPC.cursor : ConsumerPC α → Option Nat
  | .idle | .frontLoadPop | .popLoadPop | .loadClosed => none
  | .frontReadCache pop | .frontLoadPush pop | .frontLoaded pop _ | .frontRecheck pop
  | .popAssert pop | .popDestroy pop | .popStore pop _ => some pop

structure Sized (r : Ring) : Prop where
  wraps : r.cursors = .modulus ∨ r.cursors = .branch
  pos : 0 < r.capacity_
  small : r.capacity_ < sizeModulus

structure Inside (r : Ring) (s : State α) : Prop where
  pushes : ∀ msg ∈ s.memory.history .pushCursor, msg.value < r.capacity_
  pops : ∀ msg ∈ s.memory.history .popCursor, msg.value < r.capacity_
  producer : ∀ f, s.producer.frame = some f → f.cursor < r.capacity_ ∧ f.next < r.capacity_
  consumer : ∀ pop, s.consumer.cursor = some pop → pop < r.capacity_
  held : ∀ i, s.held = some i → r.base ≤ i ∧ i < r.base + r.capacity_
  divides : s.fault ≠ some .divisionByZero

section Steps

variable {s t : State α}

theorem Sized.next_lt (sized : Sized r) {cursor : Nat} (lt : cursor < r.capacity_) :
    ∃ next, r.next cursor = some next ∧ next < r.capacity_ := by
  have small := sized.small
  have pos := sized.pos
  have sum : sizeAdd cursor 1 = cursor + 1 := Nat.mod_eq_of_lt (by omega)
  rcases sized.wraps with wraps | wraps
  · refine ⟨(cursor + 1) % r.capacity_, ?_, Nat.mod_lt _ pos⟩
    simp only [Ring.next, wraps, sum, sizeMod, Nat.ne_of_gt pos, if_false]
  · refine ⟨if cursor + 1 = r.capacity_ then 0 else cursor + 1,
      by simp only [Ring.next, wraps, sum], ?_⟩
    split <;> omega

theorem inside_start (sized : Sized r) : Inside r (start α) where
  pushes msg mem := (List.mem_singleton.mp mem) ▸ sized.pos
  pops msg mem := (List.mem_singleton.mp mem) ▸ sized.pos
  producer := by intro f impossible; cases impossible
  consumer := by intro pop impossible; cases impossible
  held := by intro i impossible; cases impossible
  divides := by intro impossible; cases impossible

theorem Inside.load (inside : Inside r s) {a : Agent} {l : Loc} {o : Order} {i : Nat}
    {x : l.Val} {m : Atomics α} (h : s.memory.load a l o i = some (x, m)) :
    Inside r { s with memory := m } where
  pushes := by
    change ∀ msg ∈ m.history .pushCursor, _
    rw [load_history h]
    exact inside.pushes
  pops := by
    change ∀ msg ∈ m.history .popCursor, _
    rw [load_history h]
    exact inside.pops
  producer := inside.producer
  consumer := inside.consumer
  held := inside.held
  divides := inside.divides

theorem Inside.load_push (inside : Inside r s) {a : Agent} {o : Order} {i x : Nat}
    {m : Atomics α} (h : s.memory.load a .pushCursor o i = some (x, m)) : x < r.capacity_ := by
  obtain ⟨_, msg, at_i, rfl⟩ := load_value h
  exact inside.pushes msg (List.mem_of_getElem? at_i)

theorem Inside.load_pop (inside : Inside r s) {a : Agent} {o : Order} {i x : Nat}
    {m : Atomics α} (h : s.memory.load a .popCursor o i = some (x, m)) : x < r.capacity_ := by
  obtain ⟨_, msg, at_i, rfl⟩ := load_value h
  exact inside.pops msg (List.mem_of_getElem? at_i)

theorem Inside.toProducer (inside : Inside r s) (pc : ProducerPC α)
    (bounded : ∀ f, pc.frame = some f → f.cursor < r.capacity_ ∧ f.next < r.capacity_) :
    Inside r { s with producer := pc } :=
  { inside with producer := bounded }

theorem Inside.toConsumer (inside : Inside r s) (pc : ConsumerPC α)
    (bounded : ∀ pop, pc.cursor = some pop → pop < r.capacity_) :
    Inside r { s with consumer := pc } :=
  { inside with consumer := bounded }

theorem Inside.pointer (inside : Inside r s) (sized : Sized r) {pop : Nat}
    (lt : pop < r.capacity_) : Inside r (returnPointer r s pop) := by
  simp only [returnPointer, slack_slot sized.wraps]
  exact { inside with
    consumer := by intro c impossible; cases impossible
    held := by
      intro i h
      cases h
      exact ⟨Nat.le_add_right _ _, Nat.add_lt_add_left lt _⟩ }

theorem producer_inside (sized : Sized r) (inside : Inside r s) {i : Nat}
    (h : producerStep r s i = some t) : Inside r t := by
  have frame := inside.producer
  unfold producerStep at h
  cases at_pc : s.producer with
  | idle => simp [at_pc] at h
  | loadPushCursor mode v =>
    simp only [at_pc, Option.map_eq_some_iff, Prod.exists] at h
    obtain ⟨push, m, load, rfl⟩ := h
    have lt := inside.load_push load
    obtain ⟨next, eq, next_lt⟩ := sized.next_lt lt
    simp only [enterPush, eq]
    refine (inside.load load).toProducer _ ?_
    intro f h
    cases cached : r.cached <;> simp only [cached, ProducerPC.frame, if_true, if_false,
      Bool.false_eq_true, Option.some.injEq] at h <;> exact h ▸ ⟨lt, next_lt⟩
  | readCache f =>
    simp only [at_pc, Option.some.injEq] at h
    have bounded := frame f (by rw [at_pc]; rfl)
    apply h ▸ inside.toProducer _
    intro f' h
    split at h <;> cases h <;> exact bounded
  | loadPopCursor f =>
    simp only [at_pc, Option.map_eq_some_iff, Prod.exists] at h
    obtain ⟨x, m, load, rfl⟩ := h
    have bounded := frame f (by rw [at_pc]; rfl)
    exact (inside.load load).toProducer _ (by intro f' h; cases h; exact bounded)
  | loaded f pop =>
    simp only [at_pc, Option.some.injEq] at h
    have bounded := frame f (by rw [at_pc]; rfl)
    subst h
    unfold afterLoad
    split
    · split
      · exact { inside with producer := by intro f' h; cases h; exact bounded }
      · exact { inside with producer := by intro f' h; cases h; exact bounded }
    · split
      · split
        · exact { inside with producer := by intro f' h; cases h; exact bounded }
        · exact { inside with producer := by intro f' h; cases h }
      · exact { inside with producer := by intro f' h; cases h; exact bounded }
  | recheck f =>
    simp only [at_pc] at h
    have bounded := frame f (by rw [at_pc]; rfl)
    split at h
    · cases h
      exact { inside with producer := by intro f' h; cases h }
    · cases h
      exact { inside with producer := by intro f' h; cases h; exact bounded }
  | construct f =>
    simp only [at_pc, Option.some.injEq] at h
    have bounded := frame f (by rw [at_pc]; rfl)
    subst h
    simp only [constructAt, slack_slot sized.wraps]
    split
    · exact { inside with divides := by intro h; cases h }
    · exact { inside with producer := by intro f' h; cases h; exact bounded }
  | storePushCursor f =>
    simp only [at_pc, Option.some.injEq] at h
    have bounded := frame f (by rw [at_pc]; rfl)
    subst h
    exact { inside with
      pushes := by
        intro msg mem
        rw [store_history_self] at mem
        rcases List.mem_append.mp mem with old | new
        · exact inside.pushes msg old
        · rw [List.mem_singleton.mp new]
          exact bounded.2
      pops := by
        intro msg mem
        rw [store_history_other (by decide)] at mem
        exact inside.pops msg mem
      producer := by intro f' h; cases h }
  | storeClosed =>
    simp only [at_pc, Option.some.injEq] at h
    subst h
    exact { inside with
      pushes := by
        intro msg mem
        rw [store_history_other (by decide)] at mem
        exact inside.pushes msg mem
      pops := by
        intro msg mem
        rw [store_history_other (by decide)] at mem
        exact inside.pops msg mem
      producer := by intro f' h; cases h }

theorem consumer_inside (sized : Sized r) (inside : Inside r s) {i : Nat}
    (h : consumerStep r s i = some t) : Inside r t := by
  have cursor := inside.consumer
  unfold consumerStep at h
  cases at_pc : s.consumer with
  | idle => simp [at_pc] at h
  | frontLoadPop =>
    simp only [at_pc, Option.map_eq_some_iff, Prod.exists] at h
    obtain ⟨pop, m, load, rfl⟩ := h
    have lt := inside.load_pop load
    refine (inside.load load).toConsumer _ ?_
    intro c h
    split at h <;> cases h <;> exact lt
  | frontReadCache pop =>
    simp only [at_pc] at h
    have lt := cursor pop (by rw [at_pc]; rfl)
    split at h
    · cases h
      exact inside.toConsumer _ (by intro c h; cases h; exact lt)
    · cases h
      exact inside.pointer sized lt
  | frontLoadPush pop =>
    simp only [at_pc, Option.map_eq_some_iff, Prod.exists] at h
    obtain ⟨x, m, load, rfl⟩ := h
    have lt := cursor pop (by rw [at_pc]; rfl)
    exact (inside.load load).toConsumer _ (by intro c h; cases h; exact lt)
  | frontLoaded pop push =>
    simp only [at_pc, Option.some.injEq] at h
    have lt := cursor pop (by rw [at_pc]; rfl)
    subst h
    have cache : Inside r { s with pushCursorCache := push } := { inside with }
    unfold afterFrontLoad
    split
    · exact cache.toConsumer _ (by intro c h; cases h; exact lt)
    · split
      · exact { cache with consumer := by intro c h; cases h }
      · exact cache.pointer sized lt
  | frontRecheck pop =>
    simp only [at_pc] at h
    have lt := cursor pop (by rw [at_pc]; rfl)
    split at h
    · cases h
      exact { inside with consumer := by intro c h; cases h }
    · cases h
      exact inside.pointer sized lt
  | popLoadPop =>
    simp only [at_pc, Option.map_eq_some_iff, Prod.exists] at h
    obtain ⟨pop, m, load, rfl⟩ := h
    have lt := inside.load_pop load
    refine (inside.load load).toConsumer _ ?_
    intro c h
    split at h <;> cases h <;> exact lt
  | popAssert pop =>
    simp only [at_pc, Option.map_eq_some_iff, Prod.exists] at h
    obtain ⟨x, m, load, rfl⟩ := h
    have lt := cursor pop (by rw [at_pc]; rfl)
    split
    · have loaded := inside.load load
      exact {
        pushes := loaded.pushes
        pops := loaded.pops
        producer := loaded.producer
        consumer := by intro c h; cases h; exact lt
        held := loaded.held
        divides := by intro h; cases h }
    · exact (inside.load load).toConsumer _ (by intro c h; cases h; exact lt)
  | popDestroy pop =>
    simp only [at_pc, Option.some.injEq] at h
    have lt := cursor pop (by rw [at_pc]; rfl)
    subst h
    simp only [destroyAt, slack_slot sized.wraps]
    split
    · exact { inside with divides := by intro h; cases h }
    · exact { inside with consumer := by intro c h; cases h; exact lt }
  | popStore pop v =>
    simp only [at_pc, Option.some.injEq] at h
    have lt := cursor pop (by rw [at_pc]; rfl)
    obtain ⟨next, eq, next_lt⟩ := sized.next_lt lt
    subst h
    simp only [storePop, eq]
    exact { inside with
      pushes := by
        intro msg mem
        rw [store_history_other (by decide)] at mem
        exact inside.pushes msg mem
      pops := by
        intro msg mem
        rw [store_history_self] at mem
        rcases List.mem_append.mp mem with old | new
        · exact inside.pops msg old
        · rw [List.mem_singleton.mp new]
          exact next_lt
      consumer := by intro c h; cases h }
  | loadClosed =>
    simp only [at_pc, Option.map_eq_some_iff, Prod.exists] at h
    obtain ⟨b, m, load, rfl⟩ := h
    exact { inside.load load with consumer := by intro c h; cases h }

theorem step_inside (sized : Sized r) (inside : Inside r s) {l : Label α}
    (h : step r s l = some t) : Inside r t := by
  unfold step at h
  split at h
  · cases h
  cases l with
  | emplace v | tryEmplace v | close =>
    obtain ⟨_, rfl⟩ := callProducer_eq h
    exact { inside with producer := by intro f impossible; cases impossible }
  | front | closed =>
    obtain ⟨_, rfl⟩ := callConsumer_eq h
    exact { inside with consumer := by intro pop impossible; cases impossible }
  | pop =>
    obtain ⟨u, call, rfl⟩ := Option.map_eq_some_iff.mp h
    obtain ⟨_, rfl⟩ := callConsumer_eq call
    exact { inside with
      consumer := by intro pop impossible; cases impossible
      held := by intro i impossible; cases impossible }
  | producer i => exact producer_inside sized inside h
  | consumer i => exact consumer_inside sized inside h
  | throw =>
    simp only [throwStep] at h
    split at h
    · cases h
      exact { inside with producer := by intro f impossible; cases impossible }
    · cases h
  | read =>
    simp only [readStep] at h
    split at h
    · split at h
      · cases h
        exact inside
      · cases h
        exact { inside with divides := by intro h; cases h }
    · cases h

theorem run_inside (sized : Sized r) {ls : List (Label α)}
    (run : Run (step r) (fun _ _ => True) (start α) ls s) : Inside r s :=
  run.invariant (Inside r) (fun _ _ _ inside _ h => step_inside sized inside h)
    (inside_start sized)

theorem Inside.accesses_lt (inside : Inside r s) (sized : Sized r) {l : Label α} {i : Nat}
    (touched : accesses r s l = some i) : r.base ≤ i ∧ i < r.base + r.capacity_ := by
  have frame := inside.producer
  have cursor := inside.consumer
  have slot : ∀ {c}, c < r.capacity_ → r.slot c = some i →
      r.base ≤ i ∧ i < r.base + r.capacity_ := by
    intro c lt at_c
    rw [slack_slot sized.wraps] at at_c
    cases at_c
    exact ⟨Nat.le_add_right _ _, Nat.add_lt_add_left lt _⟩
  cases l with
  | producer k | throw =>
    simp only [accesses] at touched
    split at touched
    · rename_i f at_pc
      exact slot (frame f (by rw [at_pc]; rfl)).1 touched
    · cases touched
  | consumer k =>
    simp only [accesses] at touched
    split at touched
    · rename_i pop at_pc
      exact slot (cursor pop (by rw [at_pc]; rfl)) touched
    · cases touched
  | read => exact inside.held i touched
  | _ => cases touched

end Steps

/-- What a constructed buffer owes its user: every slot constructed, read or destroyed lies
in the allocation and keeps the margin of the class from both ends, and so does every slot
whose contents change; the margin of a padded class is a cache line, no cursor update divides
by zero, and the elements fit. -/
structure StorageSafe (α : Type) (c : Class) (env : Environment) (bufferSize : Nat)
    (r : Ring) : Prop where
  accesses : ∀ (ls : List (Label α)) (s t : State α) (l : Label α) (i : Nat),
    Run (step r) (fun _ _ => True) (start α) ls s → step r s l = some t →
    accesses r s l = some i → c.margin env ≤ i ∧ i + c.margin env < r.allocated
  changes : ∀ (ls : List (Label α)) (s t : State α) (l : Label α) (i : Nat),
    Run (step r) (fun _ _ => True) (start α) ls s → step r s l = some t →
    t.slots i ≠ s.slots i → c.margin env ≤ i ∧ i + c.margin env < r.allocated
  divides : ∀ (ls : List (Label α)) (s : State α),
    Run (step r) (fun _ _ => True) (start α) ls s → s.fault ≠ some .divisionByZero
  margin : c.padded = true → env.cacheLineSize ≤ c.margin env * env.sizeofT
  fits : ∀ values : List α, values.length = bufferSize →
    ∃ b, pushAll r values (Buffer.start α) = .ok b ∧ b.queue = values

section Sizes

variable {c : Class} {env : Environment} {n : Nat}

theorem safe_of_fits (slack : c.Slack) (made : c.construct env n = .ok r)
    (fits : c.Fits env n) : StorageSafe α c env n r := by
  obtain ⟨pos, room, same⟩ := construct_ok made
  have size : r.capacity_ = n + 1 := by rw [same]; exact slack.capacity fits.capacity
  have base : r.base = c.margin env := by rw [same]; rfl
  have allocated : r.allocated = n + 1 + 2 * c.margin env := by
    rw [same]
    exact slack.allocated fits
  have sized : Sized r :=
    ⟨by rw [same]; exact slack, by omega, by rw [size]; exact fits.capacity⟩
  have inside : ∀ (ls : List (Label α)) (s : State α) (l : Label α) (i : Nat),
      Run (step r) (fun _ _ => True) (start α) ls s → accesses r s l = some i →
      c.margin env ≤ i ∧ i + c.margin env < r.allocated := by
    intro ls s l i run touched
    have between := (run_inside sized run).accesses_lt sized touched
    omega
  constructor
  · exact fun ls s t l i run _ touched => inside ls s l i run touched
  · exact fun ls s t l i run h changed => inside ls s l i run (step_changes h changed)
  · intro ls s run
    exact (run_inside sized run).divides
  · intro padded
    have bytes : (n + 1 + 2 * c.margin env) * env.sizeofT < sizeModulus := by
      rw [← allocated, same]
      simp only [Environment.allocates, Bool.and_eq_true, decide_eq_true_eq] at room
      exact room.1
    have two : 2 * env.sizeofT ≤ (n + 1 + 2 * c.margin env) * env.sizeofT :=
      Nat.mul_le_mul_right _ (by omega)
    rw [Class.margin, if_pos padded]
    exact env.padding_covers (Nat.lt_of_le_of_lt two bytes)
  · intro values count
    have holds : Holds (slack.encoding made fits.capacity) (Buffer.start α) 0 0 := holds_start _
    obtain ⟨b, done, stored⟩ := pushAll_eq holds values (Nat.le_of_eq (by
      rw [count]
      exact Nat.zero_add n))
    exact ⟨b, done, stored⟩

def firstCall (v : α) : State α :=
  { start α with producer := .loadPushCursor .tryEmplace v }

def firstLoaded (α : Type) (r : Ring) : Atomics α :=
  (Atomics.start α).take .producer .pushCursor r.own 0 View.start

def firstFrame (v : α) (next : Nat) : Frame α := ⟨.tryEmplace, v, 0, next⟩

theorem first_load (r : Ring) (v : α) : step r (firstCall v) (.producer 0) =
    some (enterPush r { firstCall v with memory := firstLoaded α r } .tryEmplace v 0) := rfl

theorem firstLoaded_reload (r : Ring) :
    (firstLoaded α r).load .producer .popCursor r.other 0 =
      some (0, (firstLoaded α r).take .producer .popCursor r.other 0 View.start) := by
  have fresh : ((firstLoaded α r).view .producer).stamp .popCursor = 0 := by
    cases acq : r.own.acquires <;>
      simp [firstLoaded, Memory.take, acq, View.join, View.see, Atomics.start, Memory.start,
        View.start]
  exact load_eq_some.mpr ⟨Nat.le_of_eq fresh, ⟨0, View.start⟩, rfl, rfl, rfl⟩

theorem first_push (v : α) {next : Nat} (at_next : r.next 0 = some next) (moves : next ≠ 0)
    (wraps : r.cursors = .modulus ∨ r.cursors = .branch) :
    ∃ (ls : List (Label α)) (s t : State α),
      Run (step r) (fun _ _ => True) (start α) ls s ∧ step r s (.producer 0) = some t ∧
      accesses r s (.producer 0) = some r.base := by
  have room : fullAgainst r (firstFrame v next) ⟨0, 0⟩ = false := by
    rw [fullAgainst, ← Bool.not_eq_true, slack_full wraps]
    exact moves
  have slot : ∀ s : State α, s.producer = .construct (firstFrame v next) →
      accesses r s (.producer 0) = some r.base := by
    intro s at_pc
    simp only [accesses, at_pc, slack_slot wraps]
    rfl
  have enter : step r (firstCall v) (.producer 0) = some { firstCall v with
      memory := firstLoaded α r
      producer := if r.cached then .readCache (firstFrame v next)
        else .loadPopCursor (firstFrame v next) } := by
    rw [first_load]
    simp only [enterPush, at_next]
    rfl
  cases cached : r.cached with
  | true =>
    refine ⟨[.tryEmplace v, .producer 0, .producer 0],
      { firstCall v with
        memory := firstLoaded α r
        producer := .construct (firstFrame v next) }, _, ?_, rfl, slot _ rfl⟩
    refine Run.cons trivial (rfl : _ = some (firstCall v)) ?_
    refine Run.cons trivial enter ?_
    refine Run.cons trivial ?_ (Run.nil _)
    rw [cached]
    change some { firstCall v with
      memory := firstLoaded α r
      producer := if fullAgainst r (firstFrame v next) ⟨0, 0⟩
        then .loadPopCursor (firstFrame v next) else .construct (firstFrame v next) } = _
    rw [room]
    rfl
  | false =>
    have reload := firstLoaded_reload (α := α) r
    refine ⟨[.tryEmplace v, .producer 0, .producer 0, .producer 0],
      { firstCall v with
        memory := (firstLoaded α r).take .producer .popCursor r.other 0 View.start
        producer := .construct (firstFrame v next) }, _, ?_, rfl, slot _ rfl⟩
    refine Run.cons trivial (rfl : _ = some (firstCall v)) ?_
    refine Run.cons trivial enter ?_
    refine (run_cons _ _ _ _).mpr ⟨trivial, { firstCall v with
      memory := (firstLoaded α r).take .producer .popCursor r.other 0 View.start
      producer := .loaded (firstFrame v next) ⟨0, 0⟩ }, ?_, ?_⟩
    · have loaded : ∀ s : State α, s.fault = none →
          s.producer = .loadPopCursor (firstFrame v next) →
          step r s (.producer 0) = (s.memory.load .producer .popCursor r.other 0).map
            fun x => { s with
              memory := x.2, producer := .loaded (firstFrame v next) ⟨x.1, 0⟩ } := by
        intro s sound at_pc
        simp [step, sound, producerStep, at_pc]
      rw [cached, loaded _ rfl rfl]
      simp only [reload]
      rfl
    · refine Run.cons trivial ?_ (Run.nil _)
      change some (afterLoad r _ (firstFrame v next) ⟨0, 0⟩) = _
      simp only [afterLoad, cached, room, Bool.false_eq_true, if_false]
      rfl

theorem first_push_divides (v : α) (no_next : r.next 0 = none) :
    ∃ (ls : List (Label α)) (s : State α),
      Run (step r) (fun _ _ => True) (start α) ls s ∧ s.fault = some .divisionByZero := by
  refine ⟨[.tryEmplace v, .producer 0],
    { firstCall v with memory := firstLoaded α r, fault := some .divisionByZero }, ?_, rfl⟩
  refine Run.cons trivial (rfl : _ = some (firstCall v)) ?_
  refine Run.cons trivial ?_ (Run.nil _)
  rw [first_load]
  simp only [enterPush, no_next]

theorem first_next (env : Environment) (slack : c.Slack) (size : n < sizeModulus) (pos : 1 ≤ n) :
    (c.ring env n).next 0 = some 1 ∨ (c.ring env n).next 0 = none := by
  have capacity : (c.ring env n).capacity_ = sizeAdd n 1 := by
    rcases slack with kind | kind <;> simp [Class.ring, kind]
  have cursors : (c.ring env n).cursors = c.cursors := rfl
  have one : sizeAdd 0 1 = 1 := by decide
  have other : sizeAdd n 1 ≠ 1 := by
    simp only [sizeAdd, sizeModulus] at size ⊢
    omega
  rcases slack with kind | kind
  · simp only [Ring.next, cursors, kind, one, capacity, sizeMod]
    by_cases zero : sizeAdd n 1 = 0
    · exact .inr (if_pos zero)
    · rw [if_neg zero, Nat.mod_eq_of_lt (by omega)]
      exact .inl rfl
  · simp only [Ring.next, cursors, kind, one, capacity, other.symm, if_false, true_or]

theorem not_safe_of_wraps [Inhabited α] (slack : c.Slack) (size : n < sizeModulus)
    (made : c.construct env n = .ok r) (wraps : ¬ c.Fits env n) :
    ¬ StorageSafe α c env n r := by
  intro safe
  obtain ⟨pos, _, same⟩ := construct_ok made
  have kind : r.cursors = .modulus ∨ r.cursors = .branch := by rw [same]; exact slack
  have base : r.base = c.margin env := by rw [same]; rfl
  have short : r.allocated ≤ 2 * c.margin env := by
    rw [same]
    exact slack.allocated_wraps size wraps
  rcases first_next env slack size pos with at_next | no_next
  · rw [← same] at at_next
    obtain ⟨ls, s, t, run, taken, touched⟩ := first_push (default : α) at_next (by decide) kind
    have inside := safe.accesses ls s t _ _ run taken touched
    omega
  · rw [← same] at no_next
    obtain ⟨ls, s, run, fault⟩ := first_push_divides (default : α) no_next
    exact safe.divides ls s run fault

/-- A slack-slot buffer is safe exactly when the arithmetic of its constructor does not wrap. -/
theorem storage_safe_iff [Inhabited α] (env : Environment) (c : Class)
    (member : c ∈ slackClasses) (bufferSize : Nat) (size : bufferSize < sizeModulus) (r : Ring)
    (made : c.construct env bufferSize = .ok r) :
    StorageSafe α c env bufferSize r ↔ c.Fits env bufferSize := by
  have slack := slackClasses_slack c member
  constructor
  · intro safe
    by_contra wraps
    exact not_safe_of_wraps slack size made wraps safe
  · exact safe_of_fits slack made

end Sizes

theorem storage_safe_at_ten :
    StorageSafe Nat spscBuffer .desktop 10 (spscBuffer.ring .desktop 10) ↔
      spscBuffer.Fits .desktop 10 :=
  storage_safe_iff .desktop spscBuffer List.mem_cons_self 10 (by decide) _ rfl

/-- The largest size passes the constructor: `capacity_` wraps to 0, and what is allocated
is the padding alone. -/
theorem largest_size_unsafe : ¬ ∀ r : Ring,
    spscBuffer.construct .desktop (2 ^ 64 - 1) = .ok r →
    StorageSafe Nat spscBuffer .desktop (2 ^ 64 - 1) r := by
  intro safe
  exact not_safe_of_wraps spscBuffer_slack (by decide) rfl (by decide) (safe _ rfl)

end RingBuffers.Spsc
