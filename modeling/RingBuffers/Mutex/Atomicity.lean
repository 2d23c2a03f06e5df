import RingBuffers.Mutex.Sections

/-! Why a critical section may be taken as one step. The line machine runs beside the machine
of sections, which takes its step where the line machine unlocks or goes to sleep. -/
namespace RingBuffers.Mutex.Lines
open Census Exclusion Transition

variable {T α : Type}

section Simulation

variable [DecidableEq T] [Fintype T] {env : Environment} {n : Nat} {s s' : State T α}
  {a : Mutex.State T α} {t : T}

def Simulated (env : Environment) (n : Nat) (a : Mutex.State T α)
    (ks : List (Mutex.Label T α)) (s' : State T α) : Prop :=
  ∃ a', Run (Mutex.step env) (fun a l => Mutex.nonemptyPop a l = true) a ks a' ∧ Refines n s' a'

theorem Simulated.silent (refines : Refines n s' a) : Simulated env n a [] s' :=
  ⟨a, Run.nil a, refines⟩

theorem Simulated.single {a' : Mutex.State T α} {l : Mutex.Label T α}
    (contract : Mutex.nonemptyPop a l = true) (moved : Mutex.step env a l = some a')
    (refines : Refines n s' a') : Simulated env n a [l] s' :=
  ⟨a', Run.cons contract moved (Run.nil a'), refines⟩

omit [Fintype T] in
theorem Refines.lock (refines : Refines n s a) {op : Op α}
    (pending : (a.thread t).pending = some op) (h : lockLine s t op = some s') :
    Refines n s' a := by
  unfold lockLine at h
  split at h
  · rename_i free
    cases h
    refine refines.enters free ?_ (by rw [pending]; rfl) ?_
    · cases op <;> rfl
    · rw [pending]
      cases op <;> exact ⟨rfl, rfl⟩
  · cases h

theorem Refines.answers (refines : Refines n s a) (owner : s.mutex = some t) {op : Op α}
    {b : MutexBuffer α} {res : Result α} {notifies : Bool}
    (pending : (a.thread t).pending = some op) (section_ : Section a.buffer op b res notifies) :
    Simulated env n a [] { s.goes t (.unlocking res notifies) with buffer := b } :=
  .silent (refines.stays owner rfl (by rw [pending]; rfl) ⟨op, pending, section_⟩)

theorem Refines.throws (refines : Refines n s a) (h : runLine env s t true = some s') :
    Simulated env n a (sections s (.run t true)) s' := by
  simp only [runLine, if_true] at h
  split at h
  · rename_i v res at_line
    cases h
    obtain ⟨owner, _, ⟨op, pending, kind, room⟩, same⟩ := refines.now at_line rfl
    simp only [sections, at_line]
    have reached : constructs a.buffer op = true := by
      cases op <;> cases kind <;> simp [constructs, room]
    exact refines.answers owner pending (by rw [same]; exact .threw op reached)
  · rename_i at_line
    cases h
    obtain ⟨owner, _, pending, some_left, same⟩ := refines.now at_line rfl
    simp only [sections, at_line]
    have reached : constructs a.buffer (.tryPop : Op α) = true := by
      simp only [constructs, bne_iff_ne]
      omega
    exact refines.answers owner pending (by rw [same]; exact .threw .tryPop reached)
  · cases h

theorem Refines.sleep (refines : Refines n s a) (owner : s.mutex = some t) {v : α}
    (pending : (a.thread t).pending = some (.emplace v)) (full : a.buffer.isFull = true)
    (same : s.buffer = a.buffer) :
    Simulated env n a [.lock t false] { s.goes t (.waiting v) with mutex := none } := by
  have moved : Mutex.step env a (.lock t false) = some (a.moves t (.waiting v)) := by
    simp [Mutex.step, refines.inv.sound, pending, criticalSection, full]
  have contract : Mutex.nonemptyPop a (.lock t false) = true := by
    simp only [Mutex.nonemptyPop, pending]
  have still : Refines n { s.goes t (.waiting v) with mutex := none, result := a.result }
      (a.moves t (.waiting v)) :=
    refines.leaves owner rfl (step_inv refines.inv contract moved) same.symm rfl rfl
  rw [← refines.result] at still
  exact .single contract moved still

theorem Refines.test (refines : Refines n s a) {op : Op α} (at_line : s.line t = .testing op)
    (contract : op = .pop → 0 < s.buffer.count_) :
    Simulated env n a (sections s (.run t false)) (testLine env s t op) := by
  obtain ⟨owner, some_pending, pending, same⟩ := refines.now at_line rfl
  have count := congrArg MutexBuffer.count_ same
  cases op with
  | emplace v =>
    simp only [sections, at_line, testLine]
    split
    · rename_i full
      exact refines.sleep owner pending (same ▸ full) same
    · rename_i room
      refine .silent (refines.stays owner rfl some_pending ⟨⟨_, pending, rfl, ?_⟩, same⟩)
      simpa [same] using room
  | tryEmplace v =>
    simp only [sections, at_line, testLine]
    split
    · rename_i full
      exact refines.answers owner pending (by rw [same] at full ⊢; exact .refuse v full)
    · rename_i room
      refine .silent (refines.stays owner rfl some_pending ⟨⟨_, pending, rfl, ?_⟩, same⟩)
      simpa [same] using room
  | front =>
    simp only [sections, at_line, testLine]
    split
    · rename_i empty
      refine refines.answers owner pending ?_
      have answer : a.buffer.front = none := by simp [MutexBuffer.front, ← count, empty]
      rw [same, ← answer]
      exact .front
    · exact .silent (refines.stays owner rfl some_pending ⟨pending, by omega, same⟩)
  | tryPop =>
    simp only [sections, at_line, testLine]
    split
    · rename_i empty
      exact refines.answers owner pending (by rw [same]; exact .miss (count ▸ empty))
    · exact .silent (refines.stays owner rfl some_pending ⟨pending, by omega, same⟩)
  | pop =>
    have some_left := contract rfl
    simp only [sections, at_line, testLine]
    rw [if_neg (by omega)]
    obtain ⟨v, _, live⟩ := refines.inv.holds.oldest (count ▸ some_left)
    exact .silent (refines.stays owner rfl some_pending
      ⟨v, ⟨_, pending, rfl, count ▸ some_left, live⟩, same⟩)
  | close | closed =>
    simp only [sections, at_line, testLine]
    exact .silent refines

theorem Refines.advance (refines : Refines n s a) (h : runLine env s t false = some s')
    (contract : nonemptyPop s (.run t false) = true) :
    Simulated env n a (sections s (.run t false)) s' := by
  have shows := refines.shows t
  simp only [runLine, Bool.false_eq_true, if_false] at h
  cases at_line : s.line t with
  | idle | waiting v | notifying =>
    simp only [at_line] at h
    cases h
  | locking op =>
    simp only [at_line] at h shows
    simp only [sections, at_line]
    exact .silent (refines.lock (by rw [show a.thread t = .entering op from shows]; rfl) h)
  | relocking v =>
    simp only [at_line] at h shows
    simp only [sections, at_line]
    exact .silent (refines.lock (by rw [show a.thread t = .woken v from shows]; rfl) h)
  | testing op =>
    simp only [at_line] at h
    cases h
    refine refines.test at_line ?_
    rintro rfl
    simpa [nonemptyPop, at_line, Nat.pos_iff_ne_zero] using contract
  | constructing v res =>
    simp only [at_line] at h
    cases h
    obtain ⟨owner, some_pending, pushing, same⟩ := refines.now at_line rfl
    obtain ⟨vacant, _⟩ := pushing.lines refines.inv
    simp only [sections, at_line, constructLine, same, vacant]
    exact .silent (refines.stays owner rfl some_pending ⟨v, pushing, rfl⟩)
  | advancingPush res =>
    simp only [at_line] at h
    cases h
    obtain ⟨owner, some_pending, v, pushing, same⟩ := refines.now at_line rfl
    obtain ⟨_, next, at_next, _⟩ := pushing.lines refines.inv
    simp only [sections, at_line, advancePushLine, same, at_next]
    exact .silent (refines.stays owner rfl some_pending ⟨v, next, pushing, at_next, rfl⟩)
  | incrementing res =>
    simp only [at_line] at h
    cases h
    obtain ⟨owner, _, v, next, pushing, at_next, same⟩ := refines.now at_line rfl
    obtain ⟨_, next', at_next', built⟩ := pushing.lines refines.inv
    obtain ⟨op, pending, kind, room⟩ := pushing
    rw [at_next] at at_next'
    cases at_next'
    simp only [sections, at_line, same]
    exact refines.answers owner pending (.push op v res _ kind room built)
  | moving =>
    simp only [at_line] at h
    cases h
    obtain ⟨owner, some_pending, pending, some_left, same⟩ := refines.now at_line rfl
    obtain ⟨v, _, live⟩ := refines.inv.holds.oldest some_left
    simp only [sections, at_line, moveLine, same, live]
    exact .silent (refines.stays owner rfl some_pending
      ⟨v, ⟨_, pending, rfl, some_left, live⟩, same⟩)
  | destroying res =>
    simp only [at_line] at h
    cases h
    obtain ⟨owner, some_pending, v, popping, same⟩ := refines.now at_line rfl
    have live : a.buffer.slots a.buffer.popCursor_ = some v := by
      obtain ⟨_, _, _, _, live⟩ := popping
      exact live
    simp only [sections, at_line, destroyLine, same, live]
    exact .silent (refines.stays owner rfl some_pending ⟨v, popping, rfl⟩)
  | advancingPop res =>
    simp only [at_line] at h
    cases h
    obtain ⟨owner, some_pending, v, popping, same⟩ := refines.now at_line rfl
    obtain ⟨next, at_next, _⟩ := popping.lines refines.inv
    simp only [sections, at_line, advancePopLine, same, at_next]
    exact .silent (refines.stays owner rfl some_pending ⟨v, next, popping, at_next, rfl⟩)
  | decrementing res =>
    simp only [at_line] at h
    cases h
    obtain ⟨owner, _, v, next, popping, at_next, same⟩ := refines.now at_line rfl
    obtain ⟨next', at_next', destroyed⟩ := popping.lines refines.inv
    obtain ⟨op, pending, kind, some_left, live⟩ := popping
    rw [at_next] at at_next'
    cases at_next'
    simp only [sections, at_line, same]
    exact refines.answers owner pending (.take op v res _ kind some_left live destroyed)
  | addressing =>
    simp only [at_line] at h
    cases h
    obtain ⟨owner, _, pending, some_left, same⟩ := refines.now at_line rfl
    have answer : a.buffer.front = some a.buffer.popCursor_ := by
      simp [MutexBuffer.front, Nat.ne_of_gt some_left]
    simp only [sections, at_line]
    exact refines.answers owner pending (by rw [same, ← answer]; exact .front)
  | closing =>
    simp only [at_line] at h
    cases h
    obtain ⟨owner, _, pending, same⟩ := refines.now at_line rfl
    simp only [sections, at_line, same]
    exact refines.answers owner pending .close
  | reading =>
    simp only [at_line] at h
    cases h
    obtain ⟨owner, _, pending, same⟩ := refines.now at_line rfl
    simp only [sections, at_line]
    exact refines.answers owner pending (by rw [same]; exact .closed)
  | unlocking res notifies =>
    simp only [at_line] at h
    cases h
    obtain ⟨owner, _, op, pending, section_⟩ := refines.now at_line rfl
    obtain ⟨a', moved, buffer, thread, result⟩ := section_.step env refines.inv pending
    have contract := section_.contract pending
    have still : Refines n
        { s.goes t (if notifies then .notifying else .idle) with
          mutex := none
          result := a'.result } a' := by
      refine refines.leaves owner ?_ (step_inv refines.inv contract moved) buffer thread ?_
      · cases notifies <;> rfl
      · cases notifies <;> rfl
    rw [result, ← refines.result] at still
    simp only [sections, at_line]
    exact .single contract moved still

omit [DecidableEq T] [Fintype T] in
theorem shows_waiting {pc : PC α} {line : Line α} (shows : Shows pc line) :
    pc.isWaiting = line.isWaiting := by
  cases line with
  | idle | locking op | waiting v | relocking v | notifying =>
    have eq : pc = _ := shows
    rw [eq]
    rfl
  | _ =>
    cases pc with
    | entering op | woken v => rfl
    | _ => cases shows

omit [DecidableEq T] in
theorem Refines.blocked (refines : Refines n s a) :
    census Line.isWaiting s.line = a.blocked :=
  census_congr fun t => (shows_waiting (refines.shows t)).symm

theorem Refines.notified (refines : Refines n s a) {target : Option T}
    (at_line : s.line t = .notifying) (h : notifyLine s t target = some s') :
    Simulated env n a [.notify t target] s' := by
  have shows := refines.shows t
  rw [at_line] at shows
  have notifying : a.thread t = .notifying := shows
  cases target with
  | none =>
    simp only [notifyLine] at h
    split at h
    · rename_i nobody
      cases h
      rw [refines.blocked] at nobody
      have moved : Mutex.step env a (.notify t none) = some (a.moves t .idle) := by
        simp [Mutex.step, refines.inv.sound, notifying, notifyStep, nobody]
      have still : Refines n { s.goes t .idle with result := a.result } (a.moves t .idle) :=
        refines.outside (by rw [at_line]; rfl) rfl (step_inv refines.inv rfl moved) rfl rfl rfl
      rw [← refines.result] at still
      exact .single rfl moved still
    · cases h
  | some u =>
    simp only [notifyLine] at h
    split at h
    · rename_i v waits
      cases h
      have shown := refines.shows u
      rw [waits] at shown
      have waiting : a.thread u = .waiting v := shown
      have moved : Mutex.step env a (.notify t (some u)) =
          some ((a.moves u (.woken v)).moves t .idle) := by
        simp [Mutex.step, refines.inv.sound, notifying, notifyStep, waiting]
      have inv : Inv n (a.moves u (.woken v)) :=
        ⟨refines.inv.sound, refines.inv.holds, refines.inv.popped⟩
      have woken : Refines n { s.goes u (.relocking v) with result := a.result }
          (a.moves u (.woken v)) :=
        refines.outside (by rw [waits]; rfl) rfl inv rfl rfl rfl
      rw [← refines.result] at woken
      have other : t ≠ u := by
        rintro rfl
        rw [at_line] at waits
        cases waits
      have still : Refines n { (s.goes u (.relocking v)).goes t .idle with result := a.result }
          ((a.moves u (.woken v)).moves t .idle) := by
        refine woken.outside ?_ rfl (step_inv refines.inv rfl moved) rfl rfl rfl
        simp [State.goes, other, at_line, Line.inside]
      rw [← refines.result] at still
      exact .single rfl moved still
    · cases h

theorem Refines.step (refines : Refines n s a) {l : Label T α}
    (contract : nonemptyPop s l = true) (h : Lines.step env s l = some s') :
    Simulated env n a (sections s l) s' := by
  have sound : s.fault.isSome = false := by rw [refines.sound]; rfl
  simp only [Lines.step, sound, Bool.false_eq_true, if_false] at h
  cases l with
  | call t op =>
    simp only at h
    split at h
    · rename_i at_line
      cases h
      have shows := refines.shows t
      rw [at_line] at shows
      have idle : a.thread t = .idle := shows
      have moved : Mutex.step env a (.call t op) = some { a with
          thread := Function.update a.thread t (.entering op)
          result := Function.update a.result t none } := by
        simp [Mutex.step, refines.inv.sound, idle]
      rw [refines.result]
      refine .single rfl moved ?_
      exact refines.outside (by rw [at_line]; rfl) rfl (step_inv refines.inv rfl moved) rfl rfl rfl
    · cases h
  | run t throws =>
    cases throws with
    | true => exact refines.throws h
    | false => exact refines.advance h contract
  | notify t target =>
    simp only at h
    split at h
    · rename_i at_line
      exact refines.notified at_line h
    · cases h
  | spurious t =>
    simp only at h
    split at h
    · rename_i v at_line
      cases h
      have shows := refines.shows t
      rw [at_line] at shows
      have waiting : a.thread t = .waiting v := shows
      have moved : Mutex.step env a (.spurious t) = some (a.moves t (.woken v)) := by
        simp [Mutex.step, refines.inv.sound, waiting]
      have still : Refines n { s.goes t (.relocking v) with result := a.result }
          (a.moves t (.woken v)) :=
        refines.outside (by rw [at_line]; rfl) rfl (step_inv refines.inv rfl moved) rfl rfl rfl
      rw [← refines.result] at still
      exact .single rfl moved still
    · cases h
  | capacity t size =>
    simp only at h
    split at h
    · split at h
      · cases h
        exact .silent refines
      · cases h
    · cases h

theorem refines_run (holds : b.Holds n [] 0)
    (run : Run (Lines.step env) (fun s l => nonemptyPop s l = true) (start T b) ls s) :
    Simulated env n (Mutex.start T b) (trace (Lines.step env) sections (start T b) ls).flatten s :=
  run.refines (Refines n) sections (fun _ _ _ _ refines contract h => refines.step contract h)
    (refines_start holds)

end Simulation

/-- Line by line and under any interleaving the member functions do, fault-free, what the
machine of critical sections does: each run has a run of sections with the same answers, which
is linearizable, and with the same members whenever the mutex is free. -/
theorem mutex_lines_atomic [DecidableEq T] [Fintype T] (env : Environment) (n : Nat)
    (small : n < sizeModulus) (b : MutexBuffer α) (made : MutexBuffer.construct α env n = .ok b)
    (ls : List (Label T α)) (s : State T α)
    (run : Run (step env) (fun s l => nonemptyPop s l = true) (start T b) ls s) :
    ∃ a, Run (Mutex.step env) (fun a l => Mutex.nonemptyPop a l = true) (Mutex.start T b)
        (trace (step env) sections (start T b) ls).flatten a ∧
      Linearizes env n b (trace (step env) sections (start T b) ls).flatten a ∧
      s.fault = none ∧ s.result = a.result ∧ (s.mutex = none → s.buffer = a.buffer) := by
  obtain ⟨pos, rfl⟩ := MutexBuffer.construct_ok made
  have holds := MutexBuffer.holds_empty (α := α) pos small
  obtain ⟨a, atomic, refines⟩ := refines_run holds run
  exact ⟨a, atomic, linearizes holds atomic, refines.sound, refines.result, refines.free⟩

/-- Thread `true` asks for the capacity and waits for the mutex while thread `false` is in
`emplace`. -/
def interleaved : List (Label Bool Nat) :=
  [.call false (.emplace 7), .run false false, .capacity true 1, .run false false,
    .call true .tryPop, .run false false, .run false false, .run false false, .run false false,
    .run true false, .run true false, .run true false, .run true false, .run true false]

theorem mutex_lines_atomic_at_one : ∃ (s : State Bool Nat) (a : Mutex.State Bool Nat),
    s.result = a.result ∧ s.mutex = some true ∧ a.buffer.stored = [7] :=
  have ⟨a, atomic, _, _, same, _⟩ := mutex_lines_atomic .desktop 1 (by decide) _ rfl interleaved _
    (Run.of_exec (by decide) (by decide))
  ⟨_, a, same, by decide, by
    rw [← Option.some.inj (atomic.ends)]
    decide⟩

end RingBuffers.Mutex.Lines
