import RingBuffers.Mutex.Atomicity

/-! The members that the lines touch. What a line does depends on the members it reads or writes
and on no other, it changes those it writes and no other, and no two threads are about to touch a
common member, one of them writing it. -/
namespace RingBuffers.Mutex.Lines
open Census Exclusion Transition

variable {T α : Type}

inductive Member where
  | capacity | count | pushCursor | popCursor | closed | slots
  deriving DecidableEq, Repr

/-- The members a line reads; a thread outside the calls may read `capacity_` in `capacity()`. -/
def Line.reads : Line α → List Member
  | .idle => [.capacity]
  | .testing (.emplace _) | .testing (.tryEmplace _) => [.count, .capacity]
  | .testing _ | .incrementing _ | .decrementing _ => [.count]
  | .constructing _ _ => [.pushCursor]
  | .advancingPush _ => [.pushCursor, .capacity]
  | .moving | .destroying _ => [.popCursor, .slots]
  | .advancingPop _ => [.popCursor, .capacity]
  | .addressing => [.popCursor]
  | .reading => [.closed]
  | .locking _ | .waiting _ | .relocking _ | .closing | .unlocking _ _ | .notifying => []

def Line.writes : Line α → List Member
  | .constructing _ _ | .moving | .destroying _ => [.slots]
  | .advancingPush _ => [.pushCursor]
  | .advancingPop _ => [.popCursor]
  | .incrementing _ | .decrementing _ => [.count]
  | .closing => [.closed]
  | _ => []

def Label.writes (s : State T α) : Label T α → List Member
  | .run t _ => (s.line t).writes
  | _ => []

attribute [ext] MutexBuffer

def Member.Same (b b' : MutexBuffer α) : Member → Prop
  | .capacity => b'.capacity_ = b.capacity_
  | .count => b'.count_ = b.count_
  | .pushCursor => b'.pushCursor_ = b.pushCursor_
  | .popCursor => b'.popCursor_ = b.popCursor_
  | .closed => b'.closed_ = b.closed_
  | .slots => b'.slots = b.slots

def SameBut (ms : List Member) (b b' : MutexBuffer α) : Prop := ∀ m, m ∉ ms → m.Same b b'

/-- Two lines that touch a common member, one of them writing it. -/
def Conflict (x y : Line α) : Prop := ∃ m, m ∈ x.writes ∧ (m ∈ y.reads ∨ m ∈ y.writes)

def Label.touches (s : State T α) : Label T α → List Member
  | .run t _ => (s.line t).reads ++ (s.line t).writes
  | .capacity t _ => (s.line t).reads
  | _ => []

def State.withBuffer (s : State T α) (b : MutexBuffer α) : State T α := { s with buffer := b }

/-- The members `ms` of `x`, and the others of `b`. -/
def merge (ms : List Member) (b x : MutexBuffer α) : MutexBuffer α where
  capacity_ := if .capacity ∈ ms then x.capacity_ else b.capacity_
  count_ := if .count ∈ ms then x.count_ else b.count_
  pushCursor_ := if .pushCursor ∈ ms then x.pushCursor_ else b.pushCursor_
  popCursor_ := if .popCursor ∈ ms then x.popCursor_ else b.popCursor_
  closed_ := if .closed ∈ ms then x.closed_ else b.closed_
  slots := if .slots ∈ ms then x.slots else b.slots

section Footprint

variable {ms : List Member} {b x : MutexBuffer α}

theorem Member.Same.rfl {m : Member} : m.Same b b := by
  cases m <;> exact Eq.refl _

theorem merge_same (same : ∀ m ∈ ms, m.Same x b) : merge ms b x = b :=
  MutexBuffer.ext (ite_eq_right_iff.mpr fun mem => (same _ mem).symm)
    (ite_eq_right_iff.mpr fun mem => (same _ mem).symm)
    (ite_eq_right_iff.mpr fun mem => (same _ mem).symm)
    (ite_eq_right_iff.mpr fun mem => (same _ mem).symm)
    (ite_eq_right_iff.mpr fun mem => (same _ mem).symm)
    (ite_eq_right_iff.mpr fun mem => (same _ mem).symm)

theorem merge_nil : merge [] b x = b := merge_same fun _ mem => absurd mem List.not_mem_nil

theorem SameBut.of_merge (kept : merge ms b x = x) : SameBut ms b x := by
  intro m out
  have kept := kept.symm
  cases m <;> simp only [MutexBuffer.ext_iff, merge, out, if_false] at kept <;> tauto

variable [DecidableEq T] {env : Environment} {s : State T α} {t : T}

theorem lockLine_withBuffer (op : Op α) :
    lockLine (s.withBuffer b) t op = (lockLine s t op).map (State.withBuffer · b) := by
  have mutex : (s.withBuffer b).mutex = s.mutex := rfl
  unfold lockLine
  rw [mutex]
  cases s.mutex <;> rfl

theorem testLine_withBuffer {op : Op α}
    (same : ∀ m ∈ (Line.testing op).reads, m.Same s.buffer b) :
    testLine env (s.withBuffer b) t op = (testLine env s t op).withBuffer b := by
  have count : b.count_ = s.buffer.count_ := same .count (by cases op <;> simp [Line.reads])
  have buffer : (s.withBuffer b).buffer = b := rfl
  cases op with
  | emplace v | tryEmplace v =>
    have capacity : b.capacity_ = s.buffer.capacity_ := same .capacity (by simp [Line.reads])
    have full : b.isFull = s.buffer.isFull := by rw [MutexBuffer.isFull, count, capacity]; rfl
    simp only [testLine, buffer, full]
    split <;> rfl
  | front | tryPop | pop =>
    simp only [testLine, buffer, count]
    split <;> rfl
  | close | closed => rfl

theorem constructLine_withBuffer (v : α) (res : Result α)
    (push : b.pushCursor_ = s.buffer.pushCursor_) (slots : b.slots = s.buffer.slots) :
    constructLine (s.withBuffer b) t v res = (constructLine s t v res).withBuffer
      (merge [.slots] b (constructLine s t v res).buffer) := by
  have buffer : (s.withBuffer b).buffer = b := rfl
  simp only [constructLine, buffer, push, slots]
  split
  · simp [State.withBuffer, merge, ← slots]
  · simp [State.withBuffer, merge, State.goes, push]

theorem destroyLine_withBuffer (res : Result α)
    (pop : b.popCursor_ = s.buffer.popCursor_) (slots : b.slots = s.buffer.slots) :
    destroyLine (s.withBuffer b) t res = (destroyLine s t res).withBuffer
      (merge [.slots] b (destroyLine s t res).buffer) := by
  have buffer : (s.withBuffer b).buffer = b := rfl
  simp only [destroyLine, buffer, pop, slots]
  split
  · simp [State.withBuffer, merge, ← slots]
  · simp [State.withBuffer, merge, State.goes, pop]

theorem moveLine_withBuffer (pop : b.popCursor_ = s.buffer.popCursor_)
    (slots : b.slots = s.buffer.slots) :
    moveLine (s.withBuffer b) t = (moveLine s t).withBuffer
      (merge [.slots] b (moveLine s t).buffer) := by
  have buffer : (s.withBuffer b).buffer = b := rfl
  simp only [moveLine, buffer, pop, slots]
  split <;> simp [State.withBuffer, merge, State.goes, ← slots]

theorem advancePushLine_withBuffer (res : Result α)
    (push : b.pushCursor_ = s.buffer.pushCursor_)
    (capacity : b.capacity_ = s.buffer.capacity_) :
    advancePushLine (s.withBuffer b) t res = (advancePushLine s t res).withBuffer
      (merge [.pushCursor] b (advancePushLine s t res).buffer) := by
  have buffer : (s.withBuffer b).buffer = b := rfl
  simp only [advancePushLine, buffer, push, capacity]
  split
  · simp [State.withBuffer, merge, ← push]
  · simp [State.withBuffer, merge, State.goes, capacity]

theorem advancePopLine_withBuffer (res : Result α)
    (pop : b.popCursor_ = s.buffer.popCursor_)
    (capacity : b.capacity_ = s.buffer.capacity_) :
    advancePopLine (s.withBuffer b) t res = (advancePopLine s t res).withBuffer
      (merge [.popCursor] b (advancePopLine s t res).buffer) := by
  have buffer : (s.withBuffer b).buffer = b := rfl
  simp only [advancePopLine, buffer, pop, capacity]
  split
  · simp [State.withBuffer, merge, ← pop]
  · simp [State.withBuffer, merge, State.goes, capacity]

theorem runLine_withBuffer (throws : Bool)
    (same : ∀ m ∈ (s.line t).reads ++ (s.line t).writes, m.Same s.buffer b) :
    runLine env (s.withBuffer b) t throws =
      (runLine env s t throws).map fun s' =>
        s'.withBuffer (merge (s.line t).writes b s'.buffer) := by
  have line : (s.withBuffer b).line = s.line := rfl
  have buffer : (s.withBuffer b).buffer = b := rfl
  -- A line that leaves the buffer alone leaves it alone in `b` too.
  have kept : merge (s.line t).writes b s.buffer = b :=
    merge_same fun m mem => same m (List.mem_append_right _ mem)
  cases throws with
  | true =>
    simp only [runLine, if_true, line]
    cases at_line : s.line t with
    | constructing v res | moving =>
      rw [at_line] at kept
      exact congrArg some (congrArg (s.goes t (.unlocking .threw false)).withBuffer kept.symm)
    | _ => rfl
  | false =>
    simp only [runLine, Bool.false_eq_true, if_false, line]
    cases at_line : s.line t with
    | idle | waiting v | notifying => rfl
    | locking op | relocking v => simp only [Line.writes, merge_nil, lockLine_withBuffer]
    | testing op =>
      rw [at_line] at same
      simp only [Line.writes, merge_nil, Option.map_some]
      rw [testLine_withBuffer fun m mem => same m (List.mem_append_left _ mem)]
    | unlocking res notifies => simp only [Line.writes, merge_nil, Option.map_some]; rfl
    | constructing v res =>
      rw [at_line] at same
      exact congrArg some (constructLine_withBuffer v res (same .pushCursor (.head _))
        (same .slots (.tail _ (.head _))))
    | advancingPush res =>
      rw [at_line] at same
      exact congrArg some (advancePushLine_withBuffer res (same .pushCursor (.head _))
        (same .capacity (.tail _ (.head _))))
    | moving =>
      rw [at_line] at same
      exact congrArg some (moveLine_withBuffer (same .popCursor (.head _))
        (same .slots (.tail _ (.head _))))
    | destroying res =>
      rw [at_line] at same
      exact congrArg some (destroyLine_withBuffer res (same .popCursor (.head _))
        (same .slots (.tail _ (.head _))))
    | advancingPop res =>
      rw [at_line] at same
      exact congrArg some (advancePopLine_withBuffer res (same .popCursor (.head _))
        (same .capacity (.tail _ (.head _))))
    | incrementing res | decrementing res =>
      rw [at_line] at same
      have count : b.count_ = s.buffer.count_ := same .count (.head _)
      simp [State.withBuffer, State.goes, Line.writes, merge, count]
    | closing => simp [State.withBuffer, State.goes, Line.writes, merge]
    | addressing =>
      rw [at_line] at same
      have pop : b.popCursor_ = s.buffer.popCursor_ := same .popCursor (.head _)
      simp only [Line.writes, merge_nil, buffer, pop, Option.map_some]
      rfl
    | reading =>
      rw [at_line] at same
      have closed : b.closed_ = s.buffer.closed_ := same .closed (.head _)
      simp only [Line.writes, merge_nil, buffer, closed, Option.map_some]
      rfl

variable [Fintype T]

/-- What a step does depends on the members it touches, and it leaves the others as they are. -/
def Confined (env : Environment) (s : State T α) (l : Label T α) : Prop :=
  ∀ b, (∀ m ∈ l.touches s, m.Same s.buffer b) →
    step env (s.withBuffer b) l =
      (step env s l).map fun s' => s'.withBuffer (merge (l.writes s) b s'.buffer)

theorem notifyLine_withBuffer (target : Option T) :
    notifyLine (s.withBuffer b) t target =
      (notifyLine s t target).map (State.withBuffer · b) := by
  have line : (s.withBuffer b).line = s.line := rfl
  cases target with
  | none =>
    simp only [notifyLine, line]
    split <;> rfl
  | some u =>
    simp only [notifyLine, line]
    cases s.line u <;> rfl

theorem step_confined (s : State T α) (l : Label T α) : Confined env s l := by
  intro b same
  have fault : (s.withBuffer b).fault = s.fault := rfl
  have line : (s.withBuffer b).line = s.line := rfl
  unfold step
  rw [fault]
  split
  · rfl
  · cases l with
    | run t throws => exact runLine_withBuffer throws same
    | notify t target =>
      simp only [line, Label.writes, merge_nil]
      cases s.line t with
      | notifying => exact notifyLine_withBuffer target
      | _ => rfl
    | call t op | spurious t =>
      simp only [line, Label.writes, merge_nil]
      cases s.line t <;> rfl
    | capacity t size =>
      simp only [line, Label.writes, merge_nil]
      cases at_line : s.line t with
      | idle =>
        have capacity : (s.withBuffer b).buffer.capacity_ = s.buffer.capacity_ := by
          rw [Label.touches, at_line] at same
          exact same .capacity (.head _)
        simp only [capacity]
        split <;> rfl
      | _ => rfl

theorem step_writes {s' : State T α} {l : Label T α} (h : step env s l = some s') :
    SameBut (l.writes s) s.buffer s'.buffer := by
  have same := @step_confined _ _ _ env _ s l s.buffer fun _ _ => .rfl
  have whole : s.withBuffer s.buffer = s := rfl
  rw [whole, h] at same
  exact .of_merge (congrArg State.buffer (Option.some.inj same)).symm

end Footprint

section Races

variable {n : Nat} {s : State T α} {a : Mutex.State T α} {t u : T} {x y : Line α}

theorem writes_inside (some_written : x.writes ≠ []) : x.inside = true := by
  cases x <;> first | rfl | exact absurd rfl some_written

/-- Outside the sections only `capacity_` is read, and no line writes it. -/
theorem reads_outside {m : Member} (outer : y.inside = false) (read : m ∈ y.reads) :
    m = .capacity := by
  cases y with
  | idle => simpa [Line.reads] using read
  | locking op | waiting v | relocking v | notifying => cases read
  | _ => cases outer

theorem capacity_kept : Member.capacity ∉ x.writes := by
  cases x <;> simp [Line.writes]

theorem Refines.no_conflict (refines : Refines n s a) (ne : t ≠ u) :
    ¬ Conflict (s.line t) (s.line u) := by
  rintro ⟨m, written, touched⟩
  have inner := writes_inside (List.ne_nil_of_mem written)
  cases other : (s.line u).inside with
  | true => exact ne (refines.exclusive.unique inner other)
  | false =>
    rcases touched with read | written'
    · rw [reads_outside other read] at written
      exact capacity_kept written
    · rw [writes_inside (List.ne_nil_of_mem written')] at other
      cases other

end Races

/-- No two threads are about to touch a common member, one of them writing it. Members are
changed by the holder of the mutex only, and only those its line writes; `capacity()`, which
takes no lock, always tells `n`. -/
structure RaceFree [DecidableEq T] [Fintype T] (env : Environment) (n : Nat)
    (b : MutexBuffer α) (ls : List (Label T α)) (s : State T α) : Prop where
  apart : ∀ t u, t ≠ u → ¬ Conflict (s.line t) (s.line u)
  confined : Along (step env) (Confined env) (start T b) ls
  guarded : Along (step env) (fun s l => ∀ s', step env s l = some s' →
    SameBut (l.writes s) s.buffer s'.buffer ∧
      (s'.buffer ≠ s.buffer → ∃ t throws, l = .run t throws ∧ s.mutex = some t)) (start T b) ls
  capacity : Along (step env) (fun _ l => ∀ t size, l = .capacity t size → size = n)
    (start T b) ls

section Runs

variable [DecidableEq T] [Fintype T] {env : Environment} {n : Nat} {s s' : State T α}
  {a : Mutex.State T α} {t : T}

theorem Refines.guarded (refines : Refines n s a) {l : Label T α}
    (h : Lines.step env s l = some s') :
    SameBut (l.writes s) s.buffer s'.buffer ∧
      (s'.buffer ≠ s.buffer → ∃ t throws, l = .run t throws ∧ s.mutex = some t) := by
  have written := step_writes h
  refine ⟨written, fun changed => ?_⟩
  have some_written : l.writes s ≠ [] := by
    intro nothing
    rw [nothing] at written
    have same := fun m => written m List.not_mem_nil
    exact changed (MutexBuffer.ext (same .capacity) (same .count) (same .pushCursor)
      (same .popCursor) (same .closed) (same .slots))
  cases l with
  | run t throws => exact ⟨t, throws, rfl, (refines.exclusive t).mp (writes_inside some_written)⟩
  | _ => exact absurd rfl some_written

theorem step_capacity {l : Label T α} (h : Lines.step env s l = some s') :
    s'.buffer.capacity_ = s.buffer.capacity_ := by
  refine step_writes h .capacity ?_
  cases l with
  | run t throws => exact capacity_kept
  | _ => exact List.not_mem_nil

theorem capacity_told {size : Nat} (h : Lines.step env s (.capacity t size) = some s') :
    s.buffer.capacity_ = size := by
  unfold Lines.step at h
  split at h
  · cases h
  · simp only at h
    split at h
    · split at h
      · assumption
      · cases h
    · cases h

end Runs

/-- The members are free of data races: `mutex_` guards all but `capacity_`, which nobody
writes after the construction. -/
theorem mutex_race_free [DecidableEq T] [Fintype T] (env : Environment) (n : Nat)
    (small : n < sizeModulus) (b : MutexBuffer α) (made : MutexBuffer.construct α env n = .ok b)
    (ls : List (Label T α)) (s : State T α)
    (run : Run (step env) (fun s l => nonemptyPop s l = true) (start T b) ls s) :
    RaceFree env n b ls s := by
  obtain ⟨pos, rfl⟩ := MutexBuffer.construct_ok made
  have initial : (∃ a, Refines n (start T (MutexBuffer.empty α n)) a) ∧
      (start T (MutexBuffer.empty α n)).buffer.capacity_ = n :=
    ⟨⟨_, refines_start (MutexBuffer.holds_empty pos small)⟩, rfl⟩
  have preserved : ∀ (s : State T α) l s', (∃ a, Refines n s a) ∧ s.buffer.capacity_ = n →
      nonemptyPop s l = true → step env s l = some s' →
      (∃ a, Refines n s' a) ∧ s'.buffer.capacity_ = n := by
    intro s l s' ⟨⟨a, refines⟩, capacity⟩ contract h
    obtain ⟨a', _, still⟩ := refines.step contract h
    exact ⟨⟨a', still⟩, (step_capacity h).trans capacity⟩
  obtain ⟨⟨a, refines⟩, _⟩ := run.invariant _ preserved initial
  refine ⟨fun t u ne => refines.no_conflict ne, ?_, ?_, ?_⟩
  · exact run.along _ _ preserved (fun s l s' _ _ _ => step_confined s l) initial
  · exact run.along _ _ preserved (fun s l s' ⟨⟨a, refines⟩, _⟩ _ _ s'' h => refines.guarded h)
      initial
  · refine run.along _ _ preserved (fun s l s' ⟨_, capacity⟩ _ h t size same => ?_) initial
    subst same
    exact (capacity_told h).symm.trans capacity

theorem mutex_race_free_at_one : ∃ s : State Bool Nat,
    RaceFree .desktop 1 (MutexBuffer.empty Nat 1) interleaved s ∧ s.mutex = some true :=
  ⟨_, mutex_race_free .desktop 1 (by decide) _ rfl interleaved _
    (Run.of_exec (by decide) (by decide)), by decide⟩

end RingBuffers.Mutex.Lines
