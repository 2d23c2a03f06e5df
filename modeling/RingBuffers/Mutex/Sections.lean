import RingBuffers.Mutex.Lines

/-! The line machine beside the machine of critical sections. While a thread is in a section the
members differ by what its lines have done so far, and what each line does brings the section
one line further. -/
namespace RingBuffers.Mutex.Lines
open Census Exclusion Transition

variable {T α : Type}

/-- What a critical section does to the members, what the call returns and whether it goes on
to notify. -/
inductive Section (b : MutexBuffer α) : Op α → MutexBuffer α → Result α → Bool → Prop where
  | push (op : Op α) (v : α) (res : Result α) (b' : MutexBuffer α) :
      op.pushes = some (v, res) → b.isFull = false → b.pushBack v = .ok b' →
      Section b op b' res false
  | refuse (v : α) : b.isFull = true → Section b (.tryEmplace v) b (.pushed false) false
  | take (op : Op α) (v : α) (res : Result α) (b' : MutexBuffer α) :
      op.takes v = some res → 0 < b.count_ → b.slots b.popCursor_ = some v →
      b.popFront = .ok b' → Section b op b' res true
  | miss : b.count_ = 0 → Section b .tryPop b (.popped none) false
  | front : Section b .front b (.front b.front) false
  | close : Section b .close { b with closed_ := true } .done false
  | closed : Section b .closed b (.closed b.closed_) false
  | threw (op : Op α) : constructs b op = true → Section b op b .threw false

def Pushing (b : MutexBuffer α) (pending : Option (Op α)) (v : α) (res : Result α) : Prop :=
  ∃ op, pending = some op ∧ op.pushes = some (v, res) ∧ b.isFull = false

def Popping (b : MutexBuffer α) (pending : Option (Op α)) (v : α) (res : Result α) : Prop :=
  ∃ op, pending = some op ∧ op.takes v = some res ∧ 0 < b.count_ ∧
    b.slots b.popCursor_ = some v

def Progress (b : MutexBuffer α) (pending : Option (Op α)) (b' : MutexBuffer α) :
    Line α → Prop
  | .idle | .locking _ | .waiting _ | .relocking _ | .notifying => False
  | .testing op => pending = some op ∧ b' = b
  | .constructing v res => Pushing b pending v res ∧ b' = b
  | .advancingPush res => ∃ v, Pushing b pending v res ∧
      b' = { b with slots := Function.update b.slots b.pushCursor_ (some v) }
  | .incrementing res => ∃ v next, Pushing b pending v res ∧
      sizeMod (sizeAdd b.pushCursor_ 1) b.capacity_ = some next ∧
      b' = { b with
        slots := Function.update b.slots b.pushCursor_ (some v)
        pushCursor_ := next }
  | .moving => pending = some .tryPop ∧ 0 < b.count_ ∧ b' = b
  | .destroying res => ∃ v, Popping b pending v res ∧ b' = b
  | .advancingPop res => ∃ v, Popping b pending v res ∧
      b' = { b with slots := Function.update b.slots b.popCursor_ none }
  | .decrementing res => ∃ v next, Popping b pending v res ∧
      sizeMod (sizeAdd b.popCursor_ 1) b.capacity_ = some next ∧
      b' = { b with
        slots := Function.update b.slots b.popCursor_ none
        popCursor_ := next }
  | .addressing => pending = some .front ∧ 0 < b.count_ ∧ b' = b
  | .closing => pending = some .close ∧ b' = b
  | .reading => pending = some .closed ∧ b' = b
  | .unlocking res notifies => ∃ op, pending = some op ∧ Section b op b' res notifies

/-- The line of a thread outside the critical sections, as the machine of sections has it. -/
def Shows (pc : PC α) : Line α → Prop
  | .idle => pc = .idle
  | .locking op => pc = .entering op
  | .waiting v => pc = .waiting v
  | .relocking v => pc = .woken v
  | .notifying => pc = .notifying
  | _ => pc.pending.isSome = true

structure Refines (n : Nat) (s : State T α) (a : Mutex.State T α) : Prop where
  inv : Inv n a
  sound : s.fault = none
  result : s.result = a.result
  shows : ∀ t, Shows (a.thread t) (s.line t)
  exclusive : Exclusive Line.inside s.mutex s.line
  free : s.mutex = none → s.buffer = a.buffer
  progress : ∀ t, s.mutex = some t →
    Progress a.buffer (a.thread t).pending s.buffer (s.line t)

section States

variable {n : Nat} {s : State T α} {a : Mutex.State T α} {t : T} {line : Line α}

theorem refines_start {b : MutexBuffer α} (holds : b.Holds n [] 0) :
    Refines n (start T b) (Mutex.start T b) where
  inv := inv_start holds
  sound := rfl
  result := rfl
  shows _ := rfl
  exclusive := exclusive_start fun _ => rfl
  free _ := rfl
  progress := nofun

theorem Refines.now (refines : Refines n s a) (at_line : s.line t = line)
    (inner : line.inside = true) :
    s.mutex = some t ∧ (a.thread t).pending.isSome = true ∧
      Progress a.buffer (a.thread t).pending s.buffer line := by
  have owner : s.mutex = some t := (refines.exclusive t).mp (by rw [at_line]; exact inner)
  have progress := refines.progress t owner
  have shows := refines.shows t
  rw [at_line] at progress shows
  refine ⟨owner, ?_, progress⟩
  cases line <;> first | exact shows | exact absurd inner Bool.false_ne_true

theorem shows_inside {pc : PC α} (inner : line.inside = true)
    (pending : pc.pending.isSome = true) : Shows pc line := by
  cases line <;> first | exact pending | exact absurd inner Bool.false_ne_true

end States

section Steps

variable [DecidableEq T] {n : Nat} {s : State T α} {a a' : Mutex.State T α} {t : T}
  {line : Line α} {pc : PC α}

/-- The steps of the machine of sections that a line stands for. -/
def sections (s : State T α) : Label T α → List (Mutex.Label T α)
  | .call t op => [.call t op]
  | .run t _ => match s.line t with
    | .unlocking res _ => [.lock t (threwOut res)]
    | .testing (.emplace _) => if s.buffer.isFull then [.lock t false] else []
    | _ => []
  | .notify t target => [.notify t target]
  | .spurious t => [.spurious t]
  | .capacity _ _ => []

theorem Refines.stays (refines : Refines n s a) (owner : s.mutex = some t) {b : MutexBuffer α}
    (inner : line.inside = true) (pending : (a.thread t).pending.isSome = true)
    (progress : Progress a.buffer (a.thread t).pending b line) :
    Refines n { s.goes t line with buffer := b } a where
  inv := refines.inv
  sound := refines.sound
  result := refines.result
  shows u := by
    by_cases mine : u = t
    · subst mine
      simpa [State.goes] using shows_inside inner pending
    · simpa [State.goes, mine] using refines.shows u
  exclusive := by
    refine refines.exclusive.stay ?_
    rw [inner]
    exact ((refines.exclusive t).mpr owner).symm
  free nobody := by
    rw [show s.mutex = none from nobody] at owner
    cases owner
  progress u holds := by
    have same : u = t := by
      rw [show s.mutex = some u from holds] at owner
      exact Option.some.inj owner
    subst same
    simpa [State.goes] using progress

theorem Refines.enters (refines : Refines n s a) (free : s.mutex = none)
    (inner : line.inside = true) (pending : (a.thread t).pending.isSome = true)
    (progress : Progress a.buffer (a.thread t).pending a.buffer line) :
    Refines n { s.goes t line with mutex := some t } a where
  inv := refines.inv
  sound := refines.sound
  result := refines.result
  shows u := by
    by_cases mine : u = t
    · subst mine
      simpa [State.goes] using shows_inside inner pending
    · simpa [State.goes, mine] using refines.shows u
  exclusive := refines.exclusive.enter free inner
  free := nofun
  progress u holds := by
    have same : t = u := Option.some.inj holds
    subst same
    simpa [State.goes, refines.free free] using progress

theorem Refines.leaves (refines : Refines n s a) (owner : s.mutex = some t)
    (outer : line.inside = false) (inv' : Inv n a') (buffer : a'.buffer = s.buffer)
    (thread : a'.thread = Function.update a.thread t pc) (shown : Shows pc line) :
    Refines n { s.goes t line with mutex := none, result := a'.result } a' where
  inv := inv'
  sound := refines.sound
  result := rfl
  shows u := by
    rw [thread]
    by_cases mine : u = t
    · subst mine
      simpa [State.goes] using shown
    · simpa [State.goes, mine] using refines.shows u
  exclusive := refines.exclusive.leave owner outer
  free _ := buffer.symm
  progress := nofun

theorem Refines.outside (refines : Refines n s a) (was : (s.line t).inside = false)
    (outer : line.inside = false) (inv' : Inv n a') (buffer : a'.buffer = a.buffer)
    (thread : a'.thread = Function.update a.thread t pc) (shown : Shows pc line) :
    Refines n { s.goes t line with result := a'.result } a' where
  inv := inv'
  sound := refines.sound
  result := rfl
  shows u := by
    rw [thread]
    by_cases mine : u = t
    · subst mine
      simpa [State.goes] using shown
    · simpa [State.goes, mine] using refines.shows u
  exclusive := refines.exclusive.stay (by rw [outer, was])
  free nobody := by
    rw [buffer]
    exact refines.free nobody
  progress u holds := by
    -- the thread inside is another one
    have inner : (s.line u).inside = true := (refines.exclusive u).mpr holds
    have other : u ≠ t := by
      rintro rfl
      rw [was] at inner
      cases inner
    rw [buffer, thread, Function.update_of_ne other]
    simpa [State.goes, other] using refines.progress u holds

end Steps

section Sections

variable [DecidableEq T] [Fintype T] {env : Environment} {n : Nat} {a : Mutex.State T α} {t : T}
  {op : Op α} {b : MutexBuffer α} {res : Result α} {notifies : Bool}

omit [DecidableEq T] [Fintype T] in
theorem Section.contract (section_ : Section a.buffer op b res notifies)
    (pending : (a.thread t).pending = some op) :
    Mutex.nonemptyPop a (.lock t (threwOut res)) = true := by
  simp only [Mutex.nonemptyPop, pending]
  cases section_ with
  | take op v res b' kind some_left =>
    cases op <;> first | rfl | (simp; omega)
  | push op v res b' kind => cases op <;> first | rfl | cases kind
  | threw op reached => cases op <;> first | rfl | cases reached
  | _ => rfl

theorem Section.step (env : Environment) (section_ : Section a.buffer op b res notifies)
    (inv : Inv n a) (pending : (a.thread t).pending = some op) :
    ∃ a', Mutex.step env a (.lock t (threwOut res)) = some a' ∧ a'.buffer = b ∧
      a'.thread = Function.update a.thread t (if notifies then .notifying else .idle) ∧
      a'.result = Function.update a.result t (some res) := by
  have locks : ∀ throws, Mutex.step env a (.lock t throws) =
      if throws then if constructs a.buffer op then some (a.answers t .idle .threw) else none
      else some (criticalSection env a t op) := by
    intro throws
    simp only [Mutex.step, inv.sound, Option.isSome_none, Bool.false_eq_true, if_false, pending]
  rw [locks]
  cases section_ with
  | push op v res b kind room built =>
    cases op <;> cases kind <;>
      simp only [threwOut, Bool.false_eq_true, if_false, criticalSection, room, pushes, built] <;>
      exact ⟨_, rfl, rfl, rfl, rfl⟩
  | refuse v full =>
    simp only [threwOut, Bool.false_eq_true, if_false, criticalSection, full, if_true]
    exact ⟨_, rfl, rfl, rfl, rfl⟩
  | take op v res b kind some_left live destroyed =>
    have not_empty : a.buffer.count_ ≠ 0 := by omega
    cases op <;> cases kind <;>
      simp only [threwOut, Bool.false_eq_true, if_false, criticalSection, not_empty, false_and,
        pops, live, destroyed] <;>
      exact ⟨_, rfl, rfl, rfl, rfl⟩
  | miss empty =>
    simp only [threwOut, Bool.false_eq_true, if_false, criticalSection, empty, if_true]
    exact ⟨_, rfl, rfl, rfl, rfl⟩
  | front | close | closed =>
    simp only [threwOut, Bool.false_eq_true, if_false, criticalSection]
    exact ⟨_, rfl, rfl, rfl, rfl⟩
  | threw op reached =>
    simp only [threwOut, if_true, reached]
    exact ⟨_, rfl, rfl, rfl, rfl⟩

end Sections

section Ways

variable {n : Nat} {a : Mutex.State T α} {pending : Option (Op α)} {v : α} {res : Result α}

/-- On its way a push finds its slot vacant and the next cursor defined, and the three lines
together are `pushBack`. -/
theorem Pushing.lines (pushing : Pushing a.buffer pending v res) (inv : Inv n a) :
    a.buffer.slots a.buffer.pushCursor_ = none ∧ ∃ next,
      sizeMod (sizeAdd a.buffer.pushCursor_ 1) a.buffer.capacity_ = some next ∧
      a.buffer.pushBack v = .ok { a.buffer with
        slots := Function.update a.buffer.slots a.buffer.pushCursor_ (some v)
        pushCursor_ := next
        count_ := sizeAdd a.buffer.count_ 1 } := by
  obtain ⟨op, _, _, room⟩ := pushing
  obtain ⟨b, built, _⟩ := inv.holds.pushBack_eq room v
  have whole := built
  unfold MutexBuffer.pushBack at built
  split at built
  · cases built
  · rename_i vacant
    split at built
    · cases built
    · rename_i next at_next
      refine ⟨vacant, next, at_next, ?_⟩
      rw [whole, ← built]

theorem Popping.lines (popping : Popping a.buffer pending v res) (inv : Inv n a) :
    ∃ next, sizeMod (sizeAdd a.buffer.popCursor_ 1) a.buffer.capacity_ = some next ∧
      a.buffer.popFront = .ok { a.buffer with
        slots := Function.update a.buffer.slots a.buffer.popCursor_ none
        popCursor_ := next
        count_ := sizeSub a.buffer.count_ 1 } := by
  obtain ⟨op, _, _, some_left, _⟩ := popping
  obtain ⟨b, destroyed, _⟩ := inv.holds.popFront_eq some_left
  have whole := destroyed
  unfold MutexBuffer.popFront at destroyed
  split at destroyed
  · cases destroyed
  · split at destroyed
    · cases destroyed
    · rename_i next at_next
      refine ⟨next, at_next, ?_⟩
      rw [whole, ← destroyed]

end Ways

end RingBuffers.Mutex.Lines
