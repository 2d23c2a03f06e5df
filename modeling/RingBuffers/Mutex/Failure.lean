import RingBuffers.Mutex.Lifetimes

/-! Sections of a `MutexBuffer` that fail: a push into a full buffer, and constructions and
moves that throw. Only the answer of the calling thread tells that they were there. -/
namespace RingBuffers.Mutex
open Lifetime Transition

variable {T α : Type} [DecidableEq T]

/-- The state in which `t` has been answered `res` and nothing else has happened. -/
def State.tell (s : State T α) (t : T) (res : Result α) : State T α :=
  { s with result := Function.update s.result t (some res) }

def calledIn (t : T) (ls : List (Label T α)) : Bool :=
  ls.any fun
    | .call u _ => u = t
    | _ => false

section Sections

variable {env : Environment} {s : State T α} {t u : T} {res : Result α}

@[simp] theorem tell_buffer : (s.tell t res).buffer = s.buffer := rfl
@[simp] theorem tell_thread : (s.tell t res).thread = s.thread := rfl
@[simp] theorem tell_fault : (s.tell t res).fault = s.fault := rfl

theorem moves_tell (u : T) (pc : PC α) :
    (s.tell t res).moves u pc = (s.moves u pc).tell t res := rfl

theorem answers_tell (other : u ≠ t) (pc : PC α) (a : Result α) :
    (s.tell t res).answers u pc a = (s.answers u pc a).tell t res := by
  simp only [State.tell, State.answers, Function.update_comm other]

theorem pushes_tell (other : u ≠ t) (v : α) (a : Result α) :
    pushes (s.tell t res) u v a = (pushes s u v a).tell t res := by
  unfold pushes
  rw [answers_tell other]
  simp only [State.tell]
  cases s.buffer.pushBack v <;> rfl

theorem pops_tell (other : u ≠ t) (dead : Fault) (a : α → Result α) :
    pops (s.tell t res) u dead a = (pops s u dead a).tell t res := by
  unfold pops
  simp only [answers_tell other]
  simp only [State.tell]
  cases s.buffer.slots s.buffer.popCursor_ with
  | none => rfl
  | some v => cases s.buffer.popFront <;> rfl

theorem section_tell (other : u ≠ t) (op : Op α) :
    criticalSection env (s.tell t res) u op = (criticalSection env s u op).tell t res := by
  cases op with
  | emplace v =>
    simp only [criticalSection, tell_buffer, pushes_tell other, moves_tell]
    rw [apply_ite (State.tell · t res)]
  | tryEmplace v =>
    simp only [criticalSection, tell_buffer, pushes_tell other, answers_tell other]
    rw [apply_ite (State.tell · t res)]
  | front => exact answers_tell other _ _
  | tryPop =>
    simp only [criticalSection, tell_buffer, pops_tell other, answers_tell other]
    rw [apply_ite (State.tell · t res)]
  | pop =>
    simp only [criticalSection, tell_buffer, pops_tell other]
    rw [apply_ite (State.tell · t res)]
    rfl
  | close =>
    simp only [criticalSection, answers_tell other]
    rfl
  | closed => exact answers_tell other _ _

theorem pushes_thread (other : t ≠ u) (v : α) (a : Result α) :
    (pushes s u v a).thread t = s.thread t := by
  unfold pushes
  cases s.buffer.pushBack v with
  | error f => rfl
  | ok b => exact Function.update_of_ne other _ _

theorem pops_thread (other : t ≠ u) (dead : Fault) (a : α → Result α) :
    (pops s u dead a).thread t = s.thread t := by
  unfold pops
  cases s.buffer.slots s.buffer.popCursor_ with
  | none => rfl
  | some v =>
    cases s.buffer.popFront with
    | error f => rfl
    | ok b => exact Function.update_of_ne other _ _

theorem section_thread (other : t ≠ u) (op : Op α) :
    (criticalSection env s u op).thread t = s.thread t := by
  cases op with
  | emplace v =>
    simp only [criticalSection]
    split
    · exact Function.update_of_ne other _ _
    · exact pushes_thread other _ _
  | tryEmplace v =>
    simp only [criticalSection]
    split
    · exact Function.update_of_ne other _ _
    · exact pushes_thread other _ _
  | tryPop =>
    simp only [criticalSection]
    split
    · exact Function.update_of_ne other _ _
    · exact pops_thread other _ _
  | pop =>
    simp only [criticalSection]
    split
    · rfl
    · exact pops_thread other _ _
  | front | close | closed => exact Function.update_of_ne other _ _

theorem answers_back (idle : s.thread t = .idle) (op : Op α) :
    State.answers { s with
      thread := Function.update s.thread t (.entering op)
      result := Function.update s.result t none } t .idle res = s.tell t res := by
  have thread : Function.update s.thread t .idle = s.thread := by
    rw [← idle, Function.update_eq_self]
  simp only [State.answers, State.tell, Function.update_idem, thread]

variable [Fintype T]

@[simp] theorem tell_blocked : (s.tell t res).blocked = s.blocked := rfl

theorem step_tell (idle : s.thread t = .idle) {l : Label T α} (other : calledIn t [l] = false) :
    step env (s.tell t res) l = (step env s l).map (State.tell · t res) := by
  unfold step
  rw [tell_fault]
  by_cases sound : s.fault.isSome = true
  · rw [if_pos sound, if_pos sound]
    rfl
  · rw [if_neg sound, if_neg sound]
    cases l with
    | call u op =>
      have ne : u ≠ t := by simpa [calledIn] using other
      simp only [tell_thread]
      cases s.thread u with
      | idle => simp [State.tell, Function.update_comm ne]
      | _ => rfl
    | lock u throws =>
      simp only [tell_thread]
      cases pending : (s.thread u).pending with
      | none => rfl
      | some op =>
        have ne : u ≠ t := by
          intro same
          rw [same, idle] at pending
          cases pending
        cases throws with
        | true =>
          simp only [tell_buffer, answers_tell ne, if_true]
          rw [apply_ite (Option.map (State.tell · t res))]
          rfl
        | false =>
          simp only [section_tell ne]
          rfl
    | notify u target =>
      simp only [tell_thread]
      cases s.thread u with
      | notifying =>
        cases target with
        | none =>
          simp only [notifyStep, tell_blocked]
          rw [apply_ite (Option.map (State.tell · t res))]
          rfl
        | some w =>
          simp only [notifyStep, tell_thread]
          cases s.thread w <;> rfl
      | _ => rfl
    | spurious u =>
      simp only [tell_thread]
      cases s.thread u <;> rfl

theorem step_idle {s' : State T α} (idle : s.thread t = .idle) {l : Label T α}
    (other : calledIn t [l] = false) (h : step env s l = some s') : s'.thread t = .idle := by
  unfold step at h
  split at h
  · cases h
  · cases l with
    | call u op =>
      have ne : t ≠ u := by
        intro same
        simp [calledIn, same] at other
      simp only at h
      split at h
      · cases h
        exact (Function.update_of_ne ne _ _).trans idle
      · cases h
    | lock u throws =>
      simp only at h
      split at h
      · cases h
      · rename_i op pending
        have ne : t ≠ u := by
          intro same
          rw [← same, idle] at pending
          cases pending
        split at h
        · split at h
          · cases h
            exact (Function.update_of_ne ne _ _).trans idle
          · cases h
        · cases h
          exact (section_thread ne op).trans idle
    | notify u target =>
      simp only at h
      split at h
      · rename_i notifying
        have ne : t ≠ u := by
          intro same
          rw [← same, idle] at notifying
          cases notifying
        cases target with
        | none =>
          simp only [notifyStep] at h
          split at h
          · cases h
            exact (Function.update_of_ne ne _ _).trans idle
          · cases h
        | some w =>
          simp only [notifyStep] at h
          split at h
          · rename_i v waiting
            have ne' : t ≠ w := by
              intro same
              rw [← same, idle] at waiting
              cases waiting
            cases h
            exact ((Function.update_of_ne ne _ _).trans (Function.update_of_ne ne' _ _)).trans idle
          · cases h
      · cases h
    | spurious u =>
      simp only at h
      split at h
      · rename_i v waiting
        have ne : t ≠ u := by
          intro same
          rw [← same, idle] at waiting
          cases waiting
        cases h
        exact (Function.update_of_ne ne _ _).trans idle
      · cases h

theorem step_call_tell (op : Op α) :
    step env (s.tell t res) (.call t op) = step env s (.call t op) := by
  simp only [step, State.tell, Function.update_idem]

theorem exec_tell (idle : s.thread t = .idle) (ls : List (Label T α)) :
    exec (step env) (s.tell t res) ls =
      (exec (step env) s ls).map fun u => if calledIn t ls then u else u.tell t res := by
  induction ls generalizing s with
  | nil => rfl
  | cons l ls ih =>
    have split : calledIn t (l :: ls) = (calledIn t [l] || calledIn t ls) := by simp [calledIn]
    cases now : calledIn t [l] with
    | true =>
      obtain ⟨op, rfl⟩ : ∃ op, l = .call t op := by
        cases l with
        | call u op => exact ⟨op, by rw [show u = t by simpa [calledIn] using now]⟩
        | lock | notify | spurious => simp [calledIn] at now
      simp [exec, split, now, step_call_tell]
    | false =>
      simp only [exec, split, now, Bool.false_or, step_tell idle now]
      cases h : step env s l with
      | none => rfl
      | some u =>
        simp only [Option.map_some, Option.bind_some]
        exact ih (step_idle idle now h)

theorem exec_throws (sound : s.fault = none) (idle : s.thread t = .idle) (op : Op α)
    (reached : constructs s.buffer op = true) :
    exec (step env) s [.call t op, .lock t true] = some (s.tell t .threw) := by
  rw [← answers_back idle op]
  simp [exec, step, sound, idle, PC.pending, reached]

theorem exec_refuses (sound : s.fault = none) (idle : s.thread t = .idle) (v : α)
    (full : s.buffer.isFull = true) :
    exec (step env) s [.call t (.tryEmplace v), .lock t false] =
      some (s.tell t (.pushed false)) := by
  rw [← answers_back idle (.tryEmplace v)]
  simp [exec, step, sound, idle, PC.pending, criticalSection, full]

end Sections

/-- What failed calls of `t` do, made while `t` is at rest. -/
structure FailsSoftly [Fintype T] (env : Environment) (s : State T α) (t : T) : Prop where
  throws : ∀ op v res, op.pushes = some (v, res) → s.buffer.isFull = false →
    exec (step env) s [.call t op, .lock t true] = some (s.tell t .threw)
  refuses : ∀ v, s.buffer.isFull = true →
    exec (step env) s [.call t (.tryEmplace v), .lock t false] = some (s.tell t (.pushed false))
  /-- Whatever is called afterwards is answered as if the failed call had not been made. -/
  later : ∀ res ls, exec (step env) (s.tell t res) ls =
    (exec (step env) s ls).map fun u => if calledIn t ls then u else u.tell t res
  /-- A move out that throws leaves the element at the front, to be destroyed exactly once. -/
  moveThrows : ∀ p, s.buffer.front = some p →
    exec (step env) s [.call t .tryPop, .lock t true] = some (s.tell t .threw) ∧
      ∀ ks u, Run (step env) (fun s l => nonemptyPop s l = true) (s.tell t .threw) ks u →
        ∀ fuel, u.buffer.stored.length < fuel → ∃ ds d vs, u.buffer.drain fuel = some (ds, d) ∧
          eventsOf p ((trace (step env) slotEvents (s.tell t .threw) ks).flatten ++ ds) =
            .destroy p :: lives p vs

theorem Inv.destroyed_once [Fintype T] {env : Environment} {n : Nat} {s u : State T α}
    (inv : Inv n s) {p : Nat} {v : α} (live : s.buffer.slots p = some v)
    {ks : List (Label T α)} (run : Run (step env) (fun s l => nonemptyPop s l = true) s ks u)
    {fuel : Nat} (enough : u.buffer.stored.length < fuel) :
    ∃ ds d vs, u.buffer.drain fuel = some (ds, d) ∧
      eventsOf p ((trace (step env) slotEvents s ks).flatten ++ ds) = .destroy p :: lives p vs := by
  have after := inv.run run
  have length := after.holds.stored_length
  obtain ⟨d, drained, lawful, _, dead⟩ := after.holds.drain_sweeps fuel (by omega)
  have lived := path_lived ((run_lawful inv run).append lawful) p (by rw [dead])
  rw [live] at lived
  obtain ⟨vs, events⟩ := lived
  exact ⟨_, d, vs, drained, events⟩

theorem Inv.failsSoftly [Fintype T] {n : Nat} {s : State T α} (inv : Inv n s) {t : T}
    (idle : s.thread t = .idle) (env : Environment) : FailsSoftly env s t where
  throws op v res kind room := by
    apply exec_throws inv.sound idle
    cases op with
    | emplace w | tryEmplace w => simp [constructs, room]
    | front | tryPop | pop | close | closed => cases kind
  refuses v full := exec_refuses inv.sound idle v full
  later res ls := exec_tell idle ls
  moveThrows := by
    intro p front
    have holds : Inv n (s.tell t .threw) := ⟨inv.sound, inv.holds, inv.popped⟩
    unfold MutexBuffer.front at front
    split at front
    · cases front
    · rename_i some_left
      cases front
      obtain ⟨v, _, live⟩ := inv.holds.oldest (Nat.pos_of_ne_zero some_left)
      refine ⟨exec_throws inv.sound idle .tryPop (by simp [constructs, some_left]), ?_⟩
      intro ks u run fuel enough
      exact holds.destroyed_once live run enough

end RingBuffers.Mutex
