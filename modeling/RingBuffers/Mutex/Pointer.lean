import RingBuffers.Mutex.Lifetimes

/-! The pointer that `front` returned to the only consumer of a `MutexBuffer`. The consumer uses
it outside the lock, while any number of producers go in and out. -/
namespace RingBuffers.Mutex
open Lifetime Transition

variable {T α : Type}

def Op.consumes : Op α → Bool
  | .front | .tryPop | .pop => true
  | _ => false

def spares (s : State T α) : Label T α → Bool
  | .lock t _ => match (s.thread t).pending with
    | some .tryPop | some .pop => false
    | _ => true
  | _ => true

def OneConsumer (c : T) (thread : T → PC α) : Prop :=
  ∀ t op, (thread t).pending = some op → op.consumes = true → t = c

/-- What `front` answered the consumer last is the front. -/
def Looked (c : T) (s : State T α) : Prop :=
  ∀ p, s.result c = some (.front (some p)) → s.buffer.front = some p

structure Pinned (c : T) (p : Nat) (v : α) (s : State T α) : Prop where
  front : s.buffer.front = some p
  live : s.buffer.slots p = some v
  looked : ∀ q, s.result c = some (.front q) → q = some p

section Fronts

variable {n : Nat} {s t : State T α} {c : T} {p : Nat} {v : α}

theorem front_eq {b : MutexBuffer α} {pushed : List α} {popped : Nat}
    (holds : b.Holds n pushed popped) :
    b.front = if popped < pushed.length then some (popped % n) else none := by
  have count := holds.count
  unfold MutexBuffer.front
  by_cases some_left : popped < pushed.length
  · rw [if_neg (by omega), if_pos some_left, holds.popCursor]
  · rw [if_pos (by omega), if_neg some_left]

theorem Looked.pinned (looked : Looked c s) (inv : Inv n s)
    (answer : s.result c = some (.front (some p))) : ∃ v, Pinned c p v s := by
  have front := looked p answer
  have holds := front_eq inv.holds
  rw [front] at holds
  split at holds
  · rename_i some_left
    obtain ⟨v, present⟩ : ∃ v, (s.pushed.map Prod.snd)[s.popped.length]? = some v :=
      ⟨_, List.getElem?_eq_getElem some_left⟩
    refine ⟨v, front, ?_, ?_⟩
    · rw [Option.some.inj holds]
      exact inv.holds.laid.at (Nat.le_refl _) present
    · intro q same
      rw [answer] at same
      cases same
      rfl
  · cases holds

theorem Pinned.at_cursor (pinned : Pinned c p v t) : t.buffer.popCursor_ = p ∧
    t.buffer.count_ ≠ 0 := by
  have front := pinned.front
  unfold MutexBuffer.front at front
  split at front
  · cases front
  · rename_i some_left
    exact ⟨Option.some.inj front, some_left⟩

theorem Pinned.untouched (pinned : Pinned c p v t) (inv : Inv n t) (l : Label T α) (w : α) :
    Event.construct p w ∉ slotEvents t l := by
  intro mem
  have elsewhere : t.buffer.isFull = false → p ≠ t.buffer.pushCursor_ := by
    intro room same
    obtain ⟨b, built, _⟩ := inv.holds.pushBack_eq room w
    have live := pinned.live
    rw [same, (MutexBuffer.pushBack_slots built).1] at live
    cases live
  cases l with
  | lock u throws =>
    cases throws with
    | true => cases mem
    | false =>
      cases pending : (t.thread u).pending with
      | none => simp [slotEvents, pending] at mem
      | some op =>
        cases op with
        | emplace x | tryEmplace x =>
          cases room : t.buffer.isFull with
          | true => simp [slotEvents, pending, room] at mem
          | false =>
            simp [slotEvents, pending, room] at mem
            exact elsewhere room mem.1
        | tryPop =>
          by_cases empty : t.buffer.count_ = 0 <;> simp [slotEvents, pending, empty] at mem
        | front | pop | close | closed => simp [slotEvents, pending] at mem
  | call | notify | spurious => cases mem

end Fronts

variable [DecidableEq T]

def singleConsumer (c : T) : Label T α → Bool
  | .call t op => !op.consumes || decide (t = c)
  | _ => true

/-- The consumer's pointer designates the element `v` in slot `p`. -/
structure StablePointer (env : Environment) [Fintype T] (c : T) (p : Nat) (v : α)
    (t : State T α) : Prop where
  value : t.buffer.slots p = some v
  untouched : ∀ l w, Event.construct p w ∉ slotEvents t l
  front : t.buffer.front = some p ∧ ∀ q, t.result c = some (.front q) → q = some p
  pop : ∀ u, (t.thread u).pending = some .pop → slotEvents t (.lock u false) = [.destroy p] ∧
    ∃ t', step env t (.lock u false) = some t' ∧
      t'.buffer.slots = Function.update t.buffer.slots p none

theorem OneConsumer.update {c : T} {thread : T → PC α} (one : OneConsumer c thread) (t : T)
    (pc : PC α) (kept : ∀ op, pc.pending = some op → op.consumes = true → t = c) :
    OneConsumer c (Function.update thread t pc) := by
  intro u op pending consumes
  by_cases same : u = t
  · subst same
    rw [Function.update_self] at pending
    exact kept op pending consumes
  · rw [Function.update_of_ne same] at pending
    exact one u op pending consumes

theorem OneConsumer.woken {c : T} {thread : T → PC α} (one : OneConsumer c thread) (t : T)
    (v : α) : OneConsumer c (Function.update thread t (.woken v)) := by
  apply one.update
  intro op pending consumes
  cases pending
  cases consumes

theorem answer_cases {result : T → Option (Result α)} {u c : T} {res : Result α}
    {a : Result α} (answer : Function.update result u (some res) c = some a) :
    (c = u ∧ res = a) ∨ result c = some a := by
  by_cases same : c = u
  · subst same
    rw [Function.update_self] at answer
    exact .inl ⟨rfl, Option.some.inj answer⟩
  · rw [Function.update_of_ne same] at answer
    exact .inr answer

section Steps

variable [Fintype T] {env : Environment} {n : Nat} {s t : State T α} {c : T} {p : Nat} {v : α}

theorem Move.oneConsumer {l : Label T α} (move : Move s l t) (single : singleConsumer c l = true)
    (one : OneConsumer c s.thread) : OneConsumer c t.thread := by
  cases move with
  | call u op idle =>
    apply one.update
    intro op' pending consumes
    cases pending
    simpa [singleConsumer, consumes] using single
  | spurious u w => exact one.woken u w
  | notify u' u w =>
    apply (one.woken u w).update
    intro op pending
    cases pending
  | block | push | refuse | take | miss | front | close | closed | threw | notifyNobody =>
    apply one.update
    intro op pending
    cases pending

theorem front_pushBack {b b' : MutexBuffer α} {pushed : List α} {popped : Nat}
    (holds : b.Holds n pushed popped) (room : b.isFull = false) {w : α}
    (built : b.pushBack w = .ok b') (front : b.front = some p) : b'.front = some p := by
  obtain ⟨b'', built', after⟩ := holds.pushBack_eq room w
  have same : b'' = b' := Except.ok.inj (built'.symm.trans built)
  subst same
  rw [front_eq holds] at front
  split at front
  · rename_i some_left
    cases front
    rw [front_eq after, List.length_append, List.length_singleton, if_pos (by omega)]
  · cases front

theorem Op.takes_consumes {op : Op α} {v : α} {res : Result α} (kind : op.takes v = some res) :
    op.consumes = true := by
  cases op with
  | tryPop | pop => rfl
  | emplace w | tryEmplace w | front | close | closed => cases kind

theorem Move.looked {l : Label T α} (move : Move s l t) (inv : Inv n s)
    (one : OneConsumer c s.thread) (looked : Looked c s) : Looked c t := by
  intro p answer
  cases move with
  | call u op idle =>
    by_cases same : c = u
    · subst same
      simp at answer
    · exact looked p (by simpa [same] using answer)
  | push u op w res b pending kind room built =>
    rcases answer_cases answer with ⟨_, rfl⟩ | before
    · cases op <;> cases kind
    · exact front_pushBack inv.holds room built (looked p before)
  | take u op w res b pending kind =>
    have same : u = c := one u op pending (Op.takes_consumes kind)
    rcases answer_cases answer with ⟨_, rfl⟩ | before
    · cases op <;> cases kind
    · subst same
      simp [State.answers] at answer
      subst answer
      cases op <;> cases kind
  | front u pending =>
    rcases answer_cases answer with ⟨_, eq⟩ | before
    · exact (Result.front.inj eq)
    · exact looked p before
  | refuse u w | miss u | close u | closed u | threw u =>
    rcases answer_cases answer with ⟨_, eq⟩ | before
    · cases eq
    · exact looked p before
  | block | notify | notifyNobody | spurious => exact looked p answer

theorem Move.pinned {l : Label T α} (move : Move s l t) (inv : Inv n s)
    (spared : spares s l = true) (pinned : Pinned c p v s) : Pinned c p v t := by
  cases move with
  | call u op idle =>
    refine { pinned with looked := ?_ }
    intro q answer
    by_cases same : c = u
    · subst same
      simp at answer
    · exact pinned.looked q (by simpa [same] using answer)
  | push u op w res b pending kind room built =>
    obtain ⟨free, slots⟩ := MutexBuffer.pushBack_slots built
    refine ⟨front_pushBack inv.holds room built pinned.front, ?_, ?_⟩
    · have other : p ≠ s.buffer.pushCursor_ := by
        intro same
        have live := pinned.live
        rw [same, free] at live
        cases live
      change b.slots p = some v
      rw [slots, Function.update_of_ne other]
      exact pinned.live
    · intro q answer
      rcases answer_cases answer with ⟨_, rfl⟩ | before
      · cases op <;> cases kind
      · exact pinned.looked q before
  | take u op w res b pending kind =>
    cases op with
    | tryPop | pop => simp [spares, pending] at spared
    | emplace w | tryEmplace w | front | close | closed => cases kind
  | front u pending =>
    refine { pinned with looked := ?_ }
    intro q answer
    rcases answer_cases answer with ⟨_, eq⟩ | before
    · rw [← pinned.front]
      exact (Result.front.inj eq).symm
    · exact pinned.looked q before
  | refuse u w | miss u | close u | closed u | threw u =>
    refine { pinned with looked := ?_ }
    intro q answer
    rcases answer_cases answer with ⟨_, eq⟩ | before
    · cases eq
    · exact pinned.looked q before
  | block | notify | notifyNobody | spurious => exact { pinned with }

theorem Pinned.destroys (pinned : Pinned c p v t) (inv : Inv n t) {u : T}
    (pending : (t.thread u).pending = some .pop) :
    slotEvents t (.lock u false) = [.destroy p] ∧
      ∃ t', step env t (.lock u false) = some t' ∧
        t'.buffer.slots = Function.update t.buffer.slots p none := by
  obtain ⟨cursor, some_left⟩ := pinned.at_cursor
  obtain ⟨b, destroyed, _⟩ := inv.holds.popFront_eq (Nat.pos_of_ne_zero some_left)
  obtain ⟨_, _, slots⟩ := MutexBuffer.popFront_slots destroyed
  have live := pinned.live
  rw [← cursor] at live ⊢
  refine ⟨by simp [slotEvents, pending], ?_⟩
  refine ⟨_, by simp [step, inv.sound, pending, criticalSection, some_left]; rfl, ?_⟩
  simp only [pops, live, destroyed]
  exact slots

theorem Pinned.stable (pinned : Pinned c p v t) (inv : Inv n t) :
    StablePointer env c p v t where
  value := pinned.live
  untouched := pinned.untouched inv
  front := ⟨pinned.front, pinned.looked⟩
  pop := fun _ pending => pinned.destroys inv pending

/-- Whatever the producers do and however often the consumer looks again, the pointer keeps
designating the same element until a section takes it out. -/
theorem mutex_pointer {b : MutexBuffer α} (holds : b.Holds n [] 0) {ls : List (Label T α)}
    (run : Run (step env) (fun s l => nonemptyPop s l = true ∧ singleConsumer c l = true)
      (start T b) ls s) (answer : s.result c = some (.front (some p))) :
    ∃ v, s.buffer.slots p = some v ∧ ∀ ks t,
      Run (step env) (fun s l => (nonemptyPop s l = true ∧ singleConsumer c l = true) ∧
        spares s l = true) s ks t → StablePointer env c p v t := by
  have before : Inv n s ∧ OneConsumer c s.thread ∧ Looked c s := by
    apply run.invariant (fun s => Inv n s ∧ OneConsumer c s.thread ∧ Looked c s) _
      ⟨inv_start holds, (by intro t op h; cases h), (by intro p h; cases h)⟩
    rintro s l t ⟨inv, one, looked⟩ ⟨contract, single⟩ h
    have move := step_move inv contract h
    exact ⟨move.inv inv, move.oneConsumer single one, move.looked inv one looked⟩
  obtain ⟨inv, _, looked⟩ := before
  obtain ⟨v, pinned⟩ := looked.pinned inv answer
  refine ⟨v, pinned.live, ?_⟩
  intro ks t rest
  have after : Inv n t ∧ Pinned c p v t := by
    apply rest.invariant (fun t => Inv n t ∧ Pinned c p v t) _ ⟨inv, pinned⟩
    rintro s l t ⟨inv, pinned⟩ ⟨⟨contract, _⟩, spared⟩ h
    have move := step_move inv contract h
    exact ⟨move.inv inv, move.pinned inv spared pinned⟩
  exact after.2.stable after.1

end Steps

end RingBuffers.Mutex
