import RingBuffers.Mutex.Pointer
import RingBuffers.Mutex.Termination

/-! The programs of a transfer to a single consumer that looks with `front`, uses the pointer
outside the lock and then calls `pop`, as the first stress test and the benchmark run it. That
loop keeps the contract of `pop` by itself. -/
namespace RingBuffers.Mutex
open Departure Transition

variable {T α : Type}

/-- The loop over `front` and `pop`, by the answer it had last. -/
def frontLoop : Option (Result α) → Option (Op α)
  | some (.front (some _)) => some .pop
  | some (.front none) => some .closed
  | some (.closed true) => none
  | _ => some .front

section Scripts

variable [DecidableEq T]

/-- A producer pushes its items in order. When everybody has, it may close the buffer itself
as in the benchmark, or another thread does as in the stress test. -/
def pusherScript (roles : T → Role α) (s : State T α) (t : T) : Op α → Prop
  | .emplace v => (roles t).items[(itemsOf t s.pushed).length]? = some v
  | .close => Finished roles s
  | _ => False

def transferScript (roles : T → Role α) (s : State T α) (t : T) (op : Op α) : Role α → Prop
  | .consumer => frontLoop (s.result t) = some op
  | .producer _ | .closer => pusherScript roles s t op

def Transfers (roles : T → Role α) (s : State T α) : Label T α → Prop
  | .call t op => transferScript roles s t op (roles t)
  | .lock _ throws => throws = false
  | _ => True

inductive Performs (roles : T → Role α) (s : State T α) (t : T) : Op α → Prop where
  | push (v : α) : roles t ≠ .consumer →
      (roles t).items[(itemsOf t s.pushed).length]? = some v → Performs roles s t (.emplace v)
  | close : roles t ≠ .consumer → Finished roles s → Performs roles s t .close
  | front : roles t = .consumer → Performs roles s t .front
  | pop : roles t = .consumer → Performs roles s t .pop
  | closed : roles t = .consumer → Performs roles s t .closed

/-- The threads keep to their programs, and the consumer calls `pop` on an element only. -/
structure Scripted (roles : T → Role α) (c : T) (s : State T α) : Prop where
  performs : ∀ t op, (s.thread t).call = some op → Performs roles s t op
  prefixes : ∀ t, itemsOf t s.pushed <+: (roles t).items
  finished : s.buffer.closed_ = true → Finished roles s
  took : s.thread c = .notifying → s.result c = some .done
  looked : Looked c s
  holding : s.thread c = .entering .pop → 0 < s.buffer.count_

instance decidablePusherScript [Fintype T] [DecidableEq α] (roles : T → Role α)
    (s : State T α) (t : T) : ∀ op, Decidable (pusherScript roles s t op)
  | .emplace v =>
    inferInstanceAs (Decidable ((roles t).items[(itemsOf t s.pushed).length]? = some v))
  | .close => inferInstanceAs (Decidable (Finished roles s))
  | .tryEmplace _ | .front | .tryPop | .pop | .closed => isFalse id

instance decidableTransferScript [Fintype T] [DecidableEq α] (roles : T → Role α)
    (s : State T α) (t : T) (op : Op α) : ∀ role, Decidable (transferScript roles s t op role)
  | .consumer => inferInstanceAs (Decidable (frontLoop (s.result t) = some op))
  | .producer _ | .closer => inferInstanceAs (Decidable (pusherScript roles s t op))

instance decidableTransfers [Fintype T] [DecidableEq α] (roles : T → Role α) (s : State T α) :
    ∀ l, Decidable (Transfers roles s l)
  | .call t op => inferInstanceAs (Decidable (transferScript roles s t op (roles t)))
  | .lock _ throws => inferInstanceAs (Decidable (throws = false))
  | .notify _ _ | .spurious _ => isTrue trivial

end Scripts

section Fronts

variable {n : Nat} {s : State T α}

theorem Inv.front_stored {p : Nat} (inv : Inv n s) (front : s.buffer.front = some p) :
    ∃ t v, s.pushed[s.popped.length]? = some (t, v) ∧ s.buffer.slots p = some v := by
  rw [front_eq inv.holds] at front
  split at front
  · rename_i some_left
    cases front
    rw [List.length_map] at some_left
    have present : s.pushed[s.popped.length]? = some s.pushed[s.popped.length] :=
      List.getElem?_eq_getElem some_left
    refine ⟨s.pushed[s.popped.length].1, s.pushed[s.popped.length].2, present, ?_⟩
    apply inv.holds.laid.at (Nat.le_refl _)
    rw [List.getElem?_map, present]
    rfl
  · cases front

theorem Inv.counted (inv : Inv n s) :
    0 < s.buffer.count_ ↔ s.popped.length < s.pushed.length := by
  rw [inv.holds.count, List.length_map]
  omega

end Fronts

section Programs

variable [DecidableEq T] {roles : T → Role α} {s s' : State T α} {t c : T} {op : Op α}

theorem Transfers.performs (follows : Transfers roles s (.call t op)) :
    Performs roles s t op := by
  have pushes : roles t ≠ .consumer → pusherScript roles s t op → Performs roles s t op := by
    intro other script
    cases op with
    | emplace v => exact .push v other script
    | close => exact .close other script
    | tryEmplace v | front | tryPop | pop | closed => exact script.elim
  cases role : roles t with
  | consumer =>
    simp only [Transfers, role, transferScript] at follows
    unfold frontLoop at follows
    split at follows <;> cases follows
    · exact .pop role
    · exact .closed role
    · exact .front role
  | producer items | closer =>
    simp only [Transfers, role, transferScript] at follows
    exact pushes (by simp [role]) follows

theorem Performs.keep (performs : Performs roles s t op) (pushed : s'.pushed = s.pushed) :
    Performs roles s' t op := by
  cases performs with
  | push v other next => exact .push v other (by rw [pushed]; exact next)
  | close other finished => exact .close other (by rw [Finished, pushed]; exact finished)
  | front role => exact .front role
  | pop role => exact .pop role
  | closed role => exact .closed role

theorem Performs.next {v : α} (performs : Performs roles s t (.emplace v)) :
    (roles t).items[(itemsOf t s.pushed).length]? = some v := by
  cases performs with
  | push v other next => exact next

theorem Performs.not_consumer {v : α} (performs : Performs roles s t (.emplace v)) :
    roles t ≠ .consumer := by
  cases performs with
  | push v other next => exact other

theorem Performs.not_finished {v : α} (performs : Performs roles s t (.emplace v)) :
    ¬ Finished roles s := by
  intro finished
  have next := performs.next
  rw [finished t, List.getElem?_eq_none (Nat.le_refl _)] at next
  cases next

theorem called_update {P : T → Op α → Prop} {thread : T → PC α} (pc : PC α)
    (before : ∀ u op, (thread u).call = some op → P u op)
    (mine : ∀ op, pc.call = some op → P t op) :
    ∀ u op, (Function.update thread t pc u).call = some op → P u op := by
  intro u op called
  by_cases same : u = t
  · subst same
    rw [Function.update_self] at called
    exact mine op called
  · rw [Function.update_of_ne same] at called
    exact before u op called

theorem Performs.consumes (performs : Performs roles s t op) (consumes : op.consumes = true) :
    roles t = .consumer := by
  cases performs with
  | push v | close => cases consumes
  | front role | pop role | closed role => exact role

theorem Scripted.oneConsumer (scripted : Scripted roles c s)
    (single : ∀ t, roles t = .consumer ↔ t = c) : OneConsumer c s.thread := by
  intro t op pending consumes
  have performs := scripted.performs t op (PC.call_of_pending pending)
  exact (single t).mp (performs.consumes consumes)

theorem Scripted.sleeper (scripted : Scripted roles c s)
    (single : ∀ t, roles t = .consumer ↔ t = c) {v : α}
    (called : (s.thread t).call = some (.emplace v)) : t ≠ c := by
  rintro rfl
  exact (scripted.performs t _ called).not_consumer ((single t).mpr rfl)

theorem Scripted.pushing (scripted : Scripted roles c s) {v : α} {res : Result α}
    (pending : (s.thread t).pending = some op) (kind : op.pushes = some (v, res)) :
    Performs roles s t (.emplace v) := by
  have performs := scripted.performs t op (PC.call_of_pending pending)
  cases performs with
  | push w other next =>
    cases kind
    exact .push v other next
  | _ => cases kind

end Programs

section Steps

variable [DecidableEq T] [Fintype T] {n : Nat} {roles : T → Role α} {s s' : State T α} {c : T}

theorem Move.performs {l : Label T α} (move : Move s l s') (scripted : Scripted roles c s)
    (follows : Transfers roles s l) (t : T) (op : Op α) (called : (s'.thread t).call = some op) :
    Performs roles s' t op := by
  have turned : ∀ {t : T} {pc : PC α}, s'.thread = Function.update s.thread t pc →
      s'.pushed = s.pushed → (∀ op, pc.call = some op → Performs roles s t op) →
      ∀ u op, (s'.thread u).call = some op → Performs roles s' u op := by
    intro t pc thread pushed mine u op called
    rw [thread] at called
    exact (called_update pc scripted.performs mine u op called).keep pushed
  have woken : ∀ {t : T} {v : α}, s.thread t = .waiting v → ∀ op,
      (PC.woken v).call = some op → Performs roles s t op := by
    intro t v waiting op called
    exact scripted.performs t op (by rw [waiting]; exact called)
  cases move with
  | call u op' idle =>
    refine turned rfl rfl ?_ t op called
    intro o same
    cases same
    exact follows.performs
  | block u v pending full =>
    refine turned rfl rfl ?_ t op called
    intro o same
    cases same
    exact scripted.performs u _ (PC.call_of_pending pending)
  | push u op' v res b pending kind room built =>
    have mine : t ≠ u := by
      rintro rfl
      simp [State.answers, PC.call] at called
    simp only [State.answers, Function.update_of_ne mine] at called
    have pushes : Performs roles s u (.emplace v) := scripted.pushing pending kind
    cases scripted.performs t op called with
    | push w other next =>
      exact .push w other (by simpa [itemsOf_push, mine.symm] using next)
    | close other finished => exact absurd finished pushes.not_finished
    | front role => exact .front role
    | pop role => exact .pop role
    | closed role => exact .closed role
  | spurious u v waiting => exact turned rfl rfl (woken waiting) t op called
  | notify u w v notifying waiting =>
    have awake := called_update (.woken v) scripted.performs (woken waiting)
    exact (called_update (t := u) .idle awake (fun _ none => by cases none) t op called).keep rfl
  | refuse u | take u | miss u | front u | close u | closed u | threw u | notifyNobody u =>
    exact turned rfl rfl (fun _ none => by cases none) t op called

theorem Move.closesAfter {l : Label T α} (move : Move s l s') (scripted : Scripted roles c s)
    (shut : s'.buffer.closed_ = true) : Finished roles s' := by
  cases move with
  | push u op v res b pending kind room built =>
    have before := scripted.finished ((MutexBuffer.pushBack_closed built).symm.trans shut)
    exact absurd before (scripted.pushing pending kind).not_finished
  | take u op v res b pending kind some_left live destroyed =>
    exact scripted.finished ((MutexBuffer.popFront_closed destroyed).symm.trans shut)
  | close u pending =>
    cases scripted.performs u .close (PC.call_of_pending pending) with
    | close other finished => exact finished
  | _ => exact scripted.finished shut

theorem Move.took {l : Label T α} (move : Move s l s') (scripted : Scripted roles c s)
    (notifying : s'.thread c = .notifying) : s'.result c = some .done := by
  have other : ∀ {u : T} {pc : PC α} {thread : T → PC α}, pc ≠ .notifying →
      Function.update thread u pc c = .notifying → c ≠ u ∧ thread c = .notifying := by
    intro u pc thread quiet owes
    by_cases same : c = u
    · subst same
      rw [Function.update_self] at owes
      exact absurd owes quiet
    · rw [Function.update_of_ne same] at owes
      exact ⟨same, owes⟩
  have answered : ∀ {u : T} {pc : PC α} {res : Option (Result α)}, pc ≠ .notifying →
      Function.update s.thread u pc c = .notifying →
      Function.update s.result u res c = some .done := by
    intro u pc res quiet owes
    obtain ⟨ne, before⟩ := other quiet owes
    rw [Function.update_of_ne ne]
    exact scripted.took before
  cases move with
  | take u op v res b pending kind =>
    by_cases same : c = u
    · subst same
      cases scripted.performs c op (PC.call_of_pending pending) with
      | pop role =>
        cases kind
        exact Function.update_self _ _ _
      | _ => cases kind
    · simp only [State.answers, Function.update_of_ne same] at notifying ⊢
      exact scripted.took notifying
  | call u | push u | refuse u | miss u | front u | close u | closed u | threw u =>
    exact answered (by simp) notifying
  | block u | spurious u | notifyNobody u => exact scripted.took (other (by simp) notifying).2
  | notify u w =>
    obtain ⟨_, before⟩ := other (by simp) notifying
    exact scripted.took (other (by simp) before).2

theorem Move.holding {l : Label T α} (move : Move s l s') (inv : Inv n s)
    (scripted : Scripted roles c s) (follows : Transfers roles s l)
    (single : ∀ t, roles t = .consumer ↔ t = c) (entering : s'.thread c = .entering .pop) :
    0 < s'.buffer.count_ := by
  have other : ∀ {u : T} {pc : PC α}, pc ≠ .entering .pop →
      Function.update s.thread u pc c = .entering .pop → 0 < s.buffer.count_ := by
    intro u pc ne enters
    by_cases same : c = u
    · subst same
      rw [Function.update_self] at enters
      exact absurd enters ne
    · rw [Function.update_of_ne same] at enters
      exact scripted.holding enters
  cases move with
  | call u op idle =>
    by_cases same : c = u
    · subst same
      simp only [Function.update_self] at entering
      cases entering
      simp only [Transfers, (single c).mpr rfl, transferScript] at follows
      have pointer : ∃ p, s.result c = some (.front (some p)) := by
        unfold frontLoop at follows
        split at follows
        · exact ⟨_, ‹_›⟩
        all_goals cases follows
      obtain ⟨p, answer⟩ := pointer
      obtain ⟨t, v, present, _⟩ := inv.front_stored (scripted.looked p answer)
      exact inv.counted.mpr (List.getElem?_eq_some_iff.mp present).1
    · simp only [Function.update_of_ne same] at entering
      exact scripted.holding entering
  | push u op v res b pending kind room built =>
    obtain ⟨b', built', holds⟩ := inv.holds.pushBack_eq room v
    have same : b' = b := Except.ok.inj (built'.symm.trans built)
    subst same
    change 0 < b'.count_
    rw [holds.count, List.length_append, List.length_singleton]
    have := inv.holds.ordered
    omega
  | take u op v res b pending kind =>
    have same : u = c :=
      scripted.oneConsumer single u op pending (Op.takes_consumes kind)
    subst same
    simp [State.answers] at entering
  | notify u w v notifying waiting =>
    have awake : c ≠ w := (scripted.sleeper single (by rw [waiting]; rfl)).symm
    by_cases same : c = u
    · subst same
      simp [State.moves] at entering
    · simp only [State.moves, Function.update_of_ne same, Function.update_of_ne awake] at entering
      exact scripted.holding entering
  | block | refuse | miss | front | close | closed | threw | notifyNobody | spurious =>
    exact other (by simp) entering

theorem Move.scripted {l : Label T α} (move : Move s l s') (inv : Inv n s)
    (single : ∀ t, roles t = .consumer ↔ t = c) (follows : Transfers roles s l)
    (scripted : Scripted roles c s) : Scripted roles c s' where
  performs := move.performs scripted follows
  prefixes := move.prefixes (fun _ _ _ _ pending kind => (scripted.pushing pending kind).next)
    scripted.prefixes
  finished := move.closesAfter scripted
  took := move.took scripted
  looked := move.looked inv (scripted.oneConsumer single) scripted.looked
  holding := move.holding inv scripted follows single

omit [Fintype T] in
theorem Transfers.nonemptyPop {l : Label T α} (follows : Transfers roles s l)
    (scripted : Scripted roles c s) (single : ∀ t, roles t = .consumer ↔ t = c) :
    nonemptyPop s l = true := by
  cases l with
  | lock t throws =>
    simp only [RingBuffers.Mutex.nonemptyPop]
    split
    · rename_i pending
      have mine : t = c := scripted.oneConsumer single t .pop pending rfl
      subst mine
      have entering : s.thread t = .entering .pop := by
        rcases pending_cases pending with at_pc | ⟨v, impossible, _⟩
        · exact at_pc
        · cases impossible
      simpa [Nat.pos_iff_ne_zero] using scripted.holding entering
    · rfl
  | call | notify | spurious => rfl

end Steps

end RingBuffers.Mutex
