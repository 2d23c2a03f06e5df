import Mathlib.Data.Fintype.Sets
import RingBuffers.Library.Departure
import RingBuffers.Mutex.Linearizable

/-! The end of a transfer between many threads, as the stress test runs it. Producers push
their items, the buffer is closed after the last push, and each consumer repeats `try_pop`
and, when that answers nullopt, `closed`. Those are two critical sections, and what falls
between them decides the outcome. -/
namespace RingBuffers.Mutex
open Departure Transition

inductive Role (α : Type) where
  | producer (items : List α)
  | consumer
  | closer
  deriving DecidableEq, Repr

variable {T α : Type}

def Role.items : Role α → List α
  | .producer items => items
  | _ => []

/-- The loop of a consumer, by the answer it had last. -/
def consumerLoop : Option (Result α) → Option (Op α)
  | some (.popped none) => some .closed
  | some (.closed true) => none
  | _ => some .tryPop

def phase (s : State T α) (t : T) : Phase :=
  match s.thread t, s.result t with
  | .idle, some (.popped none) | .entering .closed, _ => .missed
  | .idle, some (.closed true) => .left
  | _, _ => .looking

def PC.call : PC α → Option (Op α)
  | .entering op => some op
  | .waiting v | .woken v => some (.emplace v)
  | _ => none

def closes (s : State T α) : Label T α → Bool
  | .lock t false => match (s.thread t).pending with
    | some .close => !s.buffer.closed_
    | _ => false
  | _ => false

def State.departure (roles : T → Role α) (s : State T α) :
    Store {t // roles t = .consumer} α where
  closed := s.buffer.closed_
  items := s.buffer.stored
  phase c := phase s c

/-- `close()` finds the buffer empty, or a consumer that has yet to find it so. -/
def ClosedInTime (roles : T → Role α) (s : State T α) (l : Label T α) : Prop :=
  closes s l = true → InTime (s.departure roles)

section Scripts

variable [DecidableEq T]

/-- Every producer has pushed all its items; a push has returned once its element is in. -/
def Finished (roles : T → Role α) (s : State T α) : Prop :=
  ∀ t, itemsOf t s.pushed = (roles t).items

/-- What each thread may call next, and nothing throws. -/
def Follows (roles : T → Role α) (s : State T α) : Label T α → Prop
  | .call t op => match roles t with
    | .producer items => items[(itemsOf t s.pushed).length]?.map .emplace = some op
    | .consumer => consumerLoop (s.result t) = some op
    | .closer => op = .close ∧ Finished roles s
  | .lock _ throws => throws = false
  | _ => True

inductive Plays (roles : T → Role α) (s : State T α) (t : T) : Op α → Prop where
  | push (items : List α) (v : α) : roles t = .producer items →
      items[(itemsOf t s.pushed).length]? = some v → Plays roles s t (.emplace v)
  | tryPop : roles t = .consumer → Plays roles s t .tryPop
  | closed : roles t = .consumer → Plays roles s t .closed
  | close : roles t = .closer → Finished roles s → Plays roles s t .close

/-- The threads keep to their roles: nobody pushes any more once somebody closes. -/
structure Staged (roles : T → Role α) (s : State T α) : Prop where
  plays : ∀ t op, (s.thread t).call = some op → Plays roles s t op
  took : ∀ t, s.thread t = .notifying → ∃ v, s.result t = some (.popped (some v))
  finished : s.buffer.closed_ = true → Finished roles s

instance [Fintype T] [DecidableEq α] (roles : T → Role α) (s : State T α) :
    Decidable (Finished roles s) :=
  inferInstanceAs (Decidable (∀ _, _))

instance decidableFollows [Fintype T] [DecidableEq α] (roles : T → Role α) (s : State T α) :
    ∀ l, Decidable (Follows roles s l)
  | .call t op => by
    dsimp only [Follows]
    split <;> infer_instance
  | .lock _ throws => inferInstanceAs (Decidable (throws = false))
  | .notify _ _ | .spurious _ => isTrue trivial

end Scripts

section Stages

variable [DecidableEq T] {roles : T → Role α} {s s' : State T α} {t : T} {op : Op α}

theorem PC.call_of_pending {pc : PC α} (pending : pc.pending = some op) : pc.call = some op := by
  cases pc with
  | entering o | woken v => exact pending
  | _ => cases pending

theorem Plays.not_finished {v : α} (plays : Plays roles s t (.emplace v)) :
    ¬ Finished roles s := by
  intro finished
  cases plays with
  | push items v role next =>
    rw [finished t, role, Role.items, List.getElem?_eq_none le_rfl] at next
    cases next

theorem Plays.not_consumer {v : α} (plays : Plays roles s t (.emplace v)) :
    roles t ≠ .consumer := by
  cases plays with
  | push items v role =>
    rw [role]
    exact nofun

theorem Plays.keep (plays : Plays roles s t op) (pushed : s'.pushed = s.pushed) :
    Plays roles s' t op := by
  cases plays with
  | push items v role next => exact .push items v role (by rw [pushed]; exact next)
  | tryPop role => exact .tryPop role
  | closed role => exact .closed role
  | close role finished => exact .close role (by rw [Finished, pushed]; exact finished)

theorem Follows.plays (follows : Follows roles s (.call t op)) : Plays roles s t op := by
  simp only [Follows] at follows
  split at follows
  · rename_i items role
    obtain ⟨v, next, same⟩ := Option.map_eq_some_iff.mp follows
    subst same
    exact .push items v role next
  · rename_i role
    unfold consumerLoop at follows
    split at follows
    · cases follows
      exact .closed role
    · cases follows
    · cases follows
      exact .tryPop role
  · rename_i role
    obtain ⟨rfl, finished⟩ := follows
    exact .close role finished

theorem Staged.turn (staged : Staged roles s) (pc : PC α)
    (thread : s'.thread = Function.update s.thread t pc)
    (result : ∀ u, u ≠ t → s'.result u = s.result u) (pushed : s'.pushed = s.pushed)
    (closed : s'.buffer.closed_ = s.buffer.closed_)
    (plays : ∀ op, pc.call = some op → Plays roles s t op)
    (took : pc = .notifying → ∃ v, s'.result t = some (.popped (some v))) :
    Staged roles s' := by
  refine ⟨fun u op called => ?_, fun u owes => ?_, fun shut => ?_⟩
  · refine Plays.keep ?_ pushed
    rw [thread] at called
    by_cases mine : u = t
    · subst mine
      rw [Function.update_self] at called
      exact plays op called
    · rw [Function.update_of_ne mine] at called
      exact staged.plays u op called
  · rw [thread] at owes
    by_cases mine : u = t
    · subst mine
      rw [Function.update_self] at owes
      exact took owes
    · rw [Function.update_of_ne mine] at owes
      rw [result u mine]
      exact staged.took u owes
  · rw [closed] at shut
    rw [Finished, pushed]
    exact staged.finished shut

theorem itemsOf_push (u : T) (v : α) (xs : List (T × α)) :
    itemsOf u (xs ++ [(t, v)]) = if t = u then itemsOf u xs ++ [v] else itemsOf u xs := by
  by_cases mine : t = u <;> simp [itemsOf, mine]

theorem Staged.push (staged : Staged roles s) {v : α} {b : MutexBuffer α} {res : Result α}
    (plays : Plays roles s t (.emplace v)) (closed : b.closed_ = s.buffer.closed_) :
    Staged roles { s.answers t .idle res with buffer := b, pushed := s.pushed ++ [(t, v)] } := by
  refine ⟨fun u op called => ?_, fun u owes => ?_, fun shut => ?_⟩
  · have mine : u ≠ t := by
      rintro rfl
      simp [State.answers, PC.call] at called
    simp only [State.answers, Function.update_of_ne mine] at called
    cases staged.plays u op called with
    | push items w role next =>
      exact .push items w role (by simpa [itemsOf_push, mine.symm] using next)
    | tryPop role => exact .tryPop role
    | closed role => exact .closed role
    | close role finished => exact absurd finished plays.not_finished
  · have mine : u ≠ t := by
      rintro rfl
      simp [State.answers] at owes
    simp only [State.answers, Function.update_of_ne mine] at owes ⊢
    exact staged.took u owes
  · exact absurd (staged.finished (closed ▸ shut)) plays.not_finished

theorem Follows.nonemptyPop {l : Label T α} (follows : Follows roles s l)
    (staged : Staged roles s) : nonemptyPop s l = true := by
  cases l with
  | lock t throws =>
    simp only [RingBuffers.Mutex.nonemptyPop]
    split
    · rename_i pending
      cases staged.plays t _ (PC.call_of_pending pending)
    · rfl
  | _ => rfl

variable [Fintype T]

theorem Move.staged {l : Label T α} (move : Move s l s') (staged : Staged roles s)
    (follows : Follows roles s l) : Staged roles s' := by
  have pending_plays : ∀ {t op}, (s.thread t).pending = some op → Plays roles s t op :=
    fun pending => staged.plays _ _ (PC.call_of_pending pending)
  have others : ∀ (t : T) (res : Option (Result α)) u, u ≠ t →
      Function.update s.result t res u = s.result u :=
    fun t res u ne => Function.update_of_ne ne _ _
  cases move with
  | call t op idle =>
    refine staged.turn (.entering op) rfl (others t none) rfl rfl ?_ nofun
    intro op' same
    cases same
    exact follows.plays
  | block t v pending full =>
    refine staged.turn (.waiting v) rfl (fun _ _ => rfl) rfl rfl ?_ nofun
    intro op same
    cases same
    exact pending_plays pending
  | push t op v res b pending kind room built =>
    have plays := pending_plays pending
    cases plays with
    | push items w role next =>
      cases kind
      exact staged.push (pending_plays pending) (MutexBuffer.pushBack_closed built)
    | _ => cases kind
  | take t op v res b pending kind some_left live destroyed =>
    have plays := pending_plays pending
    cases plays with
    | tryPop role =>
      cases kind
      exact staged.turn .notifying rfl (others t _) rfl
        (MutexBuffer.popFront_closed destroyed) nofun
        (fun _ => ⟨v, Function.update_self t _ _⟩)
    | _ => cases kind
  | refuse t v pending | front t pending =>
    cases pending_plays pending
  | miss t pending | closed t pending =>
    exact staged.turn .idle rfl (others t _) rfl rfl nofun nofun
  | close t pending =>
    have turned : Staged roles (s.answers t .idle .done) :=
      staged.turn .idle rfl (others t _) rfl rfl nofun nofun
    cases pending_plays pending with
    | close role finished =>
      exact ⟨fun u op called => (turned.plays u op called).keep rfl, turned.took, fun _ => finished⟩
  | threw t op pending reached => cases follows
  | notify t u v notifying waiting =>
    have woken : Staged roles (s.moves u (.woken v)) := by
      refine staged.turn (.woken v) rfl (fun _ _ => rfl) rfl rfl ?_ nofun
      intro op same
      cases same
      exact staged.plays u _ (by rw [waiting]; rfl)
    exact woken.turn .idle rfl (fun _ _ => rfl) rfl rfl nofun nofun
  | notifyNobody t notifying =>
    exact staged.turn .idle rfl (fun _ _ => rfl) rfl rfl nofun nofun
  | spurious t v waiting =>
    refine staged.turn (.woken v) rfl (fun _ _ => rfl) rfl rfl ?_ nofun
    intro op same
    cases same
    exact staged.plays t _ (by rw [waiting]; rfl)

end Stages

section Departures

variable {roles : T → Role α} {s s' : State T α} {t : T} {op : Op α}

theorem phase_frame (thread : s'.thread t = s.thread t) (result : s'.result t = s.result t) :
    phase s' t = phase s t := by
  rw [phase, phase, thread, result]

theorem phase_call (idle : s.thread t = .idle) (loop : consumerLoop (s.result t) = some op)
    (entering : s'.thread t = .entering op) : phase s' t = phase s t := by
  unfold consumerLoop at loop
  split at loop
  · rename_i result
    cases loop
    simp only [phase, entering, idle, result]
  · cases loop
  · rename_i not_missed not_left
    cases loop
    simp only [phase, entering, idle]
    split <;> simp_all

theorem departure_items {items : List α} (closed : s'.buffer.closed_ = s.buffer.closed_)
    (stored : s'.buffer.stored = items)
    (phases : ∀ u, roles u = .consumer → phase s' u = phase s u) :
    s'.departure roles = { s.departure roles with items := items } := by
  ext1
  · exact closed
  · exact stored
  · funext c
    exact phases c c.2

theorem phase_looking {v : α} (thread : s.thread t = .idle ∨ s.thread t = .notifying)
    (result : s.result t = some (.popped (some v))) : phase s t = .looking := by
  rcases thread with at_pc | at_pc <;> simp only [phase, at_pc, result]

variable [DecidableEq T]

theorem departure_stay (closed : s'.buffer.closed_ = s.buffer.closed_)
    (stored : s'.buffer.stored = s.buffer.stored)
    (phases : ∀ u, roles u = .consumer → phase s' u = phase s u) :
    Step (s.departure roles) (s'.departure roles) := by
  exact .of_eq (departure_items closed stored phases) .stay

theorem phase_others (pc : PC α) {u : T} (other : u ≠ t)
    (thread : s'.thread = Function.update s.thread t pc)
    (result : ∀ u, u ≠ t → s'.result u = s.result u) : phase s' u = phase s u :=
  phase_frame (by rw [thread, Function.update_of_ne other]) (result u other)

theorem phase_bystanders (pc : PC α) (bystander : roles t ≠ .consumer)
    (thread : s'.thread = Function.update s.thread t pc)
    (result : ∀ u, u ≠ t → s'.result u = s.result u) (u : T) (role : roles u = .consumer) :
    phase s' u = phase s u := by
  refine phase_others pc ?_ thread result
  rintro rfl
  exact bystander role

theorem departure_answers {res : Result α} {p : Phase} (role : roles t = .consumer)
    (mine : phase (s.answers t .idle res) t = p) :
    (s.answers t .idle res).departure roles = (s.departure roles).turns ⟨t, role⟩ p := by
  ext1
  · rfl
  · rfl
  · funext c
    by_cases same : c = ⟨t, role⟩
    · subst same
      simpa [State.departure, Store.turns] using mine
    · have other : c.val ≠ t := fun eq => same (Subtype.ext eq)
      have kept : phase (s.answers t .idle res) c.val = phase s c.val :=
        phase_others .idle other rfl (fun u ne => Function.update_of_ne ne _ _)
      simpa [State.departure, Store.turns, same] using kept

theorem phase_notified {v : α} (notifying : s.thread t = .notifying)
    (result : s.result t = some (.popped (some v))) (u : T) :
    phase (s.moves t .idle) u = phase s u := by
  by_cases mine : u = t
  · subst mine
    rw [phase_looking (.inr notifying) result]
    exact phase_looking (.inl (Function.update_self _ _ _)) result
  · exact phase_others .idle mine rfl (fun _ _ => rfl)

theorem Staged.entering (staged : Staged roles s) (pending : (s.thread t).pending = some op)
    (role : roles t = .consumer) : s.thread t = .entering op := by
  rcases pending_cases pending with at_pc | ⟨v, _, at_pc⟩
  · exact at_pc
  · exact absurd role (staged.plays t (.emplace v) (by rw [at_pc]; rfl)).not_consumer

theorem Staged.push_departs (staged : Staged roles s) {v : α} {b : MutexBuffer α}
    (plays : Plays roles s t (.emplace v)) (built : s.buffer.pushBack v = .ok b)
    (grown : b.stored = s.buffer.stored ++ [v]) :
    Step (s.departure roles) (State.departure roles
      { s.answers t .idle .done with buffer := b, pushed := s.pushed ++ [(t, v)] }) := by
  have shut : s.buffer.closed_ = false :=
    Bool.eq_false_iff.mpr fun closed => plays.not_finished (staged.finished closed)
  refine .of_eq (departure_items (MutexBuffer.pushBack_closed built) grown ?_) (.put v shut)
  exact phase_bystanders .idle plays.not_consumer rfl fun u ne => Function.update_of_ne ne _ _

theorem Staged.take_departs (staged : Staged roles s) {v : α} {b : MutexBuffer α}
    (pending : (s.thread t).pending = some .tryPop) (role : roles t = .consumer)
    (destroyed : s.buffer.popFront = .ok b) (shrunk : s.buffer.stored = v :: b.stored) :
    Step (s.departure roles) (State.departure roles { s.answers t .notifying (.popped (some v))
      with buffer := b, popped := s.popped ++ [(t, v)] }) := by
  have looking : phase s t = .looking := by
    simp only [phase, staged.entering pending role]
  have kept : b.closed_ = s.buffer.closed_ := MutexBuffer.popFront_closed destroyed
  refine .of_eq (departure_items kept rfl fun u _ => ?_) (.take v _ ⟨t, role⟩ looking shrunk)
  by_cases mine : u = t
  · rw [mine, looking]
    exact phase_looking (.inr (Function.update_self t _ _)) (Function.update_self t _ _)
  · exact phase_others .notifying mine rfl (fun u ne => Function.update_of_ne ne _ _)

theorem Staged.miss_departs (staged : Staged roles s)
    (pending : (s.thread t).pending = some .tryPop) (role : roles t = .consumer)
    (empty : s.buffer.stored = []) :
    Step (s.departure roles) ((s.answers t .idle (.popped none)).departure roles) := by
  have looking : phase s t = .looking := by
    simp only [phase, staged.entering pending role]
  refine .of_eq (departure_answers role ?_)
    (Step.miss (s := s.departure roles) ⟨t, role⟩ looking empty)
  simp only [phase, State.answers, Function.update_self]

theorem Staged.closed_departs (staged : Staged roles s)
    (pending : (s.thread t).pending = some .closed) (role : roles t = .consumer) :
    Step (s.departure roles) ((s.answers t .idle (.closed s.buffer.closed_)).departure roles) := by
  have missed : phase s t = .missed := by
    simp only [phase, staged.entering pending role]
  cases shut : s.buffer.closed_ with
  | false =>
    refine .of_eq (departure_answers role ?_)
      (Step.retry (s := s.departure roles) ⟨t, role⟩ missed shut)
    simp only [phase, State.answers, Function.update_self]
  | true =>
    refine .of_eq (departure_answers role ?_)
      (Step.leave (s := s.departure roles) ⟨t, role⟩ missed shut)
    simp only [phase, State.answers, Function.update_self]

theorem close_departs (role : roles t = .closer) :
    Step (s.departure roles) (State.departure roles
      { s.answers t .idle .done with buffer := { s.buffer with closed_ := true } }) := by
  have bystander : roles t ≠ .consumer := by
    intro same
    rw [role] at same
    cases same
  have eq : State.departure roles
      { s.answers t .idle .done with buffer := { s.buffer with closed_ := true } } =
        { s.departure roles with closed := true } := by
    ext1
    · rfl
    · rfl
    · funext c
      exact phase_bystanders .idle bystander rfl (fun u ne => Function.update_of_ne ne _ _) c c.2
  cases shut : s.buffer.closed_ with
  | false => exact .of_eq eq (.close shut)
  | true =>
    -- a second `close()` changes nothing
    have already : { s.departure roles with closed := true } = s.departure roles :=
      Store.ext shut.symm rfl rfl
    exact .of_eq (eq.trans already) .stay

theorem Staged.notify_departs (staged : Staged roles s) {u : T} {v : α}
    (notifying : s.thread t = .notifying) (waiting : s.thread u = .waiting v) :
    Step (s.departure roles) (((s.moves u (.woken v)).moves t .idle).departure roles) := by
  obtain ⟨w, result⟩ := staged.took t notifying
  have plays : Plays roles s u (.emplace v) := staged.plays u _ (by rw [waiting]; rfl)
  have awake : ∀ c, roles c = .consumer → phase (s.moves u (.woken v)) c = phase s c :=
    phase_bystanders (.woken v) plays.not_consumer rfl (fun _ _ => rfl)
  refine departure_stay rfl rfl fun c role => ?_
  rw [phase_notified (still_notifying notifying waiting) result c]
  exact awake c role

variable [Fintype T] {n : Nat}

theorem Move.departs {l : Label T α} (move : Move s l s') (inv : Inv n s)
    (staged : Staged roles s) (follows : Follows roles s l) :
    Step (s.departure roles) (s'.departure roles) := by
  have inv' := move.inv inv
  have pending_plays : ∀ {t op}, (s.thread t).pending = some op → Plays roles s t op :=
    fun pending => staged.plays _ _ (PC.call_of_pending pending)
  cases move with
  | call t op idle =>
    refine departure_stay rfl rfl fun u role => ?_
    by_cases mine : u = t
    · subst mine
      simp only [Follows, role] at follows
      exact phase_call idle follows (Function.update_self _ _ _)
    · exact phase_others (.entering op) mine rfl (fun u ne => Function.update_of_ne ne _ _)
  | block t v pending full =>
    exact departure_stay rfl rfl (phase_bystanders (.waiting v)
      (pending_plays pending).not_consumer rfl (fun _ _ => rfl))
  | push t op v res b pending kind room built =>
    have grown := inv.push_stored inv' rfl rfl
    cases pending_plays pending with
    | push items w role next =>
      cases kind
      exact staged.push_departs (pending_plays pending) built grown
    | _ => cases kind
  | take t op v res b pending kind some_left live destroyed =>
    have shrunk := inv.pop_stored inv' some_left live rfl rfl
    cases pending_plays pending with
    | tryPop role =>
      cases kind
      exact staged.take_departs pending role destroyed shrunk
    | _ => cases kind
  | refuse t v pending | front t pending =>
    cases pending_plays pending
  | miss t pending empty =>
    cases pending_plays pending with
    | tryPop role => exact staged.miss_departs pending role (inv.stored_nil_iff.mpr empty)
  | closed t pending =>
    cases pending_plays pending with
    | closed role => exact staged.closed_departs pending role
  | close t pending =>
    cases pending_plays pending with
    | close role => exact close_departs role
  | threw t op pending reached => cases follows
  | notify t u v notifying waiting => exact staged.notify_departs notifying waiting
  | notifyNobody t notifying =>
    obtain ⟨w, result⟩ := staged.took t notifying
    exact departure_stay rfl rfl fun c _ => phase_notified notifying result c
  | spurious t v waiting =>
    exact departure_stay rfl rfl (phase_bystanders (.woken v)
      (staged.plays t (.emplace v) (by rw [waiting]; rfl)).not_consumer rfl (fun _ _ => rfl))

theorem Move.closes_iff {l : Label T α} (move : Move s l s') :
    closes s l = true ↔ s.buffer.closed_ ≠ s'.buffer.closed_ := by
  cases move with
  | push t op v res b pending kind room built =>
    have kept : b.closed_ = s.buffer.closed_ := MutexBuffer.pushBack_closed built
    cases op <;> cases kind <;> simp [closes, pending, kept]
  | take t op v res b pending kind some_left live destroyed =>
    have kept : b.closed_ = s.buffer.closed_ := MutexBuffer.popFront_closed destroyed
    cases op <;> cases kind <;> simp [closes, pending, kept]
  | block t v pending | refuse t v pending | miss t pending | front t pending
  | close t pending | closed t pending => simp [closes, pending, State.moves, State.answers]
  | _ => simp [closes, State.moves, State.answers]

end Departures

section Outcome

variable [DecidableEq T] {env : Environment} {n : Nat} {s s' : State T α}
  {roles : T → Role α}

structure Underway (n : Nat) (roles : T → Role α) (s : State T α) : Prop where
  inv : Inv n s
  staged : Staged roles s
  sound : Sound (s.departure roles)

theorem underway_start {b : MutexBuffer α} (holds : b.Holds n [] 0) (open_ : b.closed_ = false) :
    Underway n roles (start T b) where
  inv := inv_start holds
  staged := {
    plays := fun _ _ called => nomatch called
    took := fun _ owes => nomatch owes
    finished := fun closed => by
      rw [start, open_] at closed
      cases closed }
  sound := fun _ left => nomatch left

variable [Fintype T]

theorem Underway.move {l : Label T α} (underway : Underway n roles s)
    (follows : Follows roles s l) (h : step env s l = some s') : Move s l s' :=
  step_move underway.inv (follows.nonemptyPop underway.staged) h

theorem Underway.step {l : Label T α} (underway : Underway n roles s)
    (follows : Follows roles s l) (h : step env s l = some s') : Underway n roles s' :=
  have move := underway.move follows h
  ⟨move.inv underway.inv, move.staged underway.staged follows,
    (move.departs underway.inv underway.staged follows).sound underway.sound⟩

end Outcome

/-- Any number of producers and consumers, and the buffer closed after the last push: once the
consumers have left, they have taken exactly what was pushed if and only if `close()` came
while the buffer was empty or some consumer had yet to find it empty. -/
theorem mutex_shutdown [DecidableEq T] [Fintype T] (env : Environment) (n : Nat)
    (small : n < sizeModulus) (b : MutexBuffer α) (made : MutexBuffer.construct α env n = .ok b)
    (roles : T → Role α) (ls : List (Label T α)) (s : State T α)
    (run : Run (step env) (Follows roles) (start T b) ls s)
    (ended : (∃ t, roles t = .consumer) ∨ s.buffer.closed_ = true)
    (left : ∀ t, roles t = .consumer → phase s t = .left) :
    (∀ t, itemsOf t s.pushed = (roles t).items) ∧
      ((s.popped.map Prod.snd).Perm (s.pushed.map Prod.snd) ↔
        Along (step env) (ClosedInTime roles) (start T b) ls) := by
  obtain ⟨pos, rfl⟩ := MutexBuffer.construct_ok made
  have initial : Underway n roles (start T (MutexBuffer.empty α n)) :=
    underway_start (MutexBuffer.holds_empty pos small) rfl
  have preserved : ∀ (s : State T α) l s', Underway n roles s → Follows roles s l →
      step env s l = some s' → Underway n roles s' := fun _ _ _ underway => underway.step
  have underway := run.invariant _ preserved initial
  have closed : s.buffer.closed_ = true := by
    rcases ended with ⟨t, role⟩ | closed
    · exact underway.sound ⟨t, role⟩ (left t role)
    · exact closed
  have settled : Settled (s.departure roles) :=
    ⟨closed, fun c looking => by
      have gone : phase s c = .left := left c c.2
      have still : phase s c = .looking := looking
      rw [gone] at still
      cases still⟩
  refine ⟨underway.staged.finished closed, ?_⟩
  rw [underway.inv.perm_iff]
  exact emptied_iff (Underway n roles) (State.departure roles) (fun s l => closes s l = true)
    preserved (fun s l s' underway follows h =>
      have move := underway.move follows h
      ⟨move.departs underway.inv underway.staged follows, move.closes_iff⟩)
    initial run (fun settled => nomatch settled.closed) settled

/-- A producer of one item, two consumers and the thread that closes, on one slot. -/
def quartet : Fin 4 → Role Nat
  | 0 => .producer [7]
  | 1 | 2 => .consumer
  | 3 => .closer

/-- One consumer finds nothing and then the buffer closed, the other looks only after that. -/
def closedBeforePop : List (Label (Fin 4) Nat) :=
  [.call 1 .tryPop, .lock 1 false, .call 0 (.emplace 7), .lock 0 false, .call 3 .close,
    .lock 3 false, .call 1 .closed, .lock 1 false, .call 2 .tryPop, .lock 2 false,
    .notify 2 none, .call 2 .tryPop, .lock 2 false, .call 2 .closed, .lock 2 false]

theorem mutex_shutdown_in_time : ∃ s : State (Fin 4) Nat,
    (∀ t, itemsOf t s.pushed = (quartet t).items) ∧ Along (step .desktop) (ClosedInTime quartet)
      (start (Fin 4) (MutexBuffer.empty Nat 1)) closedBeforePop :=
  have ⟨pushed, received⟩ := mutex_shutdown .desktop 1 (by decide) _ rfl quartet closedBeforePop
    _ (Run.of_exec (by decide) (by decide)) (by decide) (by decide)
  ⟨_, pushed, received.mp (by decide)⟩

/-- Both consumers find nothing; then the only item is pushed and the buffer closed; then
both find it closed. -/
def closedAfterPop : List (Label (Fin 4) Nat) :=
  [.call 1 .tryPop, .lock 1 false, .call 2 .tryPop, .lock 2 false, .call 0 (.emplace 7),
    .lock 0 false, .call 3 .close, .lock 3 false, .call 1 .closed, .lock 1 false,
    .call 2 .closed, .lock 2 false]

theorem mutex_shutdown_can_lose : ¬ ∀ (ls : List (Label (Fin 4) Nat)) (s : State (Fin 4) Nat),
    Run (step .desktop) (Follows quartet) (start (Fin 4) (MutexBuffer.empty Nat 1)) ls s →
    (∀ t, quartet t = .consumer → phase s t = .left) →
    (s.popped.map Prod.snd).Perm (s.pushed.map Prod.snd) := by
  intro delivered
  have lost := delivered closedAfterPop _ (Run.of_exec (by decide) (by decide)) (by decide)
  revert lost
  decide

end RingBuffers.Mutex
