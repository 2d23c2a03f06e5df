import RingBuffers.Mutex.Scripts

/-! What the transfer to a consumer that loops over `front` and `pop` comes to: each step is one of
a store with one taker, and all items arrive exactly when the buffer is closed in time. -/
namespace RingBuffers.Mutex
open Departure Transition

variable {T α : Type}

def frontPhase (s : State T α) (c : T) : Phase :=
  match s.thread c, s.result c with
  | .idle, some (.front none) | .entering .closed, _ => .missed
  | .idle, some (.closed true) => .left
  | _, _ => .looking

def State.transfer (c : T) (s : State T α) : Store Unit α where
  closed := s.buffer.closed_
  items := s.buffer.stored
  phase _ := frontPhase s c

/-- `close()` finds the buffer empty, or the consumer has yet to find it so. -/
def ClosedWhileLooking (c : T) (s : State T α) (l : Label T α) : Prop :=
  closes s l = true → InTime (s.transfer c)

section Departures

variable {n : Nat} {roles : T → Role α} {s s' : State T α} {c : T}

theorem transfer_items {items : List α} (closed : s'.buffer.closed_ = s.buffer.closed_)
    (stored : s'.buffer.stored = items) (same : frontPhase s' c = frontPhase s c) :
    s'.transfer c = { s.transfer c with items := items } := by
  ext1
  · exact closed
  · exact stored
  · funext u
    exact same

theorem transfer_stay (closed : s'.buffer.closed_ = s.buffer.closed_)
    (stored : s'.buffer.stored = s.buffer.stored) (same : frontPhase s' c = frontPhase s c) :
    Step (s.transfer c) (s'.transfer c) :=
  .of_eq (transfer_items closed stored same) .stay

theorem frontPhase_call {op : Op α} (idle : s.thread c = .idle)
    (loop : frontLoop (s.result c) = some op) (entering : s'.thread c = .entering op) :
    frontPhase s' c = frontPhase s c := by
  unfold frontLoop at loop
  split at loop <;> cases loop
  · rename_i pointer
    simp only [frontPhase, entering, idle, pointer]
  · rename_i missed
    simp only [frontPhase, entering, idle, missed]
  · rename_i not_pointer not_missed not_left
    simp only [frontPhase, entering, idle]
    split <;> simp_all

variable [DecidableEq T]

theorem transfer_answers {res : Result α} {p : Phase}
    (mine : frontPhase (s.answers c .idle res) c = p) :
    (s.answers c .idle res).transfer c = (s.transfer c).turns () p := by
  ext1
  · rfl
  · rfl
  · funext u
    simpa [State.transfer, Store.turns] using mine

theorem frontPhase_others {u : T} (pc : PC α) (other : c ≠ u)
    (thread : s'.thread = Function.update s.thread u pc)
    (result : ∀ t, t ≠ u → s'.result t = s.result t) : frontPhase s' c = frontPhase s c := by
  rw [frontPhase, frontPhase, thread, Function.update_of_ne other, result c other]

theorem Scripted.entering (scripted : Scripted roles c s)
    (single : ∀ t, roles t = .consumer ↔ t = c) {op : Op α}
    (pending : (s.thread c).pending = some op) : s.thread c = .entering op := by
  rcases pending_cases pending with at_pc | ⟨v, _, at_pc⟩
  · exact at_pc
  · exact absurd rfl (scripted.sleeper single (by rw [at_pc]; rfl))

theorem Scripted.push_transfers (scripted : Scripted roles c s) {t : T} {v : α}
    {b : MutexBuffer α} {res : Result α} (performs : Performs roles s t (.emplace v))
    (bystander : c ≠ t) (built : s.buffer.pushBack v = .ok b)
    (grown : b.stored = s.buffer.stored ++ [v]) :
    Step (s.transfer c) (State.transfer c
      { s.answers t .idle res with buffer := b, pushed := s.pushed ++ [(t, v)] }) := by
  have shut : s.buffer.closed_ = false :=
    Bool.eq_false_iff.mpr fun closed => performs.not_finished (scripted.finished closed)
  refine .of_eq (transfer_items (MutexBuffer.pushBack_closed built) grown ?_) (.put v shut)
  exact frontPhase_others .idle bystander rfl fun _ ne => Function.update_of_ne ne _ _

theorem pop_transfers {v : α} {b : MutexBuffer α} (at_pc : s.thread c = .entering .pop)
    (destroyed : s.buffer.popFront = .ok b) (shrunk : s.buffer.stored = v :: b.stored) :
    Step (s.transfer c) (State.transfer c { s.answers c .notifying .done
      with buffer := b, popped := s.popped ++ [(c, v)] }) := by
  have looking : frontPhase s c = .looking := by
    simp only [frontPhase, at_pc]
  refine .of_eq (transfer_items (MutexBuffer.popFront_closed destroyed) rfl ?_)
    (.take v _ () looking shrunk)
  rw [looking]
  simp only [frontPhase, State.answers, Function.update_self]

theorem Inv.front_transfers (inv : Inv n s) (at_pc : s.thread c = .entering .front) :
    Step (s.transfer c) ((s.answers c .idle (.front s.buffer.front)).transfer c) := by
  have looking : frontPhase s c = .looking := by
    simp only [frontPhase, at_pc]
  cases front : s.buffer.front with
  | none =>
    have empty : s.buffer.stored = [] := by
      rw [inv.stored_nil_iff]
      simpa [MutexBuffer.front] using front
    refine .of_eq (transfer_answers ?_) (.miss () looking empty)
    simp only [frontPhase, State.answers, Function.update_self]
  | some p =>
    refine transfer_stay rfl rfl ?_
    rw [looking]
    simp only [frontPhase, State.answers, Function.update_self]

theorem closed_transfers (at_pc : s.thread c = .entering .closed) :
    Step (s.transfer c) ((s.answers c .idle (.closed s.buffer.closed_)).transfer c) := by
  have missed : frontPhase s c = .missed := by
    simp only [frontPhase, at_pc]
  cases shut : s.buffer.closed_ with
  | false =>
    refine .of_eq (transfer_answers ?_) (.retry () missed shut)
    simp only [frontPhase, State.answers, Function.update_self]
  | true =>
    refine .of_eq (transfer_answers ?_) (.leave () missed shut)
    simp only [frontPhase, State.answers, Function.update_self]

theorem close_transfers {t : T} (bystander : c ≠ t) :
    Step (s.transfer c) (State.transfer c
      { s.answers t .idle .done with buffer := { s.buffer with closed_ := true } }) := by
  have eq : State.transfer c
      { s.answers t .idle .done with buffer := { s.buffer with closed_ := true } } =
        { s.transfer c with closed := true } := by
    ext1
    · rfl
    · rfl
    · funext u
      exact frontPhase_others .idle bystander rfl fun _ ne => Function.update_of_ne ne _ _
  cases shut : s.buffer.closed_ with
  | false => exact .of_eq eq (.close shut)
  | true =>
    -- a second `close()` changes nothing
    have already : { s.transfer c with closed := true } = s.transfer c :=
      Store.ext shut.symm rfl rfl
    exact .of_eq (eq.trans already) .stay

theorem Scripted.notified (scripted : Scripted roles c s) {t : T} {r : State T α}
    (notifying : s.thread t = .notifying) (thread : r.thread c = s.thread c)
    (result : r.result = s.result) : frontPhase (r.moves t .idle) c = frontPhase s c := by
  by_cases same : c = t
  · subst same
    have told := scripted.took notifying
    simp only [frontPhase, State.moves, Function.update_self, result, notifying, told]
  · simp only [frontPhase, State.moves, Function.update_of_ne same, thread, result]

variable [Fintype T]

/-- A step of the transfer is one of a store with one taker, who sees it empty through
`front` and takes through `pop`. -/
theorem Move.transfers {l : Label T α} (move : Move s l s') (inv : Inv n s)
    (scripted : Scripted roles c s) (follows : Transfers roles s l)
    (single : ∀ t, roles t = .consumer ↔ t = c) : Step (s.transfer c) (s'.transfer c) := by
  have inv' := move.inv inv
  have performs : ∀ {t : T} {op : Op α}, (s.thread t).pending = some op →
      Performs roles s t op := fun pending => scripted.performs _ _ (PC.call_of_pending pending)
  have sleeper : ∀ {t : T} {v : α}, (s.thread t).call = some (.emplace v) → c ≠ t :=
    fun called => (scripted.sleeper single called).symm
  cases move with
  | call u op idle =>
    refine transfer_stay rfl rfl ?_
    by_cases same : c = u
    · subst same
      simp only [Transfers, (single c).mpr rfl, transferScript] at follows
      exact frontPhase_call idle follows (Function.update_self _ _ _)
    · exact frontPhase_others (.entering op) same rfl fun _ ne => Function.update_of_ne ne _ _
  | block u v pending full =>
    have awake := sleeper (PC.call_of_pending pending)
    exact transfer_stay rfl rfl (frontPhase_others (.waiting v) awake rfl fun _ _ => rfl)
  | push u op v res b pending kind room built =>
    have grown := inv.push_stored inv' rfl rfl
    have pushes : Performs roles s u (.emplace v) := scripted.pushing pending kind
    have bystander : c ≠ u := fun same => pushes.not_consumer ((single u).mpr same.symm)
    exact scripted.push_transfers pushes bystander built grown
  | take u op v res b pending kind some_left live destroyed =>
    have shrunk := inv.pop_stored inv' some_left live rfl rfl
    have pops := performs pending
    cases pops with
    | pop role =>
      cases kind
      cases (single u).mp role
      exact pop_transfers (scripted.entering single pending) destroyed shrunk
    | _ => cases kind
  | refuse u v pending | miss u pending => cases performs pending
  | front u pending =>
    cases performs pending with
    | front role =>
      cases (single u).mp role
      exact inv.front_transfers (scripted.entering single pending)
  | close u pending =>
    cases performs pending with
    | close other finished =>
      exact close_transfers fun same => other ((single u).mpr same.symm)
  | closed u pending =>
    cases performs pending with
    | closed role =>
      cases (single u).mp role
      exact closed_transfers (scripted.entering single pending)
  | threw u op pending reached => cases follows
  | notify u w v notifying waiting =>
    have awake := sleeper (by rw [waiting]; rfl : (s.thread w).call = some (.emplace v))
    exact transfer_stay rfl rfl
      (scripted.notified notifying (Function.update_of_ne awake _ _) rfl)
  | notifyNobody u notifying => exact transfer_stay rfl rfl (scripted.notified notifying rfl rfl)
  | spurious u v waiting =>
    have awake := sleeper (by rw [waiting]; rfl : (s.thread u).call = some (.emplace v))
    exact transfer_stay rfl rfl (frontPhase_others (.woken v) awake rfl fun _ _ => rfl)

end Departures

section Outcome

variable [DecidableEq T] {env : Environment} {n : Nat} {roles : T → Role α} {s s' : State T α}
  {c : T}

structure Passing (n : Nat) (roles : T → Role α) (c : T) (s : State T α) : Prop where
  inv : Inv n s
  scripted : Scripted roles c s
  sound : Sound (s.transfer c)

theorem passing_start {b : MutexBuffer α} (holds : b.Holds n [] 0) (open_ : b.closed_ = false) :
    Passing n roles c (start T b) where
  inv := inv_start holds
  scripted := {
    performs := fun _ _ called => nomatch called
    prefixes := fun _ => List.nil_prefix
    finished := fun closed => by
      rw [start, open_] at closed
      cases closed
    took := fun owes => nomatch owes
    looked := fun _ answer => nomatch answer
    holding := fun entering => nomatch entering }
  sound := fun _ left => nomatch left

theorem next_item {xs : List (T × α)} {items : List α} {k : Nat} {t : T} {v : α}
    (present : xs[k]? = some (t, v)) (prefixes : itemsOf t xs <+: items) :
    items[(itemsOf t (xs.take k)).length]? = some v := by
  obtain ⟨lt, at_k⟩ := List.getElem?_eq_some_iff.mp present
  have cut : xs.take k ++ (t, v) :: xs.drop (k + 1) = xs := by
    rw [← at_k, ← List.drop_eq_getElem_cons lt, List.take_append_drop]
  have split : itemsOf t xs =
      itemsOf t (xs.take k) ++ v :: itemsOf t (xs.drop (k + 1)) := by
    rw [← congrArg (itemsOf t) cut]
    simp [itemsOf]
  obtain ⟨rest, whole⟩ := prefixes
  rw [← whole, split, List.append_assoc, List.getElem?_append_right (Nat.le_refl _), Nat.sub_self]
  rfl

variable [Fintype T]

theorem Passing.move {l : Label T α} (passing : Passing n roles c s)
    (single : ∀ t, roles t = .consumer ↔ t = c) (follows : Transfers roles s l)
    (h : step env s l = some s') : Move s l s' :=
  step_move passing.inv (follows.nonemptyPop passing.scripted single) h

theorem Passing.step {l : Label T α} (passing : Passing n roles c s)
    (single : ∀ t, roles t = .consumer ↔ t = c) (follows : Transfers roles s l)
    (h : step env s l = some s') : Passing n roles c s' := by
  have move := passing.move single follows h
  have transfers := move.transfers passing.inv passing.scripted follows single
  exact ⟨move.inv passing.inv, move.scripted passing.inv single follows passing.scripted,
    transfers.sound passing.sound⟩

end Outcome

/-- Any number of producers and one consumer that loops over `front` and `pop`. Nothing goes
wrong, every value it sees is the next item of some producer, and when it has left the loop it
has popped all that was pushed if and only if `close()` came while the buffer was empty or
before the last `front` that answered null. -/
theorem mutex_front_transfer [DecidableEq T] [Fintype T] (env : Environment) (n : Nat)
    (small : n < sizeModulus) (b : MutexBuffer α) (made : MutexBuffer.construct α env n = .ok b)
    (roles : T → Role α) (c : T) (single : ∀ t, roles t = .consumer ↔ t = c)
    (ls : List (Label T α)) (s : State T α)
    (run : Run (step env) (Transfers roles) (start T b) ls s) :
    s.fault = none ∧
      (∀ p, s.result c = some (.front (some p)) → ∃ t v,
        s.pushed[s.popped.length]? = some (t, v) ∧ s.buffer.slots p = some v ∧
          (roles t).items[(itemsOf t (s.pushed.take s.popped.length)).length]? = some v) ∧
      (frontPhase s c = .left → Finished roles s ∧
        (s.popped.map Prod.snd = s.pushed.map Prod.snd ↔
          Along (step env) (ClosedWhileLooking c) (start T b) ls)) := by
  obtain ⟨pos, rfl⟩ := MutexBuffer.construct_ok made
  have initial : Passing n roles c (start T (MutexBuffer.empty α n)) :=
    passing_start (MutexBuffer.holds_empty pos small) rfl
  have preserved : ∀ (s : State T α) l s', Passing n roles c s → Transfers roles s l →
      step env s l = some s' → Passing n roles c s' := fun _ _ _ passing => passing.step single
  have passing := run.invariant _ preserved initial
  refine ⟨passing.inv.sound, ?_, ?_⟩
  · intro p answer
    obtain ⟨t, v, present, live⟩ := passing.inv.front_stored (passing.scripted.looked p answer)
    exact ⟨t, v, present, live, next_item present (passing.scripted.prefixes t)⟩
  · intro left
    have closed : s.buffer.closed_ = true := passing.sound () left
    have settled : Settled (s.transfer c) :=
      ⟨closed, fun _ looking => by
        have gone : frontPhase s c = .looking := looking
        rw [left] at gone
        cases gone⟩
    refine ⟨passing.scripted.finished closed, ?_⟩
    have all : s.popped.map Prod.snd = s.pushed.map Prod.snd ↔ s.buffer.stored = [] := by
      rw [← passing.inv.fifo, List.self_eq_append_right]
    rw [all]
    exact emptied_iff (Passing n roles c) (State.transfer c) (fun s l => closes s l = true)
      preserved (fun s l s' passing follows h =>
        have move := passing.move single follows h
        ⟨move.transfers passing.inv passing.scripted follows single, move.closes_iff⟩)
      initial run (fun settled => nomatch settled.closed) settled

def couple : Bool → Role Nat
  | true => .producer [7]
  | false => .consumer

/-- The consumer sees the item, and only afterwards the producer closes the buffer. -/
def closedWhileLooking : List (Label Bool Nat) :=
  [.call true (.emplace 7), .lock true false, .call false .front, .lock false false,
    .call false .pop, .lock false false, .notify false none, .call true .close,
    .lock true false, .call false .front, .lock false false, .call false .closed,
    .lock false false]

theorem mutex_front_transfer_at_one : ∃ s : State Bool Nat, s.fault = none ∧
    s.popped.map Prod.snd = s.pushed.map Prod.snd ∧
      Along (step .desktop) (ClosedWhileLooking false) (start Bool (MutexBuffer.empty Nat 1))
        closedWhileLooking :=
  have ⟨sound, _, outcome⟩ := mutex_front_transfer .desktop 1 (by decide) _ rfl couple false
    (by decide) closedWhileLooking _ (Run.of_exec (by decide) (by decide))
  have ⟨_, received⟩ := outcome (by decide)
  ⟨_, sound, by decide, received.mp (by decide)⟩

end RingBuffers.Mutex
