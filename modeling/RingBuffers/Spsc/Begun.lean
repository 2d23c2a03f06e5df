import Mathlib.Data.List.Forall2
import RingBuffers.Spsc.Serial

/-! The calls that return are the calls that were made. A call is made with a label of its own, runs
in its thread and is reported once; when calls do not overlap they are reported in the order in
which they were made. -/
namespace RingBuffers.Spsc
open BoundedQueue ReleaseAcquire Transition

variable {α : Type} {r : Ring}

def Label.call : Label α → Option (Call α)
  | .emplace v => some (.push v)
  | .tryEmplace v => some (.tryPush v)
  | .close => some .close
  | .front => some .front
  | .pop => some .pop
  | .closed => some .closed
  | .producer _ | .consumer _ | .throw | .read => none

def Mode.asks : Mode → α → Call α
  | .emplace, v => .push v
  | .tryEmplace, v => .tryPush v

def ProducerPC.call : ProducerPC α → Option (Call α)
  | .idle => none
  | .loadPushCursor mode v => some (mode.asks v)
  | .readCache f | .loadPopCursor f | .loaded f _ | .recheck f | .construct f
  | .storePushCursor f => some (f.mode.asks f.value)
  | .storeClosed => some .close

/-- The calls that have been made and have not returned. -/
def State.running (s : State α) : List (Call α) :=
  s.producer.call.toList ++ s.consumer.call.toList

/-- A call returns as itself, or as a push that threw. -/
inductive Returns : Call α → Operation α → Prop where
  | call (k : Call α) : Returns k (.call k)
  | threw (mode : Mode) (v : α) : Returns (mode.asks v) (.throwing mode)

/-- Of the calls that run and the one that the step makes, some return and the others run on. -/
def Accounts (s : State α) (l : Label α) (t : State α) : Prop :=
  ∃ ks, s.running ++ l.call.toList = ks ++ t.running ∧
    List.Forall₂ Returns ks ((reports s t).map Prod.fst)

section Rules

variable {e : Encoding r} {s t : State α} {l : Label α}

theorem runs_on (none_ : l.call = none) (same : t.running = s.running)
    (quiet : reports s t = []) : Accounts s l t := by
  refine ⟨[], ?_, ?_⟩
  · rw [none_, same]
    simp
  · rw [quiet]
    exact .nil

theorem is_made (rests : s.running = []) (made : t.running = l.call.toList)
    (quiet : reports s t = []) : Accounts s l t := by
  refine ⟨[], ?_, ?_⟩
  · rw [rests, made]
  · rw [quiet]
    exact .nil

theorem Mode.operation_returns (mode : Mode) (throws : Bool) (v : α) :
    Returns (mode.asks v) (mode.operation throws v) := by
  cases throws with
  | true => exact .threw mode v
  | false => cases mode <;> exact .call _

theorem ProducerPC.operation_returns {pc : ProducerPC α} {throws : Bool} {op : Operation α}
    (pending : pc.operation throws = some op) : ∃ k, pc.call = some k ∧ Returns k op := by
  cases pc with
  | idle => cases pending
  | loadPushCursor mode v =>
    cases pending
    exact ⟨_, rfl, mode.operation_returns throws v⟩
  | readCache f | loadPopCursor f | recheck f | construct f | loaded f pop =>
    cases pending
    exact ⟨_, rfl, f.mode.operation_returns throws f.value⟩
  | storePushCursor f =>
    cases throws with
    | true => cases pending
    | false =>
      cases pending
      exact ⟨_, rfl, f.mode.operation_returns false f.value⟩
  | storeClosed =>
    cases throws with
    | true => cases pending
    | false =>
      cases pending
      exact ⟨_, rfl, .call _⟩

theorem push_returns (none_ : l.call = none) (idle : t.producer = .idle) (rest : s.consumer = .idle)
    (consumer : t.consumer = s.consumer) {op : Operation α}
    (pending : s.producer.operation (t.pushResult == some .threw) = some op) :
    Accounts s l t := by
  obtain ⟨k, call, returns⟩ := ProducerPC.operation_returns pending
  refine ⟨[k], ?_, ?_⟩
  · rw [State.running, State.running, none_, call, idle, consumer, rest]
    rfl
  · rw [reports_push consumer idle pending]
    exact .cons returns .nil

theorem pull_returns (none_ : l.call = none) (idle : t.consumer = .idle)
    (rest : s.producer = .idle) (producer : t.producer = s.producer) {k : Call α}
    (pending : s.consumer.call = some k) : Accounts s l t := by
  refine ⟨[k], ?_, ?_⟩
  · rw [State.running, State.running, none_, pending, idle, producer, rest]
    rfl
  · rw [reports_pull producer idle pending]
    exact .cons (.call k) .nil

theorem push_runs_on (none_ : l.call = none) (consumer : t.consumer = s.consumer)
    (busy : t.producer ≠ .idle) (same : t.producer.call = s.producer.call) : Accounts s l t :=
  runs_on none_ (by rw [State.running, same, consumer, State.running])
    (reports_none (.inr busy) (.inl consumer))

theorem pull_runs_on (none_ : l.call = none) (producer : t.producer = s.producer)
    (busy : t.consumer ≠ .idle) (same : t.consumer.call = s.consumer.call) : Accounts s l t :=
  runs_on none_ (by rw [State.running, same, producer, State.running])
    (reports_none (.inl producer) (.inr busy))

theorem Move.accounts (move : Move e s l t) (fresh : s.Fresh) (separate : apart s l = true)
    (alone : s.producer = .idle ∨ s.consumer = .idle) : Accounts s l t := by
  cases move with
  | emplace v at_pc | tryEmplace v at_pc | close at_pc =>
    have rest := ConsumerPC.eq_idle separate
    apply is_made
    · rw [State.running, at_pc, rest]
      rfl
    · rw [State.running, rest]
      rfl
    · exact reports_none (.inr (by simp)) (.inl rfl)
  | front at_pc | pop at_pc | closed at_pc =>
    have rest := ProducerPC.eq_idle separate
    apply is_made
    · rw [State.running, at_pc, rest]
      rfl
    · rw [State.running, rest]
      rfl
    · exact reports_none (.inl rfl) (.inr (by simp))
  | read => exact runs_on rfl rfl (reports_none (.inl rfl) (.inl rfl))
  | loadPush i mode v f m at_pc load at_f =>
    subst at_f
    refine push_runs_on rfl rfl ?_ ?_ <;> cases r.cached <;> simp [at_pc, ProducerPC.call]
  | loadedCache i f pop at_pc =>
    refine push_runs_on rfl rfl ?_ ?_ <;> cases f.mode <;> simp [at_pc, ProducerPC.call]
  | cacheFull i f at_pc | cacheRoom i f at_pc | loadPop i x f m at_pc | loadedSpin i f pop at_pc
  | loadedRoom i f pop at_pc | recheckRoom i f at_pc | construct i f at_pc =>
    exact push_runs_on rfl rfl (by simp) (by rw [at_pc]; rfl)
  | loadedFull i f pop at_pc | recheckFull i f at_pc | publish i f at_pc =>
    have rest := alone.resolve_left (by simp [at_pc])
    have pending : s.producer.operation false = some (f.mode.operation false f.value) := by
      rw [at_pc]
      rfl
    exact push_returns rfl rfl rest rfl pending
  | storeClosed i at_pc =>
    have rest := alone.resolve_left (by simp [at_pc])
    have nothing : s.pushResult = none := fresh (by simp [at_pc])
    have pending : s.producer.operation (s.pushResult == some .threw) = some (.call .close) := by
      rw [at_pc, nothing]
      rfl
    exact push_returns rfl rfl rest rfl pending
  | threw f at_pc =>
    have rest := alone.resolve_left (by simp [at_pc])
    have pending : s.producer.operation true = some (.throwing f.mode) := by
      rw [at_pc]
      rfl
    exact push_returns rfl rfl rest rfl pending
  | frontLoadPop i m at_pc =>
    refine pull_runs_on rfl rfl ?_ ?_ <;> cases r.cached <;> simp [at_pc, ConsumerPC.call]
  | popLoadPop i m at_pc =>
    refine pull_runs_on rfl rfl ?_ ?_ <;> cases r.ndebug <;> simp [at_pc, ConsumerPC.call]
  | frontCacheEmpty i pop at_pc | frontLoadPush i pop x m at_pc | frontLoadedCache i pop push at_pc
  | popAssert i pop x m at_pc | destroy i pop v at_pc =>
    exact pull_runs_on rfl rfl (by simp) (by rw [at_pc]; rfl)
  | frontCacheHit i pop at_pc | frontHit i pop at_pc | frontNull i pop at_pc
  | frontLoadedNull i pop push at_pc | frontLoadedHit i pop push at_pc =>
    have rest := alone.resolve_right (by simp [at_pc])
    have pending : s.consumer.call = some .front := by rw [at_pc]; rfl
    exact pull_returns rfl rfl rest rfl pending
  | giveBack i pop v at_pc =>
    have rest := alone.resolve_right (by simp [at_pc])
    have pending : s.consumer.call = some .pop := by rw [at_pc]; rfl
    exact pull_returns rfl rfl rest rfl pending
  | loadClosed i b m at_pc =>
    have rest := alone.resolve_right (by simp [at_pc])
    have pending : s.consumer.call = some .closed := by rw [at_pc]; rfl
    exact pull_returns rfl rfl rest rfl pending

end Rules

def answered (r : Ring) (s : State α) (l : Label α) : List (Operation α × Option (Outcome α)) :=
  match step r s l with
  | none => []
  | some t => reports s t

/-- The calls that have returned, each with what it answered. -/
def served (r : Ring) (ls : List (Label α)) : List (Operation α × Option (Outcome α)) :=
  (trace (step r) (answered r) (start α) ls).flatten

theorem run_accounts {allowed : State α → Label α → Prop} (I : State α → Prop)
    (preserved : ∀ s l t, I s → allowed s l → step r s l = some t → I t)
    (accounts : ∀ s l t, I s → allowed s l → step r s l = some t → Accounts s l t)
    {s t : State α} {ls : List (Label α)} (run : Run (step r) allowed s ls t) (initial : I s) :
    ∃ ks, s.running ++ ls.filterMap Label.call = ks ++ t.running ∧
      List.Forall₂ Returns ks ((trace (step r) (answered r) s ls).flatten.map Prod.fst) := by
  induction ls generalizing s with
  | nil =>
    obtain rfl := (run_nil s t).mp run
    exact ⟨[], by simp, .nil⟩
  | cons l ls ih =>
    obtain ⟨admitted, u, h, rest⟩ := (run_cons s t l ls).mp run
    obtain ⟨ks, now, returns⟩ := accounts s l u initial admitted h
    obtain ⟨js, later, returned⟩ := ih rest (preserved s l u initial admitted h)
    refine ⟨ks ++ js, ?_, ?_⟩
    · have split : (l :: ls).filterMap Label.call = l.call.toList ++ ls.filterMap Label.call := by
        cases at_l : l.call <;> simp [at_l]
      rw [split, ← List.append_assoc, now, List.append_assoc, later, List.append_assoc]
    · simp only [trace, h, answered, List.flatten_cons, List.map_append]
      exact List.rel_append returns returned

end RingBuffers.Spsc
