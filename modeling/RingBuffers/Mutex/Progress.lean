import Mathlib.Algebra.Group.Action.Defs
import Mathlib.Algebra.Order.BigOperators.Group.Finset
import RingBuffers.Mutex.Atomicity
import RingBuffers.Mutex.Wakeups

/-! The calls in progress come to an end. Whoever holds `mutex_` can take its next line, and
all the threads together have a bounded number of lines before them, so that nothing but
`cvFull_.wait` on a full buffer keeps a call from returning. -/
namespace RingBuffers.Mutex.Lines
open Census Exclusion Transition Wakeup

variable {T α : Type}

/-- Calls already begun go on. A spurious wake-up is nothing to count upon. -/
def Label.continues : Label T α → Bool
  | .run _ _ | .notify _ _ => true
  | _ => false

def Label.throwless : Label T α → Bool
  | .run _ throws => !throws
  | _ => true

/-- An upper bound for the lines to the return of a call. The line that notifies counts for
those of the thread it wakes. -/
def Line.remaining : Line α → Nat
  | .idle | .waiting _ => 0
  | .unlocking _ false => 1
  | .incrementing _ | .addressing | .closing | .reading => 2
  | .advancingPush _ => 3
  | .constructing _ _ => 4
  | .testing (.emplace _) | .testing (.tryEmplace _) => 5
  | .relocking _ => 6
  | .notifying => 7
  | .unlocking _ true => 8
  | .decrementing _ => 9
  | .advancingPop _ => 10
  | .destroying _ => 11
  | .moving => 12
  | .testing _ => 13
  | .locking _ => 14

def Line.reached : Line α → Bool
  | .testing .close | .testing .closed => false
  | _ => true

def Line.threw : Line α → Bool
  | .constructing _ res | .advancingPush res | .incrementing res | .destroying res
  | .advancingPop res | .decrementing res | .unlocking res _ => threwOut res
  | _ => false

structure Leads (throws : Bool) (x y : Line α) : Prop where
  lower : y.remaining < x.remaining
  reached : y.reached = true
  threw : throws = false → x.threw = false → y.threw = false

section Lines

variable [DecidableEq T] {env : Environment} {s s' : State T α} {t : T}

theorem lockLine_goes {op : Op α} (h : lockLine s t op = some s') :
    s'.line = Function.update s.line t (entry op) := by
  unfold lockLine at h
  split at h <;> cases h
  rfl

theorem entry_leads (op : Op α) {line : Line α}
    (at_line : line = .locking op ∨ ∃ v, op = .emplace v ∧ line = .relocking v) :
    Leads false line (entry op) := by
  rcases at_line with rfl | ⟨v, rfl, rfl⟩
  · cases op <;> exact ⟨by simp [entry, Line.remaining], rfl, fun _ _ => rfl⟩
  · exact ⟨by simp [entry, Line.remaining], rfl, fun _ _ => rfl⟩

theorem testLine_goes {op : Op α} (reached : (Line.testing op).reached = true)
    (sound : (testLine env s t op).fault = none) :
    ∃ line, (testLine env s t op).line = Function.update s.line t line ∧
      Leads false (.testing op) line := by
  cases op with
  | emplace v | tryEmplace v | front | tryPop =>
    simp only [testLine]
    split <;>
      exact ⟨_, rfl, by simp [Line.remaining], rfl, fun _ _ => rfl⟩
  | pop =>
    simp only [testLine] at sound ⊢
    split at sound
    · cases sound
    · rename_i passes
      rw [if_neg passes]
      exact ⟨_, rfl, by simp [Line.remaining], rfl, fun _ _ => rfl⟩
  | close | closed => cases reached

theorem throwing_goes (h : runLine env s t true = some s') :
    ∃ line, s'.line = Function.update s.line t line ∧ Leads true (s.line t) line := by
  simp only [runLine, if_true] at h
  split at h
  · rename_i v res at_line
    cases h
    exact ⟨_, rfl, by simp [at_line, Line.remaining], rfl, fun never => by cases never⟩
  · rename_i at_line
    cases h
    exact ⟨_, rfl, by simp [at_line, Line.remaining], rfl, fun never => by cases never⟩
  · cases h

theorem runLine_goes (h : runLine env s t false = some s') (sound : s'.fault = none)
    (reached : (s.line t).reached = true) :
    ∃ line, s'.line = Function.update s.line t line ∧ Leads false (s.line t) line := by
  simp only [runLine, Bool.false_eq_true, if_false] at h
  cases at_line : s.line t with
  | idle | waiting v | notifying =>
    simp only [at_line] at h
    cases h
  | locking op =>
    simp only [at_line] at h
    exact ⟨_, lockLine_goes h, entry_leads op (.inl rfl)⟩
  | relocking v =>
    simp only [at_line] at h
    exact ⟨_, lockLine_goes h, entry_leads _ (.inr ⟨v, rfl, rfl⟩)⟩
  | testing op =>
    simp only [at_line] at h reached
    cases h
    exact testLine_goes reached sound
  | constructing v res =>
    simp only [at_line, constructLine] at h
    split at h <;> cases h
    · cases sound
    · exact ⟨_, rfl, by simp [Line.remaining], rfl, fun _ => id⟩
  | advancingPush res =>
    simp only [at_line, advancePushLine] at h
    split at h <;> cases h
    · cases sound
    · exact ⟨_, rfl, by simp [Line.remaining], rfl, fun _ => id⟩
  | moving =>
    simp only [at_line, moveLine] at h
    split at h <;> cases h
    · cases sound
    · exact ⟨_, rfl, by simp [Line.remaining], rfl, fun _ _ => rfl⟩
  | destroying res =>
    simp only [at_line, destroyLine] at h
    split at h <;> cases h
    · cases sound
    · exact ⟨_, rfl, by simp [Line.remaining], rfl, fun _ => id⟩
  | advancingPop res =>
    simp only [at_line, advancePopLine] at h
    split at h <;> cases h
    · cases sound
    · exact ⟨_, rfl, by simp [Line.remaining], rfl, fun _ => id⟩
  | incrementing res | decrementing res =>
    simp only [at_line] at h
    rw [← Option.some.inj h]
    exact ⟨_, rfl, by simp [Line.remaining], rfl, fun _ => id⟩
  | addressing | closing | reading =>
    simp only [at_line] at h
    cases h
    exact ⟨_, rfl, by simp [Line.remaining], rfl, fun _ _ => rfl⟩
  | unlocking res notifies =>
    simp only [at_line] at h
    cases h
    cases notifies <;> exact ⟨_, rfl, by simp [Line.remaining], rfl, fun _ _ => rfl⟩

theorem runs_inside (env : Environment) (inner : (s.line t).inside = true) :
    (runLine env s t false).isSome = true := by
  simp only [runLine, Bool.false_eq_true, if_false]
  cases at_line : s.line t with
  | idle | locking op | waiting v | relocking v | notifying =>
    rw [at_line] at inner
    cases inner
  | _ => rfl

end Lines

section Steps

variable [DecidableEq T] [Fintype T] {env : Environment} {s s' : State T α} {l : Label T α}

def State.remaining (s : State T α) : Nat := ∑ t, (s.line t).remaining

omit [DecidableEq T] in
theorem remaining_le (s : State T α) : s.remaining ≤ 14 * Fintype.card T := by
  have each : ∀ line : Line α, line.remaining ≤ 14 := by
    intro line
    unfold Line.remaining
    split <;> omega
  have total := Finset.sum_le_card_nsmul Finset.univ (fun t => (s.line t).remaining) 14
    fun t _ => each (s.line t)
  rw [smul_eq_mul, Nat.mul_comm] at total
  exact total

theorem remaining_update (s s' : State T α) {t : T} {line : Line α}
    (goes : s'.line = Function.update s.line t line) :
    s'.remaining + (s.line t).remaining = s.remaining + line.remaining := by
  rw [State.remaining, goes]
  exact total_update Line.remaining s.line t line

omit [Fintype T] in
theorem run_goes {t : T} {throws : Bool} (h : runLine env s t throws = some s')
    (sound : s'.fault = none) (reached : (s.line t).reached = true) :
    ∃ line, s'.line = Function.update s.line t line ∧ Leads throws (s.line t) line := by
  cases throws with
  | true => exact throwing_goes h
  | false => exact runLine_goes h sound reached

/-- What holds of every line, when the lines that come next keep it. -/
theorem step_lines (P : Line α → Prop) (idle : P .idle) (locks : ∀ op, P (.locking op))
    (relocks : ∀ v, P (.relocking v))
    (keeps : ∀ t throws line, l = .run t throws → Leads throws (s.line t) line →
      P (s.line t) → P line)
    (h : step env s l = some s') (sound : s'.fault = none)
    (reached : ∀ t, (s.line t).reached = true) (before : ∀ t, P (s.line t)) (t : T) :
    P (s'.line t) := by
  have updated : ∀ {f : T → Line α} {u : T} {line : Line α}, (∀ t, P (f t)) → P line →
      ∀ t, P (Function.update f u line t) := by
    intro f u line all now t
    by_cases mine : t = u
    · subst mine
      rwa [Function.update_self]
    · rw [Function.update_of_ne mine]
      exact all t
  unfold step at h
  split at h
  · cases h
  · cases l with
    | call u op =>
      simp only at h
      split at h <;> cases h
      exact updated before (locks op) t
    | run u throws =>
      obtain ⟨line, goes, leads⟩ := run_goes h sound (reached u)
      rw [goes]
      exact updated before (keeps u throws line rfl leads (before u)) t
    | notify u target =>
      simp only at h
      split at h
      · cases target with
        | none =>
          simp only [notifyLine] at h
          split at h <;> cases h
          exact updated before idle t
        | some w =>
          simp only [notifyLine] at h
          split at h <;> cases h
          exact updated (updated before (relocks _)) idle t
      · cases h
    | spurious u =>
      simp only at h
      split at h <;> cases h
      exact updated before (relocks _) t
    | capacity u size =>
      simp only at h
      split at h
      · split at h <;> cases h
        exact before t
      · cases h

theorem step_spends (h : step env s l = some s') (sound : s'.fault = none)
    (reached : ∀ t, (s.line t).reached = true) (continues : l.continues = true) :
    s'.remaining < s.remaining := by
  unfold step at h
  split at h
  · cases h
  · cases l with
    | run t throws =>
      obtain ⟨line, goes, leads⟩ := run_goes h sound (reached t)
      have total := remaining_update s s' goes
      have lower := leads.lower
      omega
    | notify t target =>
      simp only at h
      split at h
      · rename_i notifying
        cases target with
        | none =>
          simp only [notifyLine] at h
          split at h <;> cases h
          have total := remaining_update s (s.goes t .idle) rfl
          simp only [notifying, Line.remaining] at total
          omega
        | some u =>
          simp only [notifyLine] at h
          split at h <;> cases h
          rename_i v waiting
          have woken := remaining_update s (s.goes u (.relocking v)) rfl
          have total := remaining_update (s.goes u (.relocking v))
            ((s.goes u (.relocking v)).goes t .idle) rfl
          have other : t ≠ u := by
            rintro rfl
            rw [waiting] at notifying
            cases notifying
          have still : (s.goes u (.relocking v)).line t = .notifying :=
            (Function.update_of_ne other _ _).trans notifying
          simp only [waiting, still, Line.remaining] at woken total
          omega
      · cases h
    | call | spurious | capacity => cases continues

end Steps

/-- Nobody is on the way to anything. -/
structure Quiet (s : State T α) : Prop where
  mutex : s.mutex = none
  line : ∀ t, s.line t = .idle ∨ (s.line t).isWaiting = true

section Ends

variable {env : Environment} {n : Nat} {s : State T α} {a : Mutex.State T α} {l : Label T α}

theorem sections_throwless {k : Mutex.Label T α} (unthrown : ∀ t, (s.line t).threw = false)
    (mem : k ∈ sections s l) : Mutex.throwless k = true := by
  cases l with
  | run t throws =>
    have mine := unthrown t
    cases at_line : s.line t with
    | unlocking res notifies =>
      simp only [sections, at_line, List.mem_singleton] at mem
      rw [at_line] at mine
      subst mem
      simpa [Mutex.throwless, Line.threw] using mine
    | testing op =>
      simp only [sections, at_line] at mem
      cases op with
      | emplace v =>
        simp only at mem
        split at mem
        · rw [List.mem_singleton] at mem
          subst mem
          rfl
        · cases mem
      | _ => cases mem
    | _ =>
      simp only [sections, at_line] at mem
      cases mem
  | call | notify | spurious =>
    rw [sections, List.mem_singleton] at mem
    subst mem
    rfl
  | capacity => cases mem

variable [Fintype T]

theorem Refines.quiet_full (refines : Refines n s a) (covered : Covered a.tally) (quiet : Quiet s)
    {t : T} (waiting : (s.line t).isWaiting = true) : s.buffer.isFull = true := by
  have outside : ∀ p : PC α → Bool, p .idle = false → (∀ v, p (.waiting v) = false) →
      census p a.thread = 0 := by
    intro p idle waits
    refine census_eq_zero fun u => ?_
    have shows := refines.shows u
    rcases quiet.line u with at_line | at_line
    · rw [at_line] at shows
      rw [show a.thread u = .idle from shows, idle]
    · cases line : s.line u with
      | waiting v =>
        rw [line] at shows
        rw [show a.thread u = .waiting v from shows, waits]
      | _ => simp [line, Line.isWaiting] at at_line
  have blocked : 0 < a.blocked := by
    rw [← refines.blocked]
    exact census_pos_iff.mpr ⟨t, waiting⟩
  have free := covered blocked
  simp only [State.tally, Mutex.State.tally, Mutex.State.woken, Mutex.State.notifying,
    outside PC.isWoken rfl (fun _ => rfl), outside PC.isNotifying rfl (fun _ => rfl)] at free
  rw [refines.free quiet.mutex]
  exact refines.inv.full_free.mpr (Nat.le_zero.mp free)

variable [DecidableEq T]

theorem Refines.holder_runs (refines : Refines n s a) (env : Environment) {t : T}
    (owner : s.mutex = some t) : (Lines.step env s (.run t false)).isSome = true := by
  have inner : (s.line t).inside = true := (refines.exclusive t).mpr owner
  simpa [Lines.step, refines.sound] using runs_inside env inner

theorem Refines.notifier_runs (refines : Refines n s a) (env : Environment) {t : T}
    (notifying : s.line t = .notifying) :
    ∃ target, (Lines.step env s (.notify t target)).isSome = true := by
  by_cases nobody : census Line.isWaiting s.line = 0
  · exact ⟨none, by simp [Lines.step, refines.sound, notifying, notifyLine, nobody]⟩
  · obtain ⟨u, waits⟩ := census_pos_iff.mp (Nat.pos_of_ne_zero nobody)
    refine ⟨some u, ?_⟩
    cases at_line : s.line u with
    | waiting v => simp [Lines.step, refines.sound, notifying, notifyLine, at_line]
    | _ => simp [at_line, Line.isWaiting] at waits

/-- No deadlock: as long as a call is on its way, some thread can go on. -/
theorem Refines.quiet (refines : Refines n s a)
    (stuck : ∀ l, Label.continues l = true → Lines.step env s l = none) : Quiet s := by
  have stays : ∀ {l : Label T α}, Label.continues l = true →
      (Lines.step env s l).isSome = true → False := by
    intro l continues possible
    rw [stuck l continues] at possible
    cases possible
  have free : s.mutex = none := by
    cases owner : s.mutex with
    | none => rfl
    | some t => exact (stays rfl (refines.holder_runs env owner)).elim
  refine ⟨free, fun t => ?_⟩
  have locks : ∀ op, (lockLine s t op).isSome = true := by
    intro op
    simp [lockLine, free]
  have outside : (s.line t).inside = false := by
    rw [Bool.eq_false_iff]
    intro inner
    rw [(refines.exclusive t).mp inner] at free
    cases free
  cases at_line : s.line t with
  | idle => exact .inl rfl
  | waiting v => exact .inr rfl
  | locking op =>
    refine (stays (l := .run t false) rfl ?_).elim
    simpa [Lines.step, refines.sound, runLine, at_line] using locks op
  | relocking v =>
    refine (stays (l := .run t false) rfl ?_).elim
    simpa [Lines.step, refines.sound, runLine, at_line] using locks (.emplace v)
  | notifying =>
    obtain ⟨target, possible⟩ := refines.notifier_runs env at_line
    exact (stays rfl possible).elim
  | _ =>
    rw [at_line] at outside
    cases outside

end Ends

section Runs

variable [DecidableEq T] [Fintype T] {env : Environment} {n : Nat} {s s' : State T α}
  {l : Label T α}

structure Ongoing (n : Nat) (s : State T α) : Prop where
  refines : ∃ a, Refines n s a
  reached : ∀ t, (s.line t).reached = true

/-- Nothing has thrown, so that the notices cover the producers asleep. -/
structure Unthrown (n : Nat) (s : State T α) : Prop where
  refines : ∃ a, Refines n s a ∧ Covered a.tally
  reached : ∀ t, (s.line t).reached = true
  threw : ∀ t, (s.line t).threw = false

omit [DecidableEq T] [Fintype T] in
theorem ongoing_start {b : MutexBuffer α} (holds : b.Holds n [] 0) : Ongoing n (start T b) :=
  ⟨⟨_, refines_start holds⟩, fun _ => rfl⟩

theorem Ongoing.step (ongoing : Ongoing n s) (contract : nonemptyPop s l = true)
    (h : Lines.step env s l = some s') : Ongoing n s' := by
  obtain ⟨a, refines⟩ := ongoing.refines
  obtain ⟨a', _, still⟩ := refines.step contract h
  refine ⟨⟨a', still⟩, ?_⟩
  exact step_lines (fun line => line.reached = true) rfl (fun _ => rfl) (fun _ => rfl)
    (fun _ _ _ _ leads _ => leads.reached) h still.sound ongoing.reached ongoing.reached

omit [DecidableEq T] in
theorem unthrown_start {b : MutexBuffer α} (holds : b.Holds n [] 0) : Unthrown n (start T b) := by
  refine ⟨⟨_, refines_start holds, ?_⟩, fun _ => rfl, fun _ => rfl⟩
  intro blocked
  simp [Mutex.State.tally, blocked_start] at blocked

theorem covered_run {a a' : Mutex.State T α} {ks : List (Mutex.Label T α)} (inv : Inv n a)
    (covered : Covered a.tally) (throwless : ∀ k ∈ ks, Mutex.throwless k = true)
    (run : Run (Mutex.step env) (fun a k => Mutex.nonemptyPop a k = true) a ks a') :
    Covered a'.tally := by
  have quiet : Run (Mutex.step env)
      (fun a k => Mutex.nonemptyPop a k = true ∧ Mutex.throwless k = true) a ks a' :=
    ⟨run.ends, run.obeys.labels _ throwless⟩
  refine (quiet.invariant (fun a => Inv n a ∧ Covered a.tally) ?_ ⟨inv, covered⟩).2
  rintro s k s' ⟨inv, covered⟩ ⟨contract, kept⟩ h
  have move := step_move inv contract h
  exact ⟨move.inv inv, move.covered inv kept covered⟩

theorem Unthrown.step (unthrown : Unthrown n s) (contract : nonemptyPop s l = true)
    (throwless : l.throwless = true) (h : Lines.step env s l = some s') : Unthrown n s' := by
  obtain ⟨a, refines, covered⟩ := unthrown.refines
  obtain ⟨a', run, still⟩ := refines.step contract h
  constructor
  · exact ⟨a', still, covered_run refines.inv covered
      (fun _ mem => sections_throwless unthrown.threw mem) run⟩
  · exact step_lines (fun line => line.reached = true) rfl (fun _ => rfl) (fun _ => rfl)
      (fun _ _ _ _ leads _ => leads.reached) h still.sound unthrown.reached unthrown.reached
  · refine step_lines (fun line => line.threw = false) rfl (fun _ => rfl) (fun _ => rfl)
      ?_ h still.sound unthrown.reached unthrown.threw
    rintro t throws line rfl leads before
    exact leads.threw (by simpa [Label.throwless] using throwless) before

theorem Ongoing.spends (ongoing : Ongoing n s) {ks : List (Label T α)} {u : State T α}
    (run : Run (Lines.step env) (fun s l => nonemptyPop s l = true ∧ l.continues = true) s ks u) :
    ks.length ≤ s.remaining := by
  have preserved : ∀ (s : State T α) l s', Ongoing n s →
      nonemptyPop s l = true ∧ l.continues = true → Lines.step env s l = some s' →
      Ongoing n s' := fun _ _ _ ongoing admitted => ongoing.step admitted.1
  have spent := run.spends State.remaining (fun _ => true) (Ongoing n) preserved
    (fun s l s' ongoing admitted h _ => by
      obtain ⟨a, still⟩ := (ongoing.step admitted.1 h).refines
      exact step_spends h still.sound ongoing.reached admitted.2)
    (fun _ _ _ _ _ _ never => by cases never) ongoing
  rw [List.countP_true] at spent
  omega

end Runs

/-- From any reachable state the calls in progress end: the holder of the mutex can take its
next line, all threads together run at most 14 lines times their number, and when these are done
every thread has returned or is asleep in `cvFull_.wait`, where none sleeps beside a free slot if
nothing threw. -/
theorem mutex_calls_end [DecidableEq T] [Fintype T] (env : Environment) (n : Nat)
    (small : n < sizeModulus) (b : MutexBuffer α) (made : MutexBuffer.construct α env n = .ok b)
    (ls : List (Label T α)) (s : State T α)
    (run : Run (step env) (fun s l => nonemptyPop s l = true) (start T b) ls s) :
    (∀ t, s.mutex = some t → (step env s (.run t false)).isSome = true) ∧
      ∀ ks u, Run (step env) (fun s l => nonemptyPop s l = true ∧ l.continues = true) s ks u →
        ks.length ≤ 14 * Fintype.card T ∧
          ((∀ l, Label.continues l = true → step env u l = none) → Quiet u ∧
            ((∀ l ∈ ls ++ ks, l.throwless = true) →
              ∀ t, (u.line t).isWaiting = true → u.buffer.isFull = true)) := by
  obtain ⟨pos, rfl⟩ := MutexBuffer.construct_ok made
  have holds := MutexBuffer.holds_empty (α := α) pos small
  have ongoing : Ongoing n s := run.invariant (Ongoing n)
    (fun _ _ _ ongoing contract h => ongoing.step contract h) (ongoing_start holds)
  refine ⟨fun t owner => ?_, fun ks u rest => ?_⟩
  · obtain ⟨a, refines⟩ := ongoing.refines
    exact refines.holder_runs env owner
  · have whole : Run (step env) (fun s l => nonemptyPop s l = true)
        (start T (MutexBuffer.empty α n)) (ls ++ ks) u :=
      run.append ⟨rest.ends, rest.obeys.imp fun _ _ admitted => admitted.1⟩
    obtain ⟨a, refines⟩ := (whole.invariant (Ongoing n)
      (fun _ _ _ ongoing contract h => ongoing.step contract h) (ongoing_start holds)).refines
    refine ⟨(ongoing.spends rest).trans (remaining_le s), fun stuck => ?_⟩
    have quiet := refines.quiet stuck
    refine ⟨quiet, fun throwless t waiting => ?_⟩
    have calm : Run (step env) (fun s l => nonemptyPop s l = true ∧ l.throwless = true)
        (start T (MutexBuffer.empty α n)) (ls ++ ks) u :=
      ⟨whole.ends, whole.obeys.labels _ throwless⟩
    obtain ⟨c, refines, covered⟩ := (calm.invariant (Unthrown n)
      (fun _ _ _ unthrown admitted h => unthrown.step admitted.1 admitted.2 h)
      (unthrown_start holds)).refines
    exact refines.quiet_full covered quiet waiting

/-- Thread `true` asks for the mutex while thread `false` fills the only slot. -/
def filling : List (Label Bool Nat) :=
  [.call false (.emplace 7), .run false false, .call true (.emplace 8), .run false false,
    .run false false, .run false false, .run false false]

theorem mutex_calls_end_at_one : ∃ s u : State Bool Nat, s.mutex = some false ∧
    (step .desktop s (.run false false)).isSome = true ∧ Quiet u ∧
      (u.line true).isWaiting = true ∧ u.buffer.isFull = true := by
  have ⟨holder, ends⟩ := mutex_calls_end .desktop 1 (by decide) _ rfl filling _
    (Run.of_exec (by decide) (by decide))
  have ⟨_, quiet⟩ := ends [.run false false, .run true false, .run true false] _
    (Run.of_exec (by decide) (by decide))
  have ⟨calm, full⟩ := quiet fun l continues => by
    cases l with
    | run t throws => cases t <;> cases throws <;> rfl
    | notify t target => cases t <;> rfl
    | call | spurious | capacity => cases continues
  exact ⟨_, _, by decide, holder false (by decide), calm, by decide,
    full (by decide) true (by decide)⟩

end RingBuffers.Mutex.Lines
