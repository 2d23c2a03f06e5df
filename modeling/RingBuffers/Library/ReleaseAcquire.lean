import Mathlib.Data.List.Basic
import Mathlib.Logic.Function.Basic

/-! A release/acquire memory with views. Each location keeps every store made to
it, oldest first; a load may return any store its agent has not already passed.
Plain actions of an agent are logged, and a view says how long a prefix of each
agent's log is visible. Release stores publish the writer's view and acquire
loads join it. -/
namespace ReleaseAcquire

inductive Order where
  | relaxed | acquire | release | seqCst
  deriving DecidableEq, Repr

def Order.acquires : Order → Bool
  | .acquire | .seqCst => true
  | .relaxed | .release => false

def Order.releases : Order → Bool
  | .release | .seqCst => true
  | .relaxed | .acquire => false

/-- `stamp l` is the oldest store of `l` that may still be read; `done a` is the
number of plain actions of `a` that are visible. -/
structure View (Loc Agent : Type) where
  stamp : Loc → Nat
  done : Agent → Nat

structure Message (Loc Agent Val : Type) where
  value : Val
  view : View Loc Agent

structure Memory (Loc Agent Act : Type) (Val : Loc → Type) where
  history : (l : Loc) → List (Message Loc Agent (Val l))
  view : Agent → View Loc Agent
  log : Agent → List Act

section Definitions

variable {Loc Agent Act : Type} {Val : Loc → Type} [DecidableEq Loc] [DecidableEq Agent]

def View.start : View Loc Agent := ⟨fun _ => 0, fun _ => 0⟩

def View.join (v w : View Loc Agent) : View Loc Agent :=
  ⟨fun l => max (v.stamp l) (w.stamp l), fun a => max (v.done a) (w.done a)⟩

def View.see (v : View Loc Agent) (l : Loc) (i : Nat) : View Loc Agent :=
  { v with stamp := Function.update v.stamp l (max (v.stamp l) i) }

def View.know (v : View Loc Agent) (a : Agent) (n : Nat) : View Loc Agent :=
  { v with done := Function.update v.done a (max (v.done a) n) }

def Memory.start (initial : (l : Loc) → Val l) : Memory Loc Agent Act Val where
  history l := [⟨initial l, View.start⟩]
  view _ := View.start
  log _ := []

/-- What reading the `i`-th store of `l`, whose view is `w`, does to the reader's view. -/
def Memory.take (m : Memory Loc Agent Act Val) (a : Agent) (l : Loc) (o : Order) (i : Nat)
    (w : View Loc Agent) : Memory Loc Agent Act Val :=
  let v := m.view a
  { m with view := Function.update m.view a (if o.acquires then v.join w else v.see l i) }

/-- Read the `i`-th store of `l`; undefined when the agent has already passed it. -/
def Memory.load (m : Memory Loc Agent Act Val) (a : Agent) (l : Loc) (o : Order) (i : Nat) :
    Option (Val l × Memory Loc Agent Act Val) :=
  if (m.view a).stamp l ≤ i then
    (m.history l)[i]?.map fun msg => (msg.value, m.take a l o i msg.view)
  else none

def Memory.store (m : Memory Loc Agent Act Val) (a : Agent) (l : Loc) (o : Order) (x : Val l) :
    Memory Loc Agent Act Val :=
  let now := (m.history l).length
  let own := (m.view a).see l now
  { m with
    history := Function.update m.history l
      (m.history l ++ [⟨x, if o.releases then own else View.start.see l now⟩])
    view := Function.update m.view a own }

def Memory.perform (m : Memory Loc Agent Act Val) (a : Agent) (x : Act) :
    Memory Loc Agent Act Val :=
  { m with
    log := Function.update m.log a (m.log a ++ [x])
    view := Function.update m.view a ((m.view a).know a ((m.log a).length + 1)) }

def Memory.visible (m : Memory Loc Agent Act Val) (a b : Agent) : List Act :=
  (m.log b).take ((m.view a).done b)

def Memory.newest (m : Memory Loc Agent Act Val) (l : Loc) : Option (Val l) :=
  (m.history l).getLast?.map Message.value

end Definitions

section Views

variable {Loc Agent Act : Type} {Val : Loc → Type}

structure View.Le (v w : View Loc Agent) : Prop where
  stamp : ∀ l, v.stamp l ≤ w.stamp l
  done : ∀ a, v.done a ≤ w.done a

theorem View.Le.refl (v : View Loc Agent) : View.Le v v :=
  ⟨fun _ => Nat.le_refl _, fun _ => Nat.le_refl _⟩

theorem View.Le.trans {u v w : View Loc Agent} (first : View.Le u v) (second : View.Le v w) :
    View.Le u w :=
  ⟨fun k => Nat.le_trans (first.stamp k) (second.stamp k),
    fun b => Nat.le_trans (first.done b) (second.done b)⟩

theorem View.le_join (v w : View Loc Agent) : View.Le v (v.join w) :=
  ⟨fun _ => Nat.le_max_left _ _, fun _ => Nat.le_max_left _ _⟩

theorem View.le_see [DecidableEq Loc] (v : View Loc Agent) (l : Loc) (i : Nat) :
    View.Le v (v.see l i) := by
  refine ⟨fun k => ?_, fun _ => Nat.le_refl _⟩
  by_cases same : k = l
  · subst same
    simp only [View.see, Function.update_self]
    exact Nat.le_max_left _ _
  · simp [View.see, same]

theorem View.le_know [DecidableEq Agent] (v : View Loc Agent) (a : Agent) (n : Nat) :
    View.Le v (v.know a n) := by
  refine ⟨fun _ => Nat.le_refl _, fun b => ?_⟩
  by_cases same : b = a
  · subst same
    simp only [View.know, Function.update_self]
    exact Nat.le_max_left _ _
  · simp [View.know, same]

@[simp] theorem see_stamp_self [DecidableEq Loc] (v : View Loc Agent) (l : Loc) (i : Nat) :
    (v.see l i).stamp l = max (v.stamp l) i := by
  simp [View.see]

@[simp] theorem see_stamp_other [DecidableEq Loc] (v : View Loc Agent) {k l : Loc} (i : Nat)
    (h : k ≠ l) : (v.see l i).stamp k = v.stamp k := by
  simp [View.see, h]

@[simp] theorem see_done [DecidableEq Loc] (v : View Loc Agent) (l : Loc) (i : Nat) :
    (v.see l i).done = v.done := rfl

@[simp] theorem know_done_self [DecidableEq Agent] (v : View Loc Agent) (a : Agent) (n : Nat) :
    (v.know a n).done a = max (v.done a) n := by
  simp [View.know]

@[simp] theorem know_done_other [DecidableEq Agent] (v : View Loc Agent) {a b : Agent} (n : Nat)
    (h : b ≠ a) : (v.know a n).done b = v.done b := by
  simp [View.know, h]

@[simp] theorem know_stamp [DecidableEq Agent] (v : View Loc Agent) (a : Agent) (n : Nat) :
    (v.know a n).stamp = v.stamp := rfl

end Views

section Rules

variable {Loc Agent Act : Type} {Val : Loc → Type} [DecidableEq Loc] [DecidableEq Agent]
  {m m' : Memory Loc Agent Act Val} {a : Agent} {l : Loc} {o : Order} {i : Nat} {x : Val l}

theorem load_eq_some : m.load a l o i = some (x, m') ↔
    (m.view a).stamp l ≤ i ∧ ∃ msg, (m.history l)[i]? = some msg ∧ msg.value = x ∧
      m.take a l o i msg.view = m' := by
  unfold Memory.load
  split
  · rename_i le
    simp [le]
  · rename_i gt
    simp [gt]

theorem load_isSome (seen : (m.view a).stamp l ≤ i) (bound : i < (m.history l).length) :
    ∃ x m', m.load a l o i = some (x, m') := by
  have at_i := List.getElem?_eq_getElem bound
  exact ⟨_, _, load_eq_some.mpr ⟨seen, _, at_i, rfl, rfl⟩⟩

/-- Reading again, without synchronizing, the last store already seen changes nothing. -/
theorem load_again {msg : Message Loc Agent (Val l)} (relaxed : o.acquires = false)
    (seen : (m.view a).stamp l = i) (at_i : (m.history l)[i]? = some msg) :
    m.load a l o i = some (msg.value, m) := by
  refine load_eq_some.mpr ⟨Nat.le_of_eq seen, msg, at_i, rfl, ?_⟩
  have same : (m.view a).see l i = m.view a := by
    rw [View.see, seen, Nat.max_self, ← seen, Function.update_eq_self]
  rw [Memory.take, relaxed]
  simp only [Bool.false_eq_true, if_false, same, Function.update_eq_self]

theorem load_history (h : m.load a l o i = some (x, m')) : m'.history = m.history := by
  obtain ⟨_, msg, _, _, rfl⟩ := load_eq_some.mp h
  rfl

theorem load_log (h : m.load a l o i = some (x, m')) : m'.log = m.log := by
  obtain ⟨_, msg, _, _, rfl⟩ := load_eq_some.mp h
  rfl

theorem load_value (h : m.load a l o i = some (x, m')) :
    (m.view a).stamp l ≤ i ∧ ∃ msg, (m.history l)[i]? = some msg ∧ msg.value = x := by
  obtain ⟨le, msg, at_i, value, _⟩ := load_eq_some.mp h
  exact ⟨le, msg, at_i, value⟩

theorem load_grows (h : m.load a l o i = some (x, m')) (b : Agent) :
    View.Le (m.view b) (m'.view b) := by
  obtain ⟨_, msg, _, _, rfl⟩ := load_eq_some.mp h
  by_cases same : b = a
  · subst same
    cases acq : o.acquires with
    | true => simpa [Memory.take, acq] using View.le_join (m.view b) msg.view
    | false => simpa [Memory.take, acq] using View.le_see (m.view b) l i
  · simpa [Memory.take, same] using View.Le.refl (m.view b)

theorem store_grows (b : Agent) : View.Le (m.view b) ((m.store a l o x).view b) := by
  by_cases same : b = a
  · subst same
    simpa [Memory.store] using View.le_see (m.view b) l (m.history l).length
  · simpa [Memory.store, same] using View.Le.refl (m.view b)

omit [DecidableEq Loc] in
theorem perform_grows (e : Act) (b : Agent) : View.Le (m.view b) ((m.perform a e).view b) := by
  by_cases same : b = a
  · subst same
    simpa [Memory.perform] using View.le_know (m.view b) b ((m.log b).length + 1)
  · simpa [Memory.perform, same] using View.Le.refl (m.view b)

@[simp] theorem store_history_self :
    (m.store a l o x).history l =
      m.history l ++ [⟨x, if o.releases then (m.view a).see l (m.history l).length
        else View.start.see l (m.history l).length⟩] := by
  simp [Memory.store]

@[simp] theorem store_history_other {k : Loc} (ne : k ≠ l) :
    (m.store a l o x).history k = m.history k := by
  simp [Memory.store, ne]

omit [DecidableEq Loc] in
@[simp] theorem perform_log_self (e : Act) : (m.perform a e).log a = m.log a ++ [e] := by
  simp [Memory.perform]

omit [DecidableEq Loc] in
@[simp] theorem perform_log_other (e : Act) {b : Agent} (ne : b ≠ a) :
    (m.perform a e).log b = m.log b := by
  simp [Memory.perform, ne]

omit [DecidableEq Loc] [DecidableEq Agent] in
theorem newest_eq {n : Nat} {msg : Message Loc Agent (Val l)}
    (length : (m.history l).length = n + 1) (last : (m.history l)[n]? = some msg) :
    m.newest l = some msg.value := by
  simp only [Memory.newest, List.getLast?_eq_getElem?, length, Nat.add_sub_cancel, last,
    Option.map_some]

/-- A message is never stamped older than its place in the history. -/
def Stamped (m : Memory Loc Agent Act Val) : Prop :=
  ∀ (l : Loc) (i : Nat) msg, (m.history l)[i]? = some msg → i ≤ msg.view.stamp l

structure All (Φ : View Loc Agent → Prop) (m : Memory Loc Agent Act Val) : Prop where
  agents : ∀ a, Φ (m.view a)
  messages : ∀ (l : Loc) (i : Nat) msg, (m.history l)[i]? = some msg → Φ msg.view

def JoinClosed (Φ : View Loc Agent → Prop) : Prop := ∀ v w, Φ v → Φ w → Φ (v.join w)

omit [DecidableEq Loc] [DecidableEq Agent] in
theorem All.mono {Φ Ψ : View Loc Agent → Prop} (all : All Φ m) (le : ∀ v, Φ v → Ψ v) :
    All Ψ m :=
  ⟨fun a => le _ (all.agents a), fun l i msg h => le _ (all.messages l i msg h)⟩

omit [DecidableEq Loc] [DecidableEq Agent] in
theorem all_start {Φ : View Loc Agent → Prop} (initial : (l : Loc) → Val l)
    (start : Φ View.start) : All Φ (Memory.start initial : Memory Loc Agent Act Val) := by
  refine ⟨fun _ => start, ?_⟩
  intro l i msg h
  have eq : msg = ⟨initial l, View.start⟩ := List.mem_singleton.mp (List.mem_of_getElem? h)
  exact eq ▸ start

omit [DecidableEq Loc] [DecidableEq Agent] in
theorem stamped_start (initial : (l : Loc) → Val l) :
    Stamped (Memory.start initial : Memory Loc Agent Act Val) := by
  intro l i msg h
  have lt : i < 1 := (List.getElem?_eq_some_iff.mp h).1
  omega

theorem Stamped.load (stamped : Stamped m) (h : m.load a l o i = some (x, m')) :
    Stamped m' := by
  intro k j msg at_j
  rw [load_history h] at at_j
  exact stamped k j msg at_j

theorem Stamped.store (stamped : Stamped m) : Stamped (m.store a l o x) := by
  intro k j msg at_j
  by_cases same : k = l
  · subst same
    rw [store_history_self] at at_j
    by_cases old : j < (m.history k).length
    · rw [List.getElem?_append_left old] at at_j
      exact stamped k j msg at_j
    · have bound := (List.getElem?_eq_some_iff.mp at_j).1
      have new : j = (m.history k).length := by
        simp only [List.length_append, List.length_singleton] at bound
        omega
      subst new
      simp only [List.getElem?_concat_length, Option.some.injEq] at at_j
      subst at_j
      cases o.releases <;>
        simp only [Bool.false_eq_true, if_false, if_true, see_stamp_self] <;>
        exact Nat.le_max_right _ _
  · rw [store_history_other same] at at_j
    exact stamped k j msg at_j

omit [DecidableEq Loc] in
theorem Stamped.perform (stamped : Stamped m) (e : Act) : Stamped (m.perform a e) := stamped

theorem All.load {Φ : View Loc Agent → Prop} (all : All Φ m) (closed : JoinClosed Φ)
    (h : m.load a l o i = some (x, m'))
    (known : o.acquires = true ∨ i = (m.view a).stamp l) : All Φ m' := by
  obtain ⟨_, msg, at_i, _, rfl⟩ := load_eq_some.mp h
  refine ⟨fun b => ?_, all.messages⟩
  by_cases same : b = a
  · subst same
    cases acq : o.acquires with
    | true =>
      simpa [Memory.take, acq] using closed _ _ (all.agents b) (all.messages l i msg at_i)
    | false =>
      rw [acq] at known
      have eq : i = (m.view b).stamp l := known.resolve_left Bool.false_ne_true
      have still : (m.view b).see l i = m.view b := by
        simp [View.see, eq]
      simpa [Memory.take, acq, still] using all.agents b
  · simpa [Memory.take, same] using all.agents b

theorem All.store {Φ : View Loc Agent → Prop} (all : All Φ m)
    (own : Φ ((m.view a).see l (m.history l).length)) (released : o.releases = true) :
    All Φ (m.store a l o x) := by
  constructor
  · intro b
    by_cases same : b = a
    · subst same
      simpa [Memory.store] using own
    · simpa [Memory.store, same] using all.agents b
  · intro k j msg at_j
    by_cases same : k = l
    · subst same
      rw [store_history_self, released] at at_j
      rcases List.mem_append.mp (List.mem_of_getElem? at_j) with old | new
      · obtain ⟨n, hn⟩ := List.mem_iff_getElem?.mp old
        exact all.messages k n msg hn
      · have eq := List.mem_singleton.mp new
        simpa [eq] using own
    · rw [store_history_other same] at at_j
      exact all.messages k j msg at_j

omit [DecidableEq Loc] in
theorem All.perform {Φ : View Loc Agent → Prop} (all : All Φ m) (e : Act)
    (own : Φ ((m.view a).know a ((m.log a).length + 1))) : All Φ (m.perform a e) := by
  refine ⟨fun b => ?_, all.messages⟩
  by_cases same : b = a
  · subst same
    simpa [Memory.perform] using own
  · simpa [Memory.perform, same] using all.agents b

theorem load_stamp (stamped : Stamped m) (h : m.load a l o i = some (x, m')) :
    i ≤ (m'.view a).stamp l := by
  obtain ⟨_, msg, at_i, _, rfl⟩ := load_eq_some.mp h
  have le := stamped l i msg at_i
  cases acq : o.acquires with
  | true =>
    simp only [Memory.take, acq, Function.update_self, if_true, View.join]
    omega
  | false =>
    simp only [Memory.take, acq, Function.update_self, Bool.false_eq_true, if_false,
      see_stamp_self]
    exact Nat.le_max_right _ _

/-- No view is ahead of the stores made. -/
def Grounded (m : Memory Loc Agent Act Val) : Prop :=
  All (fun v => ∀ l, v.stamp l < (m.history l).length) m

omit [DecidableEq Loc] [DecidableEq Agent] in
theorem grounded_start (initial : (l : Loc) → Val l) :
    Grounded (Memory.start initial : Memory Loc Agent Act Val) :=
  all_start initial fun _ => Nat.one_pos

theorem Grounded.load (grounded : Grounded m) (h : m.load a l o i = some (x, m')) :
    Grounded m' := by
  obtain ⟨_, msg, at_i, _, rfl⟩ := load_eq_some.mp h
  have bound := (List.getElem?_eq_some_iff.mp at_i).1
  refine ⟨fun b k => ?_, grounded.messages⟩
  have old := grounded.agents b k
  by_cases same : b = a
  · subst same
    cases acq : o.acquires with
    | true =>
      have read := grounded.messages l i msg at_i k
      simp only [Memory.take, acq, if_true, Function.update_self, View.join]
      omega
    | false =>
      by_cases here : k = l
      · subst here
        simp only [Memory.take, acq, Bool.false_eq_true, if_false, Function.update_self,
          see_stamp_self]
        omega
      · simpa [Memory.take, acq, here] using old
  · simpa [Memory.take, same] using old

theorem Grounded.store (grounded : Grounded m) : Grounded (m.store a l o x) := by
  have longer : ∀ k, (m.history k).length ≤ ((m.store a l o x).history k).length := by
    intro k
    by_cases here : k = l
    · subst here
      simp
    · exact Nat.le_of_eq (by rw [store_history_other here])
  -- the only new stamp is that of the store itself
  have seen : ∀ (v : View Loc Agent), (∀ k, v.stamp k < (m.history k).length) →
      ∀ k, (v.see l (m.history l).length).stamp k < ((m.store a l o x).history k).length := by
    intro v below k
    have old := below k
    by_cases here : k = l
    · subst here
      simp only [see_stamp_self, store_history_self, List.length_append, List.length_singleton]
      omega
    · rw [see_stamp_other v _ here, store_history_other here]
      exact old
  have start : ∀ k, (View.start : View Loc Agent).stamp k < (m.history k).length := fun k =>
    Nat.lt_of_le_of_lt (Nat.zero_le _) (grounded.agents a k)
  constructor
  · intro b k
    by_cases same : b = a
    · subst same
      simpa [Memory.store] using seen _ (grounded.agents b) k
    · have old := Nat.lt_of_lt_of_le (grounded.agents b k) (longer k)
      simpa [Memory.store, same] using old
  · intro k j msg at_j
    by_cases here : k = l
    · subst here
      rw [store_history_self] at at_j
      rcases List.mem_append.mp (List.mem_of_getElem? at_j) with old | new
      · obtain ⟨n, hn⟩ := List.mem_iff_getElem?.mp old
        exact fun k' => Nat.lt_of_lt_of_le (grounded.messages k n msg hn k') (longer k')
      · rw [List.mem_singleton.mp new]
        cases o.releases with
        | true => exact seen _ (grounded.agents a)
        | false => exact seen _ start
    · rw [store_history_other here] at at_j
      exact fun k' => Nat.lt_of_lt_of_le (grounded.messages k j msg at_j k') (longer k')

omit [DecidableEq Loc] in
theorem Grounded.perform (grounded : Grounded m) (e : Act) : Grounded (m.perform a e) := by
  refine ⟨fun b k => ?_, grounded.messages⟩
  have old := grounded.agents b k
  by_cases same : b = a
  · subst same
    simpa [Memory.perform] using old
  · simpa [Memory.perform, same] using old

theorem Grounded.readable (grounded : Grounded m) (a : Agent) (l : Loc) (o : Order) :
    ∃ x m', m.load a l o ((m.history l).length - 1) = some (x, m') := by
  have below := grounded.agents a l
  exact load_isSome (by omega) (by omega)

/-- Each location is stored to by its owner alone: a message carries its own place in the
history and nothing that its owner does not know now. -/
structure Owned (owner : Loc → Agent) (m : Memory Loc Agent Act Val) : Prop where
  grounded : Grounded m
  stamp : ∀ (l : Loc) (i : Nat) msg, (m.history l)[i]? = some msg → msg.view.stamp l = i
  below : ∀ (l : Loc) msg, msg ∈ m.history l → View.Le msg.view (m.view (owner l))

variable {owner : Loc → Agent}

theorem Owned.load (owned : Owned owner m) (h : m.load a l o i = some (x, m')) :
    Owned owner m' where
  grounded := owned.grounded.load h
  stamp := by
    rw [load_history h]
    exact owned.stamp
  below k msg mem := by
    rw [load_history h] at mem
    exact (owned.below k msg mem).trans (load_grows h (owner k))

omit [DecidableEq Loc] in
theorem Owned.perform (owned : Owned owner m) (e : Act) : Owned owner (m.perform a e) where
  grounded := owned.grounded.perform e
  stamp := owned.stamp
  below k msg mem := (owned.below k msg mem).trans (perform_grows e (owner k))

theorem Owned.store (owned : Owned owner m) (mine : owner l = a) (released : o.releases = true) :
    Owned owner (m.store a l o x) := by
  refine ⟨owned.grounded.store, ?_, ?_⟩
  · intro k j msg at_j
    by_cases here : k = l
    · subst here
      rw [store_history_self, released] at at_j
      rcases Nat.lt_or_ge j (m.history k).length with old | new
      · rw [List.getElem?_append_left old] at at_j
        exact owned.stamp k j msg at_j
      · rw [List.getElem?_append_right new, List.getElem?_singleton] at at_j
        have below := owned.grounded.agents a k
        split at at_j
        · cases at_j
          simp only [if_true, see_stamp_self]
          omega
        · cases at_j
    · rw [store_history_other here] at at_j
      exact owned.stamp k j msg at_j
  · intro k msg mem
    by_cases here : k = l
    · subst here
      rw [store_history_self, released] at mem
      rcases List.mem_append.mp mem with old | new
      · exact (owned.below k msg old).trans (store_grows (owner k))
      · rw [List.mem_singleton.mp new, mine]
        simpa [Memory.store] using View.Le.refl ((m.view a).see k (m.history k).length)
    · rw [store_history_other here] at mem
      exact (owned.below k msg mem).trans (store_grows (owner k))

theorem load_view_other (h : m.load a l o i = some (x, m')) {b : Agent} (ne : b ≠ a) :
    m'.view b = m.view b := by
  obtain ⟨_, msg, _, _, rfl⟩ := load_eq_some.mp h
  simp [Memory.take, ne]

theorem Owned.load_stamp (owned : Owned owner m) (h : m.load a l o i = some (x, m')) :
    (m'.view a).stamp l = i := by
  obtain ⟨le, msg, at_i, _, rfl⟩ := load_eq_some.mp h
  have stamp := owned.stamp l i msg at_i
  cases acq : o.acquires with
  | true => simpa [Memory.take, acq, View.join, stamp] using Nat.max_eq_right le
  | false => simpa [Memory.take, acq] using Nat.max_eq_right le

theorem Owned.load_own (owned : Owned owner m) (h : m.load a l o i = some (x, m'))
    (mine : owner l = a) (k : Loc) : (m'.view a).stamp k = (m.view a).stamp k := by
  have seen := owned.load_stamp h
  obtain ⟨le, msg, at_i, _, rfl⟩ := load_eq_some.mp h
  have below := owned.below l msg (List.mem_of_getElem? at_i)
  rw [mine] at below
  have stamp := owned.stamp l i msg at_i
  have known := below.stamp k
  have same := below.stamp l
  cases acq : o.acquires with
  | true => simpa [Memory.take, acq, View.join] using Nat.max_eq_left known
  | false =>
    by_cases here : k = l
    · subst here
      rw [seen]
      omega
    · simp [Memory.take, acq, here]

end Rules

end ReleaseAcquire
