import RingBuffers.Library.Transition
import RingBuffers.Spsc.MonoModulus
import RingBuffers.Spsc.Variants

/-! What wrapping does to the class that takes the remainder of a counting cursor. The buffer stays
a queue as long as no push lands on an element still stored; the push that does overwrites it. -/
namespace RingBuffers.Spsc
open BoundedQueue Transition

variable {α : Type}

structure Tracks (m : Nat) (b : Buffer α) (c : Client α) : Prop where
  counts : Counts m b
  queue : b.queue = c.queue
  closed : b.closed = c.closed
  held : c.held = true → c.queue ≠ []

def pushCalls (ks : List (Call α)) : Nat :=
  ks.countP fun
    | .push _ | .tryPush _ => true
    | _ => false

def findsFree (m : Nat) (b : Buffer α) : Call α → Prop
  | .push _ | .tryPush _ => b.queue.length < m → ¬ Clash m b.pushed.length b.queue.length
  | _ => True

instance decidableFindsFree (m : Nat) (b : Buffer α) : ∀ k : Call α, Decidable (findsFree m b k)
  | .push _ | .tryPush _ => inferInstanceAs (Decidable (b.queue.length < m →
      ¬ Clash m b.pushed.length b.queue.length))
  | .front | .pop | .capacity | .close | .closed => inferInstanceAs (Decidable True)

section Tracking

variable {r : Ring} {m : Nat} {b : Buffer α} {c c' : Client α} {k : Call α} {a : Answer α}

theorem tracks_start (m : Nat) : Tracks m (Buffer.start α) (Client.start α) :=
  ⟨counts_start m, rfl, rfl, by intro impossible; cases impossible⟩

theorem Tracks.pushed (tracks : Tracks m b c) {b' : Buffer α} {v : α} (counts : Counts m b')
    (pushed : b'.pushed = b.pushed ++ [v]) (consumed : b'.consumed = b.consumed)
    (closed : b'.closed = b.closed) : Tracks m b' { c with queue := c.queue ++ [v] } where
  counts := counts
  queue := by rw [queue_push pushed consumed tracks.counts.ordered, tracks.queue]
  closed := closed.trans tracks.closed
  held := by simp

theorem Tracks.perform_eq (tracks : Tracks m b c) (shape : Remainder m r)
    (answers : c.perform m k = some (a, c')) (free : findsFree m b k)
    (other : k ≠ .capacity) :
    ∃ b', perform r b k = .ok (a, b') ∧ Tracks m b' c' ∧
      b'.pushed = b.pushed ++ accepted k a := by
  have queue := tracks.queue
  have bounded := tracks.counts.queue_le
  cases k with
  | push v =>
    simp only [Client.perform] at answers
    split at answers
    · rename_i room
      cases answers
      rw [← queue] at room
      obtain ⟨b', done, counts, pushed, consumed, closed⟩ :=
        tracks.counts.emplace_room shape room (free room) v
      exact ⟨b', by rw [perform, done]; rfl, tracks.pushed counts pushed consumed closed, pushed⟩
    · cases answers
  | tryPush v =>
    simp only [Client.perform] at answers
    split at answers
    · rename_i room
      cases answers
      rw [← queue] at room
      obtain ⟨b', done, counts, pushed, consumed, closed⟩ :=
        tracks.counts.tryEmplace_room shape room (free room) v
      exact ⟨b', by rw [perform, done]; rfl, tracks.pushed counts pushed consumed closed, pushed⟩
    · rename_i full
      cases answers
      rw [← queue] at full
      refine ⟨{ b with popCursorCache := b.popCursor }, ?_, ?_, (List.append_nil _).symm⟩
      · rw [perform, tracks.counts.tryEmplace_full shape (by omega)]
        rfl
      · exact ⟨tracks.counts.recorded _, queue, tracks.closed, tracks.held⟩
  | front =>
    cases answers
    refine ⟨{ b with pushCursorCache := b.pushCursor }, ?_, ?_, (List.append_nil _).symm⟩
    · rw [perform, tracks.counts.front_eq shape, ← queue]
      by_cases empty : b.queue = []
      · simp only [if_pos empty]
        rw [empty]
        rfl
      · obtain ⟨v, head, live⟩ := tracks.counts.oldest empty
        simp only [if_neg empty, live, head]
    · refine ⟨{ tracks.counts with }, queue, tracks.closed, ?_⟩
      intro held empty
      rw [empty] at held
      cases held
  | pop =>
    simp only [Client.perform] at answers
    split at answers
    · rename_i held
      cases answers
      have some_left : b.queue ≠ [] := queue ▸ tracks.held held
      obtain ⟨v, b', done, counts, head, pushed, consumed, closed⟩ :=
        tracks.counts.pop_eq shape some_left
      have split := queue_pop head pushed consumed
      refine ⟨b', by rw [perform, done]; rfl, ⟨counts, ?_, closed.trans tracks.closed, ?_⟩, ?_⟩
      · rw [← queue, split, List.tail_cons]
      · intro impossible
        cases impossible
      · rw [pushed]
        exact (List.append_nil _).symm
    · cases answers
  | close =>
    cases answers
    exact ⟨close b, rfl, ⟨{ tracks.counts with }, queue, rfl, tracks.held⟩,
      (List.append_nil _).symm⟩
  | closed =>
    cases answers
    exact ⟨b, by rw [perform, tracks.closed], tracks, (List.append_nil _).symm⟩
  | capacity => exact absurd rfl other

theorem Tracks.perform_clash (tracks : Tracks m b c) (shape : Remainder m r) {v : α}
    (lost : ¬ findsFree m b (.tryPush v)) :
    perform r b (.tryPush v) = .error (.fault .constructOnLive) := by
  simp only [findsFree, not_forall, not_not] at lost
  obtain ⟨room, clash⟩ := lost
  rw [perform, tracks.counts.tryEmplace_clash shape room clash]
  rfl

end Tracking

/-- A client that pushes with `try_push` only and pops what `front` has shown. -/
def triesOnly (x : Session α) : Call α → Bool
  | .push _ => false
  | .pop => x.held
  | _ => true

/-- Stored elements lie in slots of their own, and `front` designates the oldest. -/
structure SlotsExact (r : Ring) (b : Buffer α) : Prop where
  stored : ∀ k v, b.consumed.length ≤ k → b.pushed[k]? = some v →
    (r.slot (k % sizeModulus)).bind b.slots = some v
  distinct : ∀ j k, b.consumed.length ≤ j → j < k → k < b.pushed.length →
    r.slot (j % sizeModulus) ≠ r.slot (k % sizeModulus)
  null : b.queue = [] → ∃ b', front r b = .ok (none, b')
  oldest : b.queue ≠ [] → ∃ i v b', front r b = .ok (some i, b') ∧ b.queue.head? = some v ∧
    b.slots i = some v

section Sessions

variable {r : Ring} {m : Nat} {x y : Session α} {k : Call α}

theorem Counts.slotsExact {b : Buffer α} (counts : Counts m b) (shape : Remainder m r) :
    SlotsExact r b where
  stored k v first present := by
    rw [shape.slot_wrapped, Option.bind_some]
    exact counts.laid.at first present
  distinct j k first lt last := by
    rw [shape.slot_wrapped, shape.slot_wrapped]
    exact fun same => counts.distinct j k first lt last (Option.some.inj same)
  null empty := ⟨_, by rw [counts.front_eq shape, if_pos empty]⟩
  oldest some_left := by
    obtain ⟨v, head, live⟩ := counts.oldest some_left
    exact ⟨_, v, _, by rw [counts.front_eq shape, if_neg some_left], head, live⟩

theorem triesOnly_performs (kept : triesOnly x k = true) :
    ∃ a c', x.client.perform m k = some (a, c') := by
  cases k with
  | push v => cases kept
  | tryPush v =>
    simp only [Client.perform]
    split
    · exact ⟨_, _, rfl⟩
    · exact ⟨_, _, rfl⟩
  | pop =>
    have held : x.client.held = true := kept
    refine ⟨.done, ⟨x.client.queue.tail, x.client.closed, false⟩, ?_⟩
    simp only [Client.perform, held, if_true]
  | front | close | closed | capacity => exact ⟨_, _, rfl⟩

theorem Session.step_eq (shape : Remainder m r) (tracks : Tracks m x.buffer x.client)
    {a : Answer α} {c' : Client α} (answers : x.client.perform m k = some (a, c'))
    (free : findsFree m x.buffer k) :
    ∃ y, x.step r k = some y ∧ Tracks m y.buffer y.client ∧ y.client = c' ∧
      y.buffer.pushed = x.buffer.pushed ++ accepted k a := by
  by_cases capacity : k = .capacity
  · subst capacity
    cases answers
    exact ⟨x, rfl, tracks, rfl, (List.append_nil _).symm⟩
  · obtain ⟨b', done, after, pushed⟩ := tracks.perform_eq shape answers free capacity
    have client : Session.client ⟨b', heldAfter x.held k a⟩ = c' := by
      have held : heldAfter x.held k a = c'.held := heldAfter_eq answers tracks.held
      rw [Session.client, after.queue, after.closed, held]
    refine ⟨⟨b', heldAfter x.held k a⟩, ?_, client ▸ after, client, pushed⟩
    rw [Session.step, Session.call, done]
    rfl

theorem Session.step_cases (shape : Remainder m r) (tracks : Tracks m x.buffer x.client)
    (kept : triesOnly x k = true) :
    (findsFree m x.buffer k ∧ ∃ y, x.step r k = some y ∧ Tracks m y.buffer y.client) ∨
      (¬ findsFree m x.buffer k ∧ x.step r k = none) := by
  by_cases free : findsFree m x.buffer k
  · obtain ⟨a, c', answers⟩ := triesOnly_performs (m := m) kept
    obtain ⟨y, done, after, _⟩ := Session.step_eq shape tracks answers free
    exact .inl ⟨free, y, done, after⟩
  · refine .inr ⟨free, ?_⟩
    cases k with
    | tryPush v =>
      rw [Session.step, Session.call, tracks.perform_clash shape free]
      rfl
    | push v => cases kept
    | front | pop | close | closed | capacity => exact absurd trivial free

def rounds (v : α) : Nat → List (Call α)
  | 0 => []
  | k + 1 => .tryPush v :: .front :: .pop :: rounds v k

theorem rounds_run (shape : Remainder m r) (tracks : Tracks m x.buffer x.client)
    (empty : x.buffer.queue = []) (v : α) (k : Nat)
    (early : x.buffer.pushed.length + k ≤ sizeModulus) :
    ∃ y, Run (Session.step r) (fun x k => triesOnly x k = true) x (rounds v k) y ∧
      Tracks m y.buffer y.client ∧ y.buffer.queue = [] ∧
      y.buffer.pushed.length = x.buffer.pushed.length + k := by
  induction k generalizing x with
  | zero => exact ⟨x, Run.nil x, tracks, empty, rfl⟩
  | succ k ih =>
    have pos := shape.pos
    have pushes : x.client.perform m (.tryPush v) =
        some (.pushed true, { x.client with queue := [v] }) := by
      simp [Client.perform, Session.client, empty, pos]
    obtain ⟨x₁, step₁, tracks₁, client₁, pushed₁⟩ := Session.step_eq shape tracks pushes
      (fun _ => no_clash (by omega))
    have shows : x₁.client.perform m .front =
        some (.front (some v), { x₁.client with held := true }) := by
      rw [client₁]
      rfl
    obtain ⟨x₂, step₂, tracks₂, client₂, pushed₂⟩ := Session.step_eq shape tracks₁ shows trivial
    have pops : x₂.client.perform m .pop =
        some (.done, { x₂.client with queue := [], held := false }) := by
      rw [client₂, client₁]
      rfl
    obtain ⟨x₃, step₃, tracks₃, client₃, pushed₃⟩ := Session.step_eq shape tracks₂ pops trivial
    have length : x₃.buffer.pushed.length = x.buffer.pushed.length + 1 := by
      rw [pushed₃, pushed₂, pushed₁]
      simp [accepted]
    have none_left : x₃.buffer.queue = [] := congrArg Client.queue client₃
    have held : x₂.held = true := congrArg Client.held client₂
    obtain ⟨y, run, after, nothing, total⟩ := ih tracks₃ none_left (by omega)
    have lap : Run (Session.step r) (fun x k => triesOnly x k = true) x (rounds v (k + 1)) y :=
      Run.cons rfl step₁ (Run.cons rfl step₂ (Run.cons held step₃ run))
    exact ⟨y, lap, after, nothing, by omega⟩

end Sessions

/-- `SPSCBufferMonoModulus(n)` stays a queue across the end of `std::size_t` exactly as long as
no push that wraps meets an element stored 2^64 % (`n` + 1) pushes ago. -/
theorem mono_modulus_fifo_iff (env : Environment) (n : Nat) (r : Ring)
    (made : spscBufferMonoModulus.construct env n = .ok r) (fits : n + 1 < sizeModulus)
    (ks : List (Call α))
    (kept : Along (Session.step r) (fun x k => triesOnly x k = true) (Session.start α) ks) :
    Along (Session.step r) (fun x k => SlotsExact r x.buffer ∧ (x.step r k).isSome = true)
        (Session.start α) ks ↔
      Along (Session.step r) (fun x k => findsFree (n + 1) x.buffer k) (Session.start α) ks := by
  have shape := remainder_of_construct made fits
  refine along_iff (fun x => Tracks (n + 1) x.buffer x.client) _ _ ?_ ?_
    (tracks_start (n + 1)) kept
  · intro x k y tracks admitted h
    rcases x.step_cases shape tracks admitted with ⟨_, z, done, after⟩ | ⟨_, lost⟩
    · rw [done] at h
      cases h
      exact after
    · rw [lost] at h
      cases h
  · intro x k tracks admitted
    have exact_slots := tracks.counts.slotsExact shape
    rcases x.step_cases shape tracks admitted with ⟨free, z, done, _⟩ | ⟨taken, lost⟩
    · simp only [exact_slots, done, free, Option.isSome_some, and_self]
    · simp only [lost, taken, Option.isSome_none, Bool.false_eq_true, and_false]

def shortSession : List (Call Nat) :=
  [.tryPush 1, .tryPush 2, .front, .pop, .tryPush 3, .front, .pop, .front, .pop, .front]

theorem mono_modulus_fifo_at_two :
    Along (Session.step (spscBufferMonoModulus.ring .desktop 2)) (fun x k =>
      SlotsExact (spscBufferMonoModulus.ring .desktop 2) x.buffer ∧
        (x.step (spscBufferMonoModulus.ring .desktop 2) k).isSome = true)
      (Session.start Nat) shortSession :=
  (mono_modulus_fifo_iff .desktop 2 _ rfl (by decide) shortSession (by decide)).mpr (by decide)

/-- After 2^64 - 1 elements have come and gone, the last cursor before the end and the first
after it both leave the remainder 0 by 3. -/
def straddling : List (Call Nat) := rounds 7 (2 ^ 64 - 1) ++ [.tryPush 8, .tryPush 9]

theorem mono_modulus_overwrites : ¬ ∀ r : Ring,
    spscBufferMonoModulus.construct .desktop 2 = .ok r →
    Along (Session.step r) (fun x k => triesOnly x k = true) (Session.start Nat) straddling →
    Along (Session.step r) (fun x k => SlotsExact r x.buffer ∧ (x.step r k).isSome = true)
      (Session.start Nat) straddling := by
  intro stays
  have shape : Remainder 3 (spscBufferMonoModulus.ring .desktop 2) :=
    @remainder_of_construct .desktop 2 _ rfl (by decide)
  obtain ⟨y, run, tracks, empty, length⟩ :=
    rounds_run (x := Session.start Nat) shape (tracks_start 3) rfl 7 (2 ^ 64 - 1) (by decide)
  have first : y.client.perform 3 (.tryPush 8) =
      some (.pushed true, { y.client with queue := [8] }) := by
    simp [Client.perform, Session.client, empty]
  have last : y.buffer.pushed.length = sizeModulus - 1 := length
  obtain ⟨z, step, tracks', client, pushed⟩ := Session.step_eq shape tracks first
    (fun _ => no_clash (by rw [last]; decide))
  have full_lap : z.buffer.pushed.length = sizeModulus := by
    rw [pushed, List.length_append, last]
    rfl
  have stored : z.buffer.queue.length = 1 := congrArg (fun c => c.queue.length) client
  have taken : ¬ findsFree 3 z.buffer (.tryPush 9) := by
    simp only [findsFree, full_lap, stored]
    decide
  have kept : Along (Session.step (spscBufferMonoModulus.ring .desktop 2))
      (fun x k => triesOnly x k = true) (Session.start Nat) straddling := by
    refine (along_append _ _ _ _).mpr ⟨run.obeys, ?_⟩
    intro t ends
    cases Option.some.inj (run.ends.symm.trans ends)
    refine ⟨rfl, ?_⟩
    rw [step]
    exact ⟨rfl, by split <;> trivial⟩
  have along := ((along_append _ _ _ _).mp (stays _ rfl kept)).2 y run.ends
  have rest := along.2
  rw [step] at rest
  have cases_of_last := Session.step_cases (k := .tryPush 9) shape tracks' rfl
  rcases cases_of_last with ⟨free, _⟩ | ⟨_, lost⟩
  · exact taken free
  · have returns := rest.1.2
    rw [lost] at returns
    cases returns

end RingBuffers.Spsc
