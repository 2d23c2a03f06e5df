import RingBuffers.Spsc.Sequential

/-! Every slack-slot class answers a client as the bounded queue does, with the same
cursors after every call. So no optimisation changes what a client observes. -/
namespace RingBuffers.Spsc
open BoundedQueue

variable {α : Type}

/-- The answers of a session, each with `pushCursor_` and `popCursor_` after the call. -/
def observe (r : Ring) : Buffer α → List (Call α) → Except Stop (List (Answer α × Nat × Nat))
  | _, [] => .ok []
  | b, k :: ks => match perform r b k with
    | .error stop => .error stop
    | .ok (a, b) => (observe r b ks).map ((a, b.pushCursor, b.popCursor) :: ·)

structure Represents {r : Ring} (e : Encoding r) (b : Buffer α) (c : Client α) : Prop where
  holds : ∃ x y, Holds e b x y ∧ (c.held = true → b.consumed.length < y)
  queue : b.queue = c.queue
  closed : b.closed = c.closed

def accepted : Call α → Answer α → List α
  | .push v, _ => [v]
  | .tryPush v, .pushed true => [v]
  | _, _ => []

def removed (c : Client α) : Call α → List α
  | .pop => c.queue.take 1
  | _ => []

def Session.client (x : Session α) : Client α := ⟨x.buffer.queue, x.buffer.closed, x.held⟩

section Session

variable {r r₀ : Ring} {e : Encoding r} {e₀ : Encoding r₀} {b b₀ : Buffer α} {c c' : Client α}
  {k : Call α} {a : Answer α}

theorem heldAfter_eq {m : Nat} (answers : c.perform m k = some (a, c'))
    (held : c.held = true → c.queue ≠ []) : heldAfter c.held k a = c'.held := by
  cases k with
  | push v =>
    simp only [Client.perform] at answers
    split at answers
    · cases answers
      rfl
    · cases answers
  | tryPush v =>
    simp only [Client.perform] at answers
    split at answers
    · cases answers
      rfl
    · cases answers
      rfl
  | front =>
    cases answers
    cases holding : c.held with
    | false => rfl
    | true =>
      cases queue : c.queue with
      | nil => exact absurd queue (held holding)
      | cons v rest => rfl
  | pop =>
    simp only [Client.perform] at answers
    split at answers
    · cases answers
      rfl
    · cases answers
  | close | closed | capacity =>
    cases answers
    rfl

theorem represents_start (e : Encoding r) : Represents e (Buffer.start α) (Client.start α) where
  holds := ⟨0, 0, holds_start e, by intro impossible; cases impossible⟩
  queue := rfl
  closed := rfl

theorem Represents.pushed (rep : Represents e b c) {b' : Buffer α} {v : α}
    (after : ∃ x y, Holds e b' x y ∧ (c.held = true → b'.consumed.length < y))
    (pushed : b'.pushed = b.pushed ++ [v]) (consumed : b'.consumed = b.consumed)
    (closed : b'.closed = b.closed) : Represents e b' { c with queue := c.queue ++ [v] } where
  holds := after
  queue := by
    obtain ⟨x, y, holds, _⟩ := rep.holds
    rw [queue_push pushed consumed (holds.covered.trans holds.ahead), rep.queue]
  closed := closed.trans rep.closed

theorem Represents.perform_eq (rep : Represents e b c) (size : r.capacity = e.bound)
    (answers : c.perform e.bound k = some (a, c')) :
    ∃ b', perform r b k = .ok (a, b') ∧ Represents e b' c' ∧
      b'.pushed = b.pushed ++ accepted k a ∧ b'.consumed = b.consumed ++ removed c k := by
  obtain ⟨x, y, holds, covered⟩ := rep.holds
  have queue := rep.queue
  have bounded := holds.bounded
  cases k with
  | push v =>
    simp only [Client.perform] at answers
    split at answers
    · rename_i room
      cases answers
      obtain ⟨x', b', done, after, pushed, consumed, closed⟩ :=
        emplace_room holds (queue ▸ room) v
      refine ⟨b', by rw [perform, done]; rfl, ?_, pushed, ?_⟩
      · exact rep.pushed ⟨x', y, after, consumed ▸ covered⟩ pushed consumed closed
      · exact consumed.trans (List.append_nil _).symm
    · cases answers
  | tryPush v =>
    simp only [Client.perform] at answers
    split at answers
    · rename_i room
      cases answers
      obtain ⟨x', b', done, after, pushed, consumed, closed⟩ :=
        tryEmplace_room holds (queue ▸ room) v
      refine ⟨b', by rw [perform, done]; rfl, ?_, pushed, ?_⟩
      · exact rep.pushed ⟨x', y, after, consumed ▸ covered⟩ pushed consumed closed
      · exact consumed.trans (List.append_nil _).symm
    · rename_i full
      cases answers
      rw [← queue] at full
      obtain ⟨x', cache, refused, after⟩ := tryEmplace_full holds (by omega) v
      refine ⟨{ b with popCursorCache := cache }, by rw [perform, refused]; rfl,
        ⟨⟨x', y, after, covered⟩, queue, rep.closed⟩, ?_, ?_⟩
      · exact (List.append_nil _).symm
      · exact (List.append_nil _).symm
  | front =>
    cases answers
    obtain ⟨cache, y', answer, after, _, covers⟩ := front_eq holds
    refine ⟨{ b with pushCursorCache := cache }, ?_, ⟨⟨x, y', after, ?_⟩, queue, rep.closed⟩,
      (List.append_nil _).symm, (List.append_nil _).symm⟩
    · rw [perform, answer, ← queue]
      by_cases empty : b.queue = []
      · simp only [if_pos empty]
        rw [empty]
        rfl
      · have some_left : b.consumed.length < b.pushed.length :=
          Nat.lt_of_lt_of_le (covers empty) after.ahead
        obtain ⟨v, head, live⟩ := holds.oldest some_left
        simp only [if_neg empty, live, head]
    · intro held
      refine covers fun empty => ?_
      rw [← queue, empty] at held
      cases held
  | pop =>
    simp only [Client.perform] at answers
    split at answers
    · rename_i held
      cases answers
      obtain ⟨v, b', done, after, head, pushed, consumed, closed⟩ := pop_eq holds (covered held)
      have split := queue_pop head pushed consumed
      have first : c.queue = v :: b'.queue := queue.symm.trans split
      refine ⟨b', by rw [perform, done]; rfl, ⟨⟨x, y, after, by intro h; cases h⟩, ?_, ?_⟩, ?_, ?_⟩
      · simp only [first, List.tail_cons]
      · exact closed.trans rep.closed
      · exact pushed.trans (List.append_nil _).symm
      · rw [consumed, removed, first]
        rfl
    · cases answers
  | close =>
    cases answers
    exact ⟨close b, rfl, ⟨⟨x, y, { holds with }, covered⟩, queue, rfl⟩,
      (List.append_nil _).symm, (List.append_nil _).symm⟩
  | closed =>
    cases answers
    exact ⟨b, by rw [perform, rep.closed], rep, (List.append_nil _).symm,
      (List.append_nil _).symm⟩
  | capacity =>
    cases answers
    exact ⟨b, by rw [perform, size], rep, (List.append_nil _).symm, (List.append_nil _).symm⟩

theorem observe_agree (e : Encoding r) (e₀ : Encoding r₀) (size : r.capacity = e.bound)
    (size₀ : r₀.capacity = e₀.bound) (bound : e₀.bound = e.bound)
    (cursor : e₀.cursor = e.cursor) (ks : List (Call α))
    (rep : Represents e b c) (rep₀ : Represents e₀ b₀ c) (pushed : b₀.pushed = b.pushed)
    (consumed : b₀.consumed = b.consumed) {as : List (Answer α)}
    (valid : c.session e.bound ks = some as) :
    ∃ seen, observe r b ks = .ok seen ∧ observe r₀ b₀ ks = .ok seen ∧ seen.map Prod.fst = as := by
  induction ks generalizing b b₀ c as with
  | nil =>
    cases valid
    exact ⟨[], rfl, rfl, rfl⟩
  | cons k ks ih =>
    rw [Client.session] at valid
    split at valid
    · cases valid
    · rename_i a c' answers
      obtain ⟨rest, tail, rfl⟩ := Option.map_eq_some_iff.mp valid
      obtain ⟨b', done, rep', grew, shrank⟩ := rep.perform_eq size answers
      obtain ⟨b₀', done₀, rep₀', grew₀, shrank₀⟩ :=
        rep₀.perform_eq size₀ (by rw [bound]; exact answers)
      have pushed' : b₀'.pushed = b'.pushed := by rw [grew₀, grew, pushed]
      have consumed' : b₀'.consumed = b'.consumed := by rw [shrank₀, shrank, consumed]
      obtain ⟨seen, all, all₀, same⟩ := ih rep' rep₀' pushed' consumed' tail
      obtain ⟨_, _, holds, _⟩ := rep'.holds
      obtain ⟨_, _, holds₀, _⟩ := rep₀'.holds
      have push : b₀'.pushCursor = b'.pushCursor := by
        rw [holds₀.pushCursor, holds.pushCursor, cursor, pushed']
      have pop : b₀'.popCursor = b'.popCursor := by
        rw [holds₀.popCursor, holds.popCursor, cursor, consumed']
      refine ⟨(a, b'.pushCursor, b'.popCursor) :: seen, ?_, ?_, by rw [List.map_cons, same]⟩
      · rw [observe, done]
        simp only [all]
        rfl
      · rw [observe, done₀]
        simp only [all₀, push, pop]
        rfl

end Session

/-- Every optimisation stage and isolated variant with a slack slot behaves as the baseline:
in a session that keeps the contract all calls return, with the answers and the cursors the
baseline gives, and the answers are those of a queue bounded by `n`. -/
theorem variants_preserve_baseline (env : Environment) (n : Nat) (c : Class)
    (member : c ∈ slackClasses) (r r₀ : Ring) (made : c.construct env n = .ok r)
    (made₀ : spscBufferBaseline.construct env n = .ok r₀) (fits : c.Fits env n)
    (ks : List (Call α)) (as : List (Answer α))
    (valid : (Client.start α).session n ks = some as) :
    ∃ seen, observe r (Buffer.start α) ks = .ok seen ∧
      observe r₀ (Buffer.start α) ks = .ok seen ∧ seen.map Prod.fst = as := by
  have slack := slackClasses_slack c member
  have slack₀ : spscBufferBaseline.Slack := .inl rfl
  have fits₀ : spscBufferBaseline.Fits env n := fits.capacity
  exact observe_agree (slack.encoding made fits.capacity)
    (slack₀.encoding made₀ fits.capacity) (slack.capacity_eq made fits)
    (slack₀.capacity_eq made₀ fits₀) rfl rfl ks (represents_start _) (represents_start _) rfl rfl
    valid

/-- Four laps of a buffer of capacity one, with a refused push and a null front. -/
def laps : List (Call Nat) :=
  [.capacity, .front, .push 1, .tryPush 2, .front, .pop, .front, .tryPush 3, .front, .pop,
    .push 4, .close, .front, .front, .pop, .closed, .push 5, .front]

theorem variants_preserve_baseline_at_one : ∃ seen,
    observe (spscBuffer.ring .desktop 1) (Buffer.start Nat) laps = .ok seen ∧
      observe (spscBufferBaseline.ring .desktop 1) (Buffer.start Nat) laps = .ok seen ∧
      seen.map Prod.fst = [.capacity 1, .front none, .done, .pushed false, .front (some 1), .done,
        .front none, .pushed true, .front (some 3), .done, .done, .done, .front (some 4),
        .front (some 4), .done, .closed true, .done, .front (some 5)] :=
  variants_preserve_baseline .desktop 1 spscBuffer List.mem_cons_self _ _ rfl rfl (by decide) laps _
    (by decide)

end RingBuffers.Spsc
