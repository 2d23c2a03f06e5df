import RingBuffers.Spsc.Variants
import RingBuffers.Mutex.Sequential

/-! `MutexBuffer` and `SPSCBuffer` in the hands of one client. Their cursors wrap at different
lengths and are never compared; both are compared with what the client knows. -/
namespace RingBuffers
open BoundedQueue Calls

variable {α : Type} {n : Nat}

/-- Two buffers of which the same client may think the same. -/
structure Interchangeable (env : Environment) (n : Nat) (r : Ring) (b : Spsc.Buffer α)
    (m : MutexBuffer α) : Prop where
  /-- Every session that keeps the contract gets the same answers from both. -/
  answers : ∀ ks as, (Client.start α).session n ks = some as →
    (∃ b', serve (Spsc.perform r) b ks = .ok (as, b')) ∧
      ∃ m', serve (Mutex.request env) m (ks.map .call) = .ok (as.map .answer, m')
  /-- A `try_pop` in the place of a `pop` answers what `front` answered before, and every later
  answer is the same. -/
  tryPop : ∀ pre mid post xs ys zs v m', (∀ q ∈ mid, Mutex.Request.takes q = false) →
    xs.length = pre.length → ys.length = mid.length →
    serve (Mutex.request env) m (pre ++ .call .front :: (mid ++ .call .pop :: post)) =
      .ok (xs ++ .answer (.front (some v)) :: (ys ++ .answer .done :: zs), m') →
    serve (Mutex.request env) m (pre ++ (mid ++ .tryPop :: post)) =
      .ok (xs ++ (ys ++ .popped (some v) :: zs), m')

theorem spsc_answers {r : Ring} (e : Encoding r) (size : r.capacity = e.bound)
    {ks : List (Call α)} {as : List (Answer α)}
    (valid : (Client.start α).session e.bound ks = some as) :
    ∃ b, serve (Spsc.perform r) (Spsc.Buffer.start α) ks = .ok (as, b) := by
  have meets : ∀ (b : Spsc.Buffer α) (c : Client α) k a c', Spsc.Represents e b c →
      c.perform e.bound k = some (a, c') →
      ∃ b', Spsc.perform r b k = .ok (a, b') ∧ Spsc.Represents e b' c' := by
    intro b c k a c' rep answers
    obtain ⟨b', done, rep', _⟩ := rep.perform_eq size answers
    exact ⟨b', done, rep'⟩
  have served := Client.served id id (Spsc.Represents e) meets (Spsc.represents_start e) valid
  rwa [List.map_id, List.map_id] at served

theorem mutex_answers (env : Environment) (pos : 0 < n) (small : n < sizeModulus)
    {ks : List (Call α)} {as : List (Answer α)}
    (valid : (Client.start α).session n ks = some as) :
    ∃ m, serve (Mutex.request env) (MutexBuffer.empty α n) (ks.map .call) =
      .ok (as.map .answer, m) := by
  apply Client.served Mutex.Request.call Mutex.Reply.answer (Mutex.Represents n) _
    (Mutex.represents_empty pos small) valid
  intro b c k a c' rep answers
  exact rep.request_eq answers

theorem drop_in_equivalents (env : Environment) (n : Nat) (r : Ring) (m : MutexBuffer α)
    (made : spscBuffer.construct env n = .ok r) (made' : MutexBuffer.construct α env n = .ok m)
    (fits : n + 1 + 2 * env.padding < sizeModulus) :
    Interchangeable env n r (Spsc.Buffer.start α) m := by
  obtain ⟨pos, rfl⟩ := MutexBuffer.construct_ok made'
  have small : n < sizeModulus := by omega
  constructor
  · intro ks as valid
    exact ⟨spsc_answers (spscBuffer_slack.encoding made (by omega))
      (spscBuffer_slack.capacity_eq made fits) valid, mutex_answers env pos small valid⟩
  · intro pre mid post xs ys zs v m' between before during served
    exact Mutex.serve_tryPop (MutexBuffer.holds_empty pos small) between before during served

/-- Two laps of the slots of the one and one and a half of the other; the last pair is replaced. -/
def twoLaps : List (Call Nat) :=
  [.front, .push 1, .tryPush 2, .tryPush 3, .front, .pop, .tryPush 4, .front, .pop, .capacity,
    .front, .close, .pop, .front, .closed, .push 5]

theorem drop_in_equivalents_at_two :
    (∃ b, serve (Spsc.perform (spscBuffer.ring .desktop 2)) (Spsc.Buffer.start Nat) twoLaps =
      .ok ([.front none, .done, .pushed true, .pushed false, .front (some 1), .done, .pushed true,
        .front (some 2), .done, .capacity 2, .front (some 4), .done, .done, .front none,
        .closed true, .done], b)) ∧
    ∃ m, serve (Mutex.request .desktop) (MutexBuffer.empty Nat 2)
        [.call (.push 1), .call (.push 2), .call (.tryPush 3), .tryPop, .call .front] =
      .ok ([.answer .done, .answer .done, .answer (.pushed false), .popped (some 1),
        .answer (.front (some 2))], m) := by
  have both : Interchangeable .desktop 2 (spscBuffer.ring .desktop 2) (Spsc.Buffer.start Nat)
      (MutexBuffer.empty Nat 2) := drop_in_equivalents .desktop 2 _ _ rfl rfl (by decide)
  refine ⟨(both.answers twoLaps _ (by decide)).1, _,
    both.tryPop [.call (.push 1), .call (.push 2)] [.call (.tryPush 3)] [.call .front]
      [.answer .done, .answer .done] [.answer (.pushed false)] [.answer (.front (some 2))] 1 _
      (by decide) rfl rfl rfl⟩

end RingBuffers
