import RingBuffers.Spsc.Wraparound

/-! The element that the class with the remainder stores beyond its `capacity()`. The slot meant for
the cursor arithmetic is one the full test does not keep free. -/
namespace RingBuffers.Spsc
open BoundedQueue Transition

variable {α : Type}

def results (r : Ring) (b : Buffer α) (ks : List (Call α)) : Except Stop (List (Answer α)) :=
  (observe r b ks).map (List.map Prod.fst)

/-- The buffer answers as another and keeps to its advertised capacity: at every call at most
`capacity()` elements are stored, and a `try_push` is refused exactly at that number. -/
structure HonoursCapacity (r r₀ : Ring) (ks : List (Call α)) : Prop where
  same : results r (Buffer.start α) ks = results r₀ (Buffer.start α) ks
  kept : Along (Session.step r) (fun x k => x.buffer.queue.length ≤ r.capacity ∧
    ∀ v, k = .tryPush v → ((∃ b', tryEmplace r v x.buffer = .ok (false, b')) ↔
      x.buffer.queue.length = r.capacity)) (Session.start α) ks

def clientStep (n : Nat) (c : Client α) (k : Call α) : Option (Client α) :=
  (c.perform n k).map Prod.snd

/-- A `try_push` is made only while fewer than `n` elements are stored. -/
def findsRoom (n : Nat) (c : Client α) : Call α → Prop
  | .tryPush _ => c.queue.length < n
  | _ => True

instance decidableFindsRoom (n : Nat) (c : Client α) :
    ∀ k : Call α, Decidable (findsRoom n c k)
  | .tryPush _ => inferInstanceAs (Decidable (c.queue.length < n))
  | .push _ | .front | .pop | .capacity | .close | .closed => inferInstanceAs (Decidable True)

section Capacity

variable {r r₀ : Ring} {e₀ : Encoding r₀} {n : Nat} {b b₀ : Buffer α} {c c' : Client α}
  {k : Call α} {a : Answer α}

theorem results_cons_ok {b' : Buffer α} (done : perform r b k = .ok (a, b'))
    (ks : List (Call α)) : results r b (k :: ks) = (results r b' ks).map (a :: ·) := by
  simp only [results, observe, done]
  cases observe r b' ks with
  | error stop => rfl
  | ok seen => rfl

theorem map_cons_inj (x y : Except Stop (List (Answer α))) :
    x.map (a :: ·) = y.map (a :: ·) ↔ x = y := by
  constructor
  · intro same
    cases x <;> cases y <;> cases same <;> rfl
  · intro same
    rw [same]

theorem perform_larger (answers : c.perform n k = some (a, c')) (room : findsRoom n c k)
    (other : k ≠ .capacity) : c.perform (n + 1) k = some (a, c') := by
  cases k with
  | push v =>
    simp only [Client.perform] at answers ⊢
    split at answers
    · rw [if_pos (by omega)]
      exact answers
    · cases answers
  | tryPush v =>
    have fewer : c.queue.length < n := room
    simp only [Client.perform, if_pos fewer] at answers
    simp only [Client.perform, if_pos (Nat.lt_succ_of_lt fewer)]
    exact answers
  | capacity => exact absurd rfl other
  | front | pop | close | closed => exact answers

theorem accepted_le (k : Call α) (a : Answer α) : (accepted k a).length ≤ pushCalls [k] := by
  cases k with
  | tryPush v => cases a with
    | pushed done => cases done <;> simp [accepted, pushCalls]
    | _ => exact Nat.zero_le _
  | _ => simp [accepted, pushCalls]

theorem pushCalls_cons (k : Call α) (ks : List (Call α)) :
    pushCalls (k :: ks) = pushCalls [k] + pushCalls ks := by
  rw [pushCalls, pushCalls, pushCalls, ← List.countP_append]
  rfl

theorem client_bounded (answers : c.perform n k = some (a, c')) (bounded : c.queue.length ≤ n) :
    c'.queue.length ≤ n := by
  cases k with
  | push v =>
    simp only [Client.perform] at answers
    split at answers
    · cases answers
      simp only [List.length_append, List.length_singleton]
      omega
    · cases answers
  | tryPush v =>
    simp only [Client.perform] at answers
    split at answers
    · cases answers
      simp only [List.length_append, List.length_singleton]
      omega
    · cases answers
      exact bounded
  | pop =>
    simp only [Client.perform] at answers
    split at answers
    · cases answers
      simp only [List.length_tail]
      omega
    · cases answers
  | front | close | closed | capacity =>
    cases answers
    exact bounded

theorem finds_free_early (early : b.pushed.length + pushCalls [k] ≤ sizeModulus) (m : Nat) :
    findsFree m b k := by
  cases k with
  | push v | tryPush v =>
    simp only [pushCalls, List.countP_singleton, if_true] at early
    exact fun _ => no_clash (by omega)
  | _ => trivial

theorem Tracks.perform_with_room (tracks : Tracks (n + 1) b c) (shape : Remainder (n + 1) r)
    (size : r.capacity = n) (answers : c.perform n k = some (a, c')) (room : findsRoom n c k)
    (early : b.pushed.length + pushCalls [k] ≤ sizeModulus) :
    ∃ b', perform r b k = .ok (a, b') ∧ Tracks (n + 1) b' c' ∧
      b'.pushed = b.pushed ++ accepted k a := by
  by_cases capacity : k = .capacity
  · subst capacity
    cases answers
    exact ⟨b, by rw [perform, size], tracks, (List.append_nil _).symm⟩
  · exact tracks.perform_eq shape (perform_larger answers room capacity)
      (finds_free_early early _) capacity

theorem Tracks.perform_apart (tracks : Tracks (n + 1) b c) (shape : Remainder (n + 1) r)
    (answers : c.perform n k = some (a, c')) (crowded : ¬ findsRoom n c k)
    (bounded : c.queue.length ≤ n) (early : b.pushed.length + pushCalls [k] ≤ sizeModulus) :
    a = .pushed false ∧ ∃ b', perform r b k = .ok (.pushed true, b') := by
  cases k with
  | tryPush v =>
    have full : ¬ c.queue.length < n := crowded
    simp only [Client.perform, if_neg full] at answers
    have larger : c.perform (n + 1) (.tryPush v) =
        some (.pushed true, { c with queue := c.queue ++ [v] }) := by
      rw [Client.perform, if_pos (by omega)]
    obtain ⟨b', done, _⟩ := tracks.perform_eq shape larger (finds_free_early early _)
      (by intro h; cases h)
    cases answers
    exact ⟨rfl, b', done⟩
  | _ => exact absurd trivial crowded

theorem results_same_iff (shape : Remainder (n + 1) r) (size : r.capacity = n)
    (size₀ : r₀.capacity = e₀.bound) (bound : e₀.bound = n) (ks : List (Call α))
    (tracks : Tracks (n + 1) b c) (rep : Represents e₀ b₀ c) (bounded : c.queue.length ≤ n)
    (early : b.pushed.length + pushCalls ks ≤ sizeModulus) {as : List (Answer α)}
    (valid : c.session n ks = some as) :
    results r b ks = results r₀ b₀ ks ↔
      Along (clientStep n) (fun c k => findsRoom n c k) c ks := by
  induction ks generalizing b b₀ c as with
  | nil => exact iff_of_true rfl trivial
  | cons k ks ih =>
    rw [Client.session] at valid
    split at valid
    · cases valid
    · rename_i a c' answers
      obtain ⟨rest, tail, rfl⟩ := Option.map_eq_some_iff.mp valid
      rw [pushCalls_cons] at early
      obtain ⟨b₀', done₀, rep', _, _⟩ := rep.perform_eq size₀ (by rw [bound]; exact answers)
      have next : clientStep n c k = some c' := by rw [clientStep, answers]; rfl
      rw [results_cons_ok done₀, Along, next]
      by_cases room : findsRoom n c k
      · obtain ⟨b', done, tracks', pushed⟩ :=
          tracks.perform_with_room shape size answers room (by omega)
        have grows := accepted_le k a
        have sum : b'.pushed.length = b.pushed.length + (accepted k a).length := by
          rw [pushed, List.length_append]
        rw [results_cons_ok done, map_cons_inj,
          ih tracks' rep' (client_bounded answers bounded) (by omega) tail]
        simp only [room, true_and]
      · obtain ⟨refused, b', done⟩ :=
          tracks.perform_apart shape answers room bounded (by omega)
        obtain ⟨seen, all, _⟩ := observe_agree e₀ e₀ size₀ size₀ rfl rfl ks rep' rep' rfl rfl
          (by rw [bound]; exact tail)
        have others : results r₀ b₀' ks = .ok (seen.map Prod.fst) := by
          rw [results, all]
          rfl
        rw [results_cons_ok done, refused, others]
        simp only [room, false_and, iff_false]
        intro same
        cases mine : results r b' ks <;> rw [mine] at same <;> cases same

theorem kept_of_room (shape : Remainder (n + 1) r) (size : r.capacity = n) (ks : List (Call α))
    {x : Session α} (tracks : Tracks (n + 1) x.buffer x.client)
    (bounded : x.client.queue.length ≤ n)
    (early : x.buffer.pushed.length + pushCalls ks ≤ sizeModulus) {as : List (Answer α)}
    (valid : x.client.session n ks = some as)
    (room : Along (clientStep n) (fun c k => findsRoom n c k) x.client ks) :
    Along (Session.step r) (fun x k => x.buffer.queue.length ≤ r.capacity ∧
      ∀ v, k = .tryPush v → ((∃ b', tryEmplace r v x.buffer = .ok (false, b')) ↔
        x.buffer.queue.length = r.capacity)) x ks := by
  induction ks generalizing x as with
  | nil => trivial
  | cons k ks ih =>
    rw [Client.session] at valid
    split at valid
    · cases valid
    · rename_i a c' answers
      obtain ⟨rest, tail, rfl⟩ := Option.map_eq_some_iff.mp valid
      rw [pushCalls_cons] at early
      have next : clientStep n x.client k = some c' := by rw [clientStep, answers]; rfl
      rw [Along, next] at room
      obtain ⟨now, later⟩ := room
      have free := finds_free_early (k := k) (b := x.buffer) (by omega) (n + 1)
      refine ⟨⟨size ▸ bounded, ?_⟩, ?_⟩
      · rintro v rfl
        have fewer : x.buffer.queue.length < n := now
        obtain ⟨b', done, _⟩ := tracks.counts.tryEmplace_room shape (by omega) (free (by omega)) v
        rw [done, size]
        constructor
        · rintro ⟨b'', impossible⟩
          cases impossible
        · omega
      · obtain ⟨a', larger, same⟩ : ∃ a', x.client.perform (n + 1) k = some (a', c') ∧
            accepted k a' = accepted k a := by
          by_cases capacity : k = .capacity
          · subst capacity
            cases answers
            exact ⟨_, rfl, rfl⟩
          · exact ⟨a, perform_larger answers now capacity, rfl⟩
        obtain ⟨y, step, tracks', client, pushed⟩ := Session.step_eq shape tracks larger free
        have grows := accepted_le k a
        have sum : y.buffer.pushed.length = x.buffer.pushed.length + (accepted k a).length := by
          rw [pushed, same, List.length_append]
        rw [step]
        refine ih tracks' ?_ (by omega) (client ▸ tail) (client ▸ later)
        rw [client]
        exact client_bounded answers bounded

end Capacity

/-- `SPSCBufferMonoModulus(n)` behaves as the baseline and within `capacity()` exactly when no
`try_push` is made on `n` stored elements: it would accept one more than it advertises. -/
theorem mono_modulus_capacity_iff (env : Environment) (n : Nat) (r r₀ : Ring)
    (made : spscBufferMonoModulus.construct env n = .ok r)
    (made₀ : spscBufferBaseline.construct env n = .ok r₀) (fits : n + 1 < sizeModulus)
    (ks : List (Call α)) (as : List (Answer α))
    (valid : (Client.start α).session n ks = some as) (few : pushCalls ks < sizeModulus) :
    HonoursCapacity r r₀ ks ↔
      Along (clientStep n) (fun c k => findsRoom n c k) (Client.start α) ks := by
  have shape := remainder_of_construct made fits
  have slack₀ : spscBufferBaseline.Slack := .inl rfl
  have fits₀ : spscBufferBaseline.Fits env n := fits
  have size : r.capacity = n := by
    have short : sizeSub (n + 1) 1 = n := by
      simp only [sizeSub, sizeModulus] at fits ⊢
      omega
    simp only [Ring.capacity, shape.cursors, shape.capacity, short]
  have early : (Buffer.start α).pushed.length + pushCalls ks ≤ sizeModulus := by
    change 0 + pushCalls ks ≤ sizeModulus
    omega
  have tracks : Tracks (n + 1) (Buffer.start α) (Client.start α) := tracks_start (n + 1)
  have rep : Represents (slack₀.encoding made₀ fits) (Buffer.start α) (Client.start α) :=
    represents_start _
  have same := results_same_iff shape size (slack₀.capacity_eq made₀ fits₀) rfl ks tracks rep
    (Nat.zero_le n) early valid
  constructor
  · intro honours
    exact same.mp honours.same
  · intro room
    exact ⟨same.mpr room, kept_of_room (x := Session.start α) shape size ks (tracks_start _)
      (Nat.zero_le n) early valid room⟩

theorem mono_modulus_capacity_at_two :
    HonoursCapacity (spscBufferMonoModulus.ring .desktop 2) (spscBufferBaseline.ring .desktop 2)
      shortSession :=
  (mono_modulus_capacity_iff .desktop 2 _ _ rfl rfl (by decide) shortSession _ rfl
    (by decide)).mpr (by decide)

theorem mono_modulus_takes_more : ¬ ∀ r r₀ : Ring,
    spscBufferMonoModulus.construct .desktop 1 = .ok r →
    spscBufferBaseline.construct .desktop 1 = .ok r₀ →
    HonoursCapacity r r₀ [.tryPush 7, .tryPush 8] := by
  intro honours
  have same := (honours _ _ rfl rfl).same
  revert same
  decide

end RingBuffers.Spsc
