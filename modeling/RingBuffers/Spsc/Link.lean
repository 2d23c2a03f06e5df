import RingBuffers.Spsc.Channel
import RingBuffers.Spsc.Progress

/-! The two threads as the two ends of a link, whatever they read. Each step is a step of the link
or none, and what a call answers goes with the event that ends it. -/
namespace RingBuffers.Spsc
open ReleaseAcquire Transition Link

variable {α : Type} {r : Ring}

structure Carries (r : Ring) (window : Nat) (s : State α) (l : Label α) (t : State α) : Prop
    extends Tells r s l t where
  path : Path (Step window) s.channel (events r s l) t.channel

section Simulation

variable {e : Encoding r} {s t : State α} {window : Nat}

theorem silent {l : Label α} (none_ : events r s l = []) (same : t.channel = s.channel)
    (quiet : reports s t = []) : Carries r window s l t where
  path := by
    rw [none_, same]
    exact .nil _
  answers := by simp [quiet]
  answered := by simp [none_]

theorem passes {l : Label α} {x : Event α} {c : Channel α} (one : events r s l = [x])
    (step : Step window s.channel x c) (same : t.channel = c) (quiet : reports s t = [])
    (midway : ends x = false) : Carries r window s l t where
  path := by
    rw [one, same]
    exact .cons step (.nil _)
  answers := by simp [quiet]
  answered := by simp [one, midway]

theorem returns {l : Label α} {x : Event α} {c : Channel α}
    {k : Operation α × Option (Outcome α)} (one : events r s l = [x])
    (step : Step window s.channel x c) (same : t.channel = c) (report : reports s t = [k])
    (means : Signifies k [x]) : Carries r window s l t where
  path := by
    rw [one, same]
    exact .cons step (.nil _)
  answers := by simp [report, one, means]
  answered := by simp [report, one, means]

theorem Inv.looks (inv : Inv e s) (still : s.consumer.tearing = 0)
    (covered : s.consumed.length < s.pushCursorCache.stamp) :
    ∃ v, s.pushed[s.consumed.length]? = some v ∧ s.slots (e.index s.consumed.length) = some v ∧
      looks s (some (e.index s.consumed.length)) = [.peek v] := by
  obtain ⟨v, present, live⟩ := inv.oldest_slot still covered
  exact ⟨v, present, live, by simp [Spsc.looks, live]⟩

theorem Attuned.arrives (attuned : Attuned s) (inv : Inv e s) {o : Order} {i x : Nat}
    {m : Atomics α} (load : s.memory.load .consumer .pushCursor o i = some (x, m)) :
    s.channel.known ≤ i ∧ i ≤ s.channel.sent.length ∧
      s.channel.heard ≤ (m.view .consumer).stamp .closed ∧
      (m.view .consumer).stamp .closed < s.channel.notices.length := by
  obtain ⟨low, msg, at_i, _⟩ := load_value load
  have bound := (List.getElem?_eq_some_iff.mp at_i).1
  have history := load_history load
  have grounded := (attuned.owned.load load).grounded.agents .consumer .closed
  rw [inv.pushHistory.length] at bound
  rw [history] at grounded
  refine ⟨low, Nat.le_of_lt_succ bound, (load_grows load .consumer).stamp .closed, ?_⟩
  simpa [State.channel] using grounded

end Simulation

end RingBuffers.Spsc
