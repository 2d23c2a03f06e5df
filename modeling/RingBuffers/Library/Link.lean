import RingBuffers.Library.Transition

/-! A link whose ends read each other's counts late. The sender is at most `window` elements
ahead of the receipts it has read, the receiver takes only what it has read to be sent, and
either may read an old count, though none older than one it knows of. Notices of the sender
tell the receiver how much had been sent when they were put up. -/
namespace Link
open Transition

/-- `acked` and `arrived` are the counts the two ends read last, `known` and `heard` the oldest
count and notice that the receiver may still read. -/
structure Channel (α : Type*) where
  sent : List α
  taken : Nat
  acked : Nat
  arrived : Nat
  known : Nat
  notices : List Nat
  heard : Nat

def Channel.start (α : Type*) : Channel α := ⟨[], 0, 0, 0, 0, [0], 0⟩

inductive Event (α : Type*) where
  | send (v : α)
  | refuse
  | ack (k : Nat)
  | arrive (k : Nat)
  | glance (k : Nat)
  | empty
  | peek (v : α)
  | take (v : α)
  | notify
  | hear (k : Nat)

/-- What is read along with a count, `heard`, may be any notice up to the last; a glance
does not change what the receiver goes by. -/
inductive Step {α : Type*} (window : Nat) (c : Channel α) : Event α → Channel α → Prop where
  | send (v : α) : c.sent.length < c.acked + window →
      Step window c (.send v) { c with sent := c.sent ++ [v] }
  | refuse : c.sent.length = c.acked + window → Step window c .refuse c
  | ack (k : Nat) : c.acked ≤ k → k ≤ c.taken → Step window c (.ack k) { c with acked := k }
  | arrive (k heard : Nat) : c.known ≤ k → k ≤ c.sent.length → c.heard ≤ heard →
      heard < c.notices.length →
      Step window c (.arrive k) { c with arrived := k, known := k, heard := heard }
  | glance (k heard : Nat) : c.known ≤ k → k ≤ c.sent.length → c.heard ≤ heard →
      heard < c.notices.length → Step window c (.glance k) { c with known := k, heard := heard }
  | empty : c.taken = c.arrived → Step window c .empty c
  | peek (v : α) : c.taken < c.arrived → c.sent[c.taken]? = some v → Step window c (.peek v) c
  | take (v : α) : c.taken < c.arrived → c.sent[c.taken]? = some v →
      Step window c (.take v) { c with taken := c.taken + 1 }
  | notify : Step window c .notify { c with notices := c.notices ++ [c.sent.length] }
  | hear (k count : Nat) : c.heard ≤ k → c.notices[k]? = some count →
      Step window c (.hear k) { c with heard := k, known := max c.known count }

section Rules

variable {α : Type*} {window : Nat} {c d : Channel α} {x : Event α} {xs : List (Event α)}

structure Ordered (window : Nat) (c : Channel α) : Prop where
  acked : c.acked ≤ c.taken
  taken : c.taken ≤ c.arrived
  arrived : c.arrived ≤ c.known
  known : c.known ≤ c.sent.length
  room : c.sent.length ≤ c.acked + window
  notices : ∀ n ∈ c.notices, n ≤ c.sent.length
  heard : c.heard < c.notices.length

theorem Step.ordered (step : Step window c x d) (ordered : Ordered window c) :
    Ordered window d := by
  have acked := ordered.acked
  have taken := ordered.taken
  have arrived := ordered.arrived
  have known := ordered.known
  have room := ordered.room
  cases step with
  | send v less =>
    have length : (c.sent ++ [v]).length = c.sent.length + 1 := by simp
    constructor <;> simp only [length]
    · exact acked
    · exact taken
    · exact arrived
    · omega
    · omega
    · exact fun n mem => Nat.le_succ_of_le (ordered.notices n mem)
    · exact ordered.heard
  | refuse | empty | peek => exact ordered
  | ack k low high => exact { ordered with acked := high, room := by simp only; omega }
  | arrive k h low high _ bound =>
    exact { ordered with
      taken := by simp only; omega
      arrived := Nat.le_refl k
      known := high
      heard := bound }
  | glance k h low high _ bound =>
    exact { ordered with arrived := by simp only; omega, known := high, heard := bound }
  | take v some_left => exact { ordered with acked := by simp only; omega, taken := some_left }
  | notify =>
    constructor <;> simp only [List.length_append, List.length_singleton]
    · exact acked
    · exact taken
    · exact arrived
    · exact known
    · exact room
    · intro n mem
      rcases List.mem_append.mp mem with old | new
      · exact ordered.notices n old
      · exact Nat.le_of_eq (List.mem_singleton.mp new)
    · exact Nat.lt_succ_of_lt ordered.heard
  | hear k count _ at_k =>
    have le := ordered.notices count (List.mem_of_getElem? at_k)
    exact { ordered with
      arrived := by simp only; omega
      known := Nat.max_le.mpr ⟨known, le⟩
      heard := (List.getElem?_eq_some_iff.mp at_k).1 }

def Event.sent : Event α → List α
  | .send v => [v]
  | _ => []

def Event.taken : Event α → List α
  | .take v => [v]
  | _ => []

theorem Step.takes (step : Step window c x d) (ordered : Ordered window c) :
    d.sent.take d.taken = c.sent.take c.taken ++ x.taken := by
  have taken := ordered.taken
  have arrived := ordered.arrived
  have known := ordered.known
  cases step with
  | send v =>
    have le : c.taken ≤ c.sent.length := by omega
    rw [List.take_append_of_le_length le]
    simp [Event.taken]
  | take v some_left at_taken =>
    simp [Event.taken, List.take_add_one, at_taken]
  | _ => simp [Event.taken]

def Event.reads : Event α → Option Nat
  | .arrive k | .glance k => some k
  | _ => none

theorem Step.reads (step : Step window c x d) {j : Nat} (reads : x.reads = some j) :
    c.known ≤ j := by
  cases step with
  | arrive k _ low | glance k _ low =>
    cases reads
    exact low
  | _ => cases reads

end Rules

end Link
