import Mathlib.Algebra.Group.Nat.Defs
import Mathlib.Data.Nat.Log
import RingBuffers.Library.ReleaseAcquire
import RingBuffers.Library.Window

/-! The single-producer buffer classes: what each constructor fixes, and the
cursor arithmetic of each class on `std::size_t`. The classes differ in how a
cursor advances, in whether a thread caches the opposite cursor, in padding and
in memory orders; alignment of the members has no meaning here. -/
namespace RingBuffers
open ReleaseAcquire (Order)

/-- One more than the largest `std::size_t`; arithmetic wraps there. -/
def sizeModulus : Nat := 2 ^ 64

def sizeAdd (a b : Nat) : Nat := (a + b) % sizeModulus
def sizeSub (a b : Nat) : Nat := (a + (sizeModulus - b)) % sizeModulus
def sizeMul (a b : Nat) : Nat := a * b % sizeModulus

/-- The remainder operator; a zero divisor has no value. -/
def sizeMod (a b : Nat) : Option Nat := if b = 0 then none else some (a % b)

/-- `std::bit_ceil`, the least power of two not below its argument. -/
def bitCeil (n : Nat) : Nat := 2 ^ Nat.clog 2 n

/-- What ends a run: undefined behaviour or a failed assertion. -/
inductive Fault where
  | divisionByZero | constructOnLive | destroyOfDead | readOfDead | assertionFailed
  deriving DecidableEq, Repr

/-- The platform and the element type. A cache line is less than half of the
address space; `available` is the allocator's answer for a number of elements. -/
structure Environment where
  cacheLineSize : Nat
  sizeofT : Nat
  ndebug : Bool
  available : Nat → Bool
  cacheLine_pos : 0 < cacheLineSize
  cacheLine_small : 2 * cacheLineSize < sizeModulus
  sizeofT_pos : 1 ≤ sizeofT
  sizeofT_small : sizeofT < sizeModulus

/-- The unit tests' platform: elements of four bytes, assertions enabled. -/
def Environment.desktop : Environment where
  cacheLineSize := 64
  sizeofT := 4
  ndebug := false
  available _ := true
  cacheLine_pos := by decide
  cacheLine_small := by decide
  sizeofT_pos := by decide
  sizeofT_small := by decide

def Environment.padding (env : Environment) : Nat :=
  sizeSub (sizeAdd env.cacheLineSize env.sizeofT) 1 / env.sizeofT

/-- `allocate(k)` succeeds when the size in bytes is representable and available. -/
def Environment.allocates (env : Environment) (k : Nat) : Bool :=
  decide (k * env.sizeofT < sizeModulus) && env.available k

inductive Cursors where
  | modulus | branch | monoModulus | monoBitmask
  deriving DecidableEq, Repr

/-- `own` orders a thread's loads of the cursor it alone stores, `other` its
loads of what the opposite thread stores, `store` all stores. -/
structure Class where
  name : String
  cursors : Cursors
  cached : Bool
  padded : Bool
  own : Order
  other : Order
  store : Order

def spscBuffer : Class :=
  ⟨"SPSCBuffer", .branch, true, true, .relaxed, .acquire, .release⟩
def spscBufferBaseline : Class :=
  ⟨"SPSCBufferBaseline", .modulus, false, false, .seqCst, .seqCst, .seqCst⟩
def spscBufferStage1 : Class :=
  ⟨"SPSCBufferStage1", .modulus, false, false, .relaxed, .acquire, .release⟩
def spscBufferStage2 : Class :=
  ⟨"SPSCBufferStage2", .modulus, false, false, .relaxed, .acquire, .release⟩
def spscBufferStage3 : Class :=
  ⟨"SPSCBufferStage3", .modulus, true, false, .relaxed, .acquire, .release⟩
def spscBufferStage4 : Class :=
  ⟨"SPSCBufferStage4", .modulus, true, false, .relaxed, .acquire, .release⟩
def spscBufferStage5 : Class :=
  ⟨"SPSCBufferStage5", .branch, true, false, .relaxed, .acquire, .release⟩
def spscBufferStage6 : Class :=
  ⟨"SPSCBufferStage6", .branch, true, true, .relaxed, .acquire, .release⟩
def spscBufferMemOrder : Class :=
  ⟨"SPSCBufferMemOrder", .modulus, false, false, .relaxed, .acquire, .release⟩
def spscBufferCacheAlignment : Class :=
  ⟨"SPSCBufferCacheAlignment", .modulus, false, false, .seqCst, .seqCst, .seqCst⟩
def spscBufferPadding : Class :=
  ⟨"SPSCBufferPadding", .modulus, false, true, .seqCst, .seqCst, .seqCst⟩
def spscBufferBranchWrapIndices : Class :=
  ⟨"SPSCBufferBranchWrapIndices", .branch, false, false, .seqCst, .seqCst, .seqCst⟩
def spscBufferCachedCursors : Class :=
  ⟨"SPSCBufferCachedCursors", .modulus, true, false, .seqCst, .seqCst, .seqCst⟩
def spscBufferMonoModulus : Class :=
  ⟨"SPSCBufferMonoModulus", .monoModulus, false, false, .seqCst, .seqCst, .seqCst⟩
def spscBufferMonoBitmask : Class :=
  ⟨"SPSCBufferMonoBitmask", .monoBitmask, false, false, .seqCst, .seqCst, .seqCst⟩

/-- The classes that allocate one slack slot and wrap their cursors at `capacity_`. -/
def slackClasses : List Class :=
  [spscBuffer, spscBufferBaseline, spscBufferStage1, spscBufferStage2, spscBufferStage3,
    spscBufferStage4, spscBufferStage5, spscBufferStage6, spscBufferMemOrder,
    spscBufferCacheAlignment, spscBufferPadding, spscBufferBranchWrapIndices,
    spscBufferCachedCursors]

/-- A constructed buffer: `base` is the offset of `buffer_` in the allocation,
`allocated` the number of elements allocated; `bitmask_` is used by one class only. -/
structure Ring extends Class where
  ndebug : Bool
  capacity_ : Nat
  bitmask_ : Nat
  base : Nat
  allocated : Nat

inductive ConstructError where
  | invalidArgument (message : String)
  | badAllocation
  | undefinedBitCeil
  deriving DecidableEq, Repr

def Class.ring (c : Class) (env : Environment) (bufferSize : Nat) : Ring :=
  let capacity := match c.cursors with
    | .monoBitmask => bitCeil bufferSize
    | _ => sizeAdd bufferSize 1
  { c with
    ndebug := env.ndebug
    capacity_ := capacity
    bitmask_ := sizeSub capacity 1
    base := if c.padded then env.padding else 0
    allocated := if c.padded then sizeAdd capacity (sizeMul 2 env.padding) else capacity }

/-- The constructors. `std::bit_ceil` is undefined when the result is not representable. -/
def Class.construct (c : Class) (env : Environment) (bufferSize : Nat) :
    Except ConstructError Ring :=
  if bufferSize < 1 then
    .error (.invalidArgument (c.name ++ " capacity must be greater than or equal to 1"))
  else if c.cursors = .monoBitmask ∧ 2 ^ 63 < bufferSize then .error .undefinedBitCeil
  else
    let r := c.ring env bufferSize
    if env.allocates r.allocated then .ok r else .error .badAllocation

def Ring.capacity (r : Ring) : Nat :=
  match r.cursors with
  | .monoBitmask => r.capacity_
  | _ => sizeSub r.capacity_ 1

/-- The cursor after `cursor`, as `emplace`, `try_emplace` and `pop` compute it. -/
def Ring.next (r : Ring) (cursor : Nat) : Option Nat :=
  match r.cursors with
  | .modulus => sizeMod (sizeAdd cursor 1) r.capacity_
  | .branch => some (if sizeAdd cursor 1 = r.capacity_ then 0 else sizeAdd cursor 1)
  | .monoModulus | .monoBitmask => some (sizeAdd cursor 1)

def Ring.full (r : Ring) (pushCursor pushCursorNext popCursor : Nat) : Bool :=
  match r.cursors with
  | .modulus | .branch => decide (pushCursorNext = popCursor)
  | .monoModulus | .monoBitmask => decide (sizeSub pushCursor popCursor = r.capacity_)

def Ring.slot (r : Ring) (cursor : Nat) : Option Nat :=
  match r.cursors with
  | .modulus | .branch => some (r.base + cursor)
  | .monoModulus => (sizeMod cursor r.capacity_).map (fun i => r.base + i)
  | .monoBitmask => some (r.base + (cursor &&& r.bitmask_))

/-- How a lawful buffer represents the ordinals of its history: the cursor that
stands for an ordinal and the element of the allocation its value occupies. -/
structure Encoding (r : Ring) where
  bound : Nat
  cursor : Nat → Nat
  index : Nat → Nat
  bound_pos : 0 < bound
  cursor_zero : cursor 0 = 0
  next_cursor : ∀ k, r.next (cursor k) = some (cursor (k + 1))
  full_iff : ∀ c p, c ≤ p → p ≤ c + bound →
    (r.full (cursor p) (cursor (p + 1)) (cursor c) = true ↔ p = c + bound)
  empty_iff : ∀ c p, c ≤ p → p ≤ c + bound → (cursor c = cursor p ↔ c = p)
  slot_cursor : ∀ k, r.slot (cursor k) = some (index k)
  apart : Window.Apart index bound

section Slack

variable {r : Ring} {n : Nat}

theorem next_modulus (wraps : r.cursors = .modulus) (size : r.capacity_ = n + 1)
    (fits : n + 1 < sizeModulus) (k : Nat) :
    r.next (k % (n + 1)) = some ((k + 1) % (n + 1)) := by
  have small : k % (n + 1) < n + 1 := Nat.mod_lt k (Nat.succ_pos n)
  have exact_sum : sizeAdd (k % (n + 1)) 1 = k % (n + 1) + 1 := Nat.mod_eq_of_lt (by omega)
  simp only [Ring.next, wraps, size, exact_sum, sizeMod, Nat.succ_ne_zero, if_false,
    Nat.mod_add_mod]

theorem next_branch (wraps : r.cursors = .branch) (size : r.capacity_ = n + 1)
    (fits : n + 1 < sizeModulus) (k : Nat) :
    r.next (k % (n + 1)) = some ((k + 1) % (n + 1)) := by
  have small : k % (n + 1) < n + 1 := Nat.mod_lt k (Nat.succ_pos n)
  have exact_sum : sizeAdd (k % (n + 1)) 1 = k % (n + 1) + 1 := Nat.mod_eq_of_lt (by omega)
  simp only [Ring.next, wraps, size, exact_sum, Window.succ_mod]

theorem slack_full (wraps : r.cursors = .modulus ∨ r.cursors = .branch) (push next pop : Nat) :
    r.full push next pop = true ↔ next = pop := by
  rcases wraps with wraps | wraps <;> simp [Ring.full, wraps]

theorem slack_slot (wraps : r.cursors = .modulus ∨ r.cursors = .branch) (cursor : Nat) :
    r.slot cursor = some (r.base + cursor) := by
  rcases wraps with wraps | wraps <;> simp [Ring.slot, wraps]

def slackEncoding (r : Ring) (n : Nat) (wraps : r.cursors = .modulus ∨ r.cursors = .branch)
    (size : r.capacity_ = n + 1) (pos : 0 < n) (fits : n + 1 < sizeModulus) : Encoding r where
  bound := n
  cursor k := k % (n + 1)
  index k := r.base + k % (n + 1)
  bound_pos := pos
  cursor_zero := Nat.zero_mod _
  next_cursor k := by
    rcases wraps with wraps | wraps
    · exact next_modulus wraps size fits k
    · exact next_branch wraps size fits k
  full_iff c p le near := by
    rw [slack_full wraps]
    exact Window.succ_mod_eq_iff le near
  empty_iff c p le near := Window.mod_eq_iff le (by omega)
  slot_cursor k := slack_slot wraps _
  apart := ((Window.apart_mod (n + 1)).shift r.base).narrow (Nat.le_succ n)

end Slack

section Constructors

variable {c : Class} {env : Environment} {n : Nat} {r : Ring}

theorem construct_ok (made : c.construct env n = .ok r) :
    1 ≤ n ∧ env.allocates (c.ring env n).allocated = true ∧ r = c.ring env n := by
  unfold Class.construct at made
  split at made
  · cases made
  · split at made
    · cases made
    · simp only at made
      split at made
      · rename_i pos _ room
        exact ⟨by omega, room, (Except.ok.inj made).symm⟩
      · cases made

def Class.Slack (c : Class) : Prop := c.cursors = .modulus ∨ c.cursors = .branch

theorem Class.Slack.capacity (slack : c.Slack) (fits : n + 1 < sizeModulus) :
    (c.ring env n).capacity_ = n + 1 := by
  have sum : sizeAdd n 1 = n + 1 := Nat.mod_eq_of_lt fits
  rcases slack with wraps | wraps <;> simp [Class.ring, wraps, sum]

def Class.Slack.encoding (slack : c.Slack) (made : c.construct env n = .ok r)
    (fits : n + 1 < sizeModulus) : Encoding r :=
  slackEncoding r n (by rw [(construct_ok made).2.2]; exact slack)
    (by rw [(construct_ok made).2.2]; exact slack.capacity fits) (construct_ok made).1 fits

theorem spscBuffer_slack : spscBuffer.Slack := .inr rfl

theorem slackClasses_slack (c : Class) (member : c ∈ slackClasses) : c.Slack := by
  have all : ∀ c ∈ slackClasses, c.cursors = .modulus ∨ c.cursors = .branch := by decide
  exact all c member

def Class.margin (c : Class) (env : Environment) : Nat := if c.padded then env.padding else 0

/-- The size arithmetic of the constructor does not wrap. -/
def Class.Fits (c : Class) (env : Environment) (bufferSize : Nat) : Prop :=
  bufferSize + 1 + 2 * c.margin env < sizeModulus

instance decidableFits (c : Class) (env : Environment) (n : Nat) : Decidable (c.Fits env n) :=
  inferInstanceAs (Decidable (_ < _))

theorem Class.Fits.capacity (fits : c.Fits env n) : n + 1 < sizeModulus :=
  Nat.lt_of_le_of_lt (Nat.le_add_right _ _) fits

theorem Class.Slack.capacity_eq (slack : c.Slack) (made : c.construct env n = .ok r)
    (fits : c.Fits env n) : r.capacity = n := by
  have size : (c.ring env n).capacity_ = n + 1 := slack.capacity fits.capacity
  have short : sizeSub (n + 1) 1 = n := by
    have := fits.capacity
    simp only [sizeSub, sizeModulus] at this ⊢
    omega
  rw [(construct_ok made).2.2]
  have cursors : (c.ring env n).cursors = c.cursors := rfl
  rcases slack with wraps | wraps <;> simp only [Ring.capacity, cursors, wraps, size, short]

theorem Environment.padding_le (env : Environment) : env.padding ≤ env.cacheLineSize := by
  have line := env.cacheLine_pos
  have half := env.cacheLine_small
  have pos := env.sizeofT_pos
  have small := env.sizeofT_small
  apply Nat.div_le_of_le_mul
  have bound : sizeSub (sizeAdd env.cacheLineSize env.sizeofT) 1 < sizeModulus :=
    Nat.mod_lt _ (by decide)
  rcases Nat.lt_or_ge (env.cacheLineSize + env.sizeofT) sizeModulus with exact_sum | wraps
  · have value : sizeSub (sizeAdd env.cacheLineSize env.sizeofT) 1 =
        env.cacheLineSize + env.sizeofT - 1 := by
      simp only [sizeSub, sizeAdd, sizeModulus] at exact_sum ⊢
      omega
    obtain ⟨c, hc⟩ := Nat.exists_eq_add_of_le' line
    obtain ⟨k, hk⟩ := Nat.exists_eq_add_of_le' pos
    rw [value, hc, hk, Nat.add_mul, Nat.mul_add]
    omega
  · rcases Nat.lt_or_ge env.cacheLineSize 2 with single | several
    · have one : env.cacheLineSize = 1 := by omega
      rw [one, Nat.mul_one]
      rw [one] at bound wraps
      omega
    · have twice : env.sizeofT * 2 ≤ env.sizeofT * env.cacheLineSize :=
        Nat.mul_le_mul_left _ several
      omega

theorem Environment.padding_covers (env : Environment) (two : 2 * env.sizeofT < sizeModulus) :
    env.cacheLineSize ≤ env.padding * env.sizeofT := by
  have line := env.cacheLine_pos
  have half := env.cacheLine_small
  have pos := env.sizeofT_pos
  have value : sizeSub (sizeAdd env.cacheLineSize env.sizeofT) 1 =
      env.cacheLineSize + env.sizeofT - 1 := by
    simp only [sizeSub, sizeAdd, sizeModulus] at two half ⊢
    omega
  have split := Nat.div_add_mod (env.cacheLineSize + env.sizeofT - 1) env.sizeofT
  have rest := Nat.mod_lt (env.cacheLineSize + env.sizeofT - 1) pos
  rw [Environment.padding, value, Nat.mul_comm]
  omega

theorem Class.Slack.allocated (slack : c.Slack) (fits : c.Fits env n) :
    (c.ring env n).allocated = n + 1 + 2 * c.margin env := by
  have size : (c.ring env n).capacity_ = n + 1 := slack.capacity fits.capacity
  have alloc : (c.ring env n).allocated = if c.padded then
      sizeAdd (c.ring env n).capacity_ (sizeMul 2 env.padding)
    else (c.ring env n).capacity_ := rfl
  rw [alloc, size]
  simp only [Class.Fits, Class.margin] at fits ⊢
  cases padded : c.padded with
  | false => simp
  | true =>
    simp only [padded, if_true] at fits ⊢
    have twice : sizeMul 2 env.padding = 2 * env.padding := Nat.mod_eq_of_lt (by omega)
    rw [twice]
    exact Nat.mod_eq_of_lt fits

/-- When the size arithmetic wraps, the first element of the ring is already too close to
the end of the allocation. -/
theorem Class.Slack.allocated_wraps (slack : c.Slack) (size : n < sizeModulus)
    (wraps : ¬ c.Fits env n) : (c.ring env n).allocated ≤ 2 * c.margin env := by
  have padding := env.padding_le
  have half := env.cacheLine_small
  have capacity : (c.ring env n).capacity_ = sizeAdd n 1 := by
    rcases slack with kind | kind <;> simp [Class.ring, kind]
  have alloc : (c.ring env n).allocated = if c.padded then
      sizeAdd (c.ring env n).capacity_ (sizeMul 2 env.padding)
    else (c.ring env n).capacity_ := rfl
  rw [alloc, capacity]
  simp only [Class.Fits, Class.margin] at wraps ⊢
  cases padded : c.padded with
  | false =>
    simp only [padded, Bool.false_eq_true, if_false, sizeAdd, sizeModulus] at wraps size ⊢
    omega
  | true =>
    have twice : sizeMul 2 env.padding = 2 * env.padding := Nat.mod_eq_of_lt (by omega)
    simp only [padded, if_true, twice, sizeAdd, sizeModulus] at wraps size half ⊢
    omega

end Constructors

end RingBuffers
