import RingBuffers.Spsc.Moves
import RingBuffers.Spsc.Sequential

/-! From the machine to the calls as functions: between operations the members of a buffer are
what was stored last, and they stand for what the invariant of the functions asks. -/
namespace RingBuffers.Spsc
open ReleaseAcquire

variable {α : Type} {r : Ring} {e : Encoding r} {s : State α}

/-- The data members as whoever calls next finds them. -/
def State.toBuffer (s : State α) : Buffer α where
  pushCursor := (s.memory.newest .pushCursor).getD 0
  popCursor := (s.memory.newest .popCursor).getD 0
  popCursorCache := s.popCursorCache.value
  pushCursorCache := s.pushCursorCache.value
  closed := (s.memory.newest .closed).getD false
  slots := s.slots
  pushed := s.pushed
  consumed := s.consumed

/-- Neither thread is in the middle of a call. -/
def State.quiet (s : State α) : Prop := s.producer = .idle ∧ s.consumer = .idle

theorem Inv.toBuffer_holds (inv : Inv e s) (quiet : s.quiet) :
    Holds e s.toBuffer s.popCursorCache.stamp s.pushCursorCache.stamp where
  pushCursor := by rw [State.toBuffer, inv.newest_pushCursor, Option.getD_some]
  popCursor := by rw [State.toBuffer, inv.newest_popCursor, Option.getD_some]
  popCache := inv.popCache.value
  pushCache := inv.pushCache.value
  behind := inv.behind
  covered := inv.pushCache.low
  ahead := inv.ahead
  room := inv.room
  laid := by
    have laid := inv.laid
    have built : s.built = s.pushed := by
      rw [State.built, quiet.1]
      exact List.append_nil _
    have torn : s.torn = s.consumed.length := by
      rw [State.torn, quiet.2]
      rfl
    rwa [built, torn] at laid
  consumed := inv.consumed

end RingBuffers.Spsc
