import RingBuffers.Library.Transition
import RingBuffers.Library.Calls
import RingBuffers.Library.BoundedQueue
import RingBuffers.Library.Window
import RingBuffers.Library.Lifetime
import RingBuffers.Library.ReleaseAcquire
import RingBuffers.Library.Census
import RingBuffers.Library.Wakeup
import RingBuffers.Library.Departure
import RingBuffers.Library.Fairness
import RingBuffers.Library.Exclusion
import RingBuffers.Library.Link
import RingBuffers.Storage
import RingBuffers.Spsc.Machine
import RingBuffers.Spsc.Footprint
import RingBuffers.Spsc.Invariant
import RingBuffers.Spsc.Preservation
import RingBuffers.Spsc.Moves
import RingBuffers.Spsc.Linearizable
import RingBuffers.Spsc.Staleness
import RingBuffers.Spsc.Shutdown
import RingBuffers.Spsc.Sequential
import RingBuffers.Spsc.Variants
import RingBuffers.Spsc.Assertion
import RingBuffers.Spsc.Bounds
import RingBuffers.Spsc.Monotonic
import RingBuffers.Spsc.MonoModulus
import RingBuffers.Spsc.Wraparound
import RingBuffers.Spsc.ExtraSlot
import RingBuffers.Spsc.Caches
import RingBuffers.Spsc.Drained
import RingBuffers.Spsc.Solo
import RingBuffers.Spsc.Lifetimes
import RingBuffers.Spsc.Pointer
import RingBuffers.Spsc.Failure
import RingBuffers.Spsc.Independence
import RingBuffers.Spsc.Lockstep
import RingBuffers.Spsc.Retry
import RingBuffers.Spsc.Classes
import RingBuffers.Spsc.Progress
import RingBuffers.Spsc.Termination
import RingBuffers.Spsc.Reports
import RingBuffers.Spsc.Channel
import RingBuffers.Spsc.Link
import RingBuffers.Spsc.Finish
import RingBuffers.Spsc.Serial
import RingBuffers.Spsc.Begun
import RingBuffers.Spsc.SerialRuns
import RingBuffers.Mutex.Buffer
import RingBuffers.Mutex.Machine
import RingBuffers.Mutex.Linearizable
import RingBuffers.Mutex.Wakeups
import RingBuffers.Mutex.Shutdown
import RingBuffers.Mutex.Sequential
import RingBuffers.Mutex.Lifetimes
import RingBuffers.Mutex.Pointer
import RingBuffers.Mutex.Failure
import RingBuffers.Mutex.Programs
import RingBuffers.Mutex.Ranks
import RingBuffers.Mutex.Calm
import RingBuffers.Mutex.Termination
import RingBuffers.Mutex.Scripts
import RingBuffers.Mutex.Transfer
import RingBuffers.Mutex.Lines
import RingBuffers.Mutex.Sections
import RingBuffers.Mutex.Atomicity
import RingBuffers.Mutex.Races
import RingBuffers.Mutex.Progress
import RingBuffers.DropIn
import RingBuffers.Lifetimes
import RingBuffers.Pointers
import RingBuffers.Failures
