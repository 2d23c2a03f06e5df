import RingBuffers.Library.Lifetime
import RingBuffers.Spsc.Solo

/-! Constructions and destructions in the slots of a single-producer buffer, along a run of the
machine and then in the destructor. -/
namespace RingBuffers.Spsc
open Lifetime Transition

variable {α : Type} {r : Ring} {e : Encoding r} {s t : State α}

/-- What a step does to the elements. A constructor that throws leaves none behind. -/
def slotEvents (r : Ring) (s : State α) : Label α → List (Event α)
  | .producer _ => match s.producer with
    | .construct f => ((r.slot f.cursor).map fun i => Event.construct i f.value).toList
    | _ => []
  | .consumer _ => match s.consumer with
    | .popDestroy pop => ((r.slot pop).map Event.destroy).toList
    | _ => []
  | _ => []

theorem Move.lawful {l : Label α} (move : Move e s l t) (inv : Inv e s) :
    Path Lawful s.slots (slotEvents r s l) t.slots := by
  cases move with
  | construct i f at_pc =>
    obtain ⟨slot, free⟩ := inv.construct_slot at_pc
    simp only [slotEvents, at_pc, slot, Option.map_some, Option.toList_some]
    exact Path.cons (Lawful.construct _ _ free) (Path.nil _)
  | destroy i pop v at_pc present =>
    have ok := inv.consumer
    rw [at_pc] at ok
    have slot : r.slot pop = some (e.index s.consumed.length) := by
      rw [ok.2.2]
      exact e.slot_cursor _
    obtain ⟨w, _, live⟩ := inv.oldest_slot (by rw [at_pc]; rfl) ok.2.1
    simp only [slotEvents, at_pc, slot, Option.map_some, Option.toList_some]
    exact Path.cons (Lawful.destroy _ _ live) (Path.nil _)
  | emplace | tryEmplace | close | front | pop | closed | read | threw => exact Path.nil _
  | loadPush i mode v f m at_pc | loadPop i x f m at_pc | cacheFull i f at_pc
  | cacheRoom i f at_pc | loadedCache i f pop at_pc | loadedSpin i f pop at_pc
  | loadedFull i f pop at_pc | loadedRoom i f pop at_pc | recheckFull i f at_pc
  | recheckRoom i f at_pc | publish i f at_pc | storeClosed i at_pc
  | frontLoadPop i m at_pc | frontLoadPush i pop x m at_pc | popLoadPop i m at_pc
  | popAssert i pop x m at_pc | frontCacheEmpty i pop at_pc | frontLoadedCache i pop push at_pc
  | frontCacheHit i pop at_pc | frontLoadedNull i pop push at_pc | frontLoadedHit i pop push at_pc
  | frontNull i pop at_pc | frontHit i pop at_pc | giveBack i pop v at_pc
  | loadClosed i b m at_pc =>
    simp only [slotEvents, at_pc]
    exact Path.nil _

theorem run_lawful (e : Encoding r) (sync : Synchronizes r) {ls : List (Label α)}
    (run : Run (step r) (fun s l => frontFirst s l = true) (start α) ls s) :
    Path Lawful (fun _ => none) (trace (step r) (slotEvents r) (start α) ls).flatten s.slots := by
  apply run.performs Lawful State.slots (slotEvents r) (Inv e)
  · intro s l t inv contract h
    exact step_inv sync inv contract h
  · intro s l t inv contract h
    exact (step_move inv sync contract h).lawful inv
  · exact inv_start e

theorem spsc_exact (e : Encoding r) (sync : Synchronizes r) {ls : List (Label α)}
    (run : Run (step r) (fun s l => frontFirst s l = true) (start α) ls s) (quiet : s.quiet)
    {fuel : Nat} (enough : s.queue.length < fuel) :
    ∃ ds d, drain r fuel s.toBuffer = .ok (ds, d) ∧ d.consumed = s.pushed ∧
      Exact s.queue s.slots (trace (step r) (slotEvents r) (start α) ls).flatten ds d.slots := by
  have holds := (run_inv e sync run).toBuffer_holds quiet
  obtain ⟨d, drained, lawful, all, dead⟩ := drain_eq holds fuel enough
  refine ⟨_, d, drained, all.trans holds.consumed_append_queue, ?_⟩
  apply exact_of_sweep (run_lawful e sync run) lawful (fun i => by rw [dead])
  intro k v present
  apply holds.laid.at (Nat.le_add_right _ _)
  rwa [Buffer.queue, List.getElem?_drop] at present

end RingBuffers.Spsc
