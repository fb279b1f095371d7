import CoopScript.Proofs.Machine.Session

/-!
Frame liveness is reachability: a frame is alive as long as a thread can still come to it, or as
long as it holds the globals, and no longer.
-/

namespace CoopScript

namespace FrameArena

variable {arena : FrameArena} {further : FrameId → Nat} {root id : FrameId} {chain : List FrameId}

def Live (arena : FrameArena) (id : FrameId) : Prop := ∃ frame, arena.frame? id = some frame

/-- The outer frame is the parent of the live inner one. -/
def Outward (arena : FrameArena) (inner outer : FrameId) : Prop :=
  ∃ frame, arena.frame? inner = some frame ∧ frame.parent = some outer

theorem Counted.live_outward (counted : arena.Counted further) {inner outer : FrameId}
    (outward : Relation.ReflTransGen arena.Outward inner outer) (live : arena.Live inner) :
    arena.Live outer := by
  induction outward with
  | refl => exact live
  | tail _ step _ =>
      obtain ⟨frame, found, named⟩ := step
      obtain ⟨around, outside, _⟩ := counted.parent_older _ frame _ found named
      exact ⟨around, outside⟩

/-- Frames further out are older, so that no frame is its own ancestor. -/
theorem Counted.acyclic (counted : arena.Counted further) (id : FrameId) :
    ¬ Relation.TransGen arena.Outward id id := by
  have older {inner outer : FrameId} (outward : Relation.TransGen arena.Outward inner outer) :
      ∃ frame around, arena.frame? inner = some frame ∧ arena.frame? outer = some around ∧
        around.activation < frame.activation := by
    induction outward with
    | single step =>
        obtain ⟨frame, found, named⟩ := step
        obtain ⟨around, outside, less⟩ := counted.parent_older _ frame _ found named
        exact ⟨frame, around, found, outside, less⟩
    | tail _ step hypothesis =>
        obtain ⟨frame, between, found, middle, less⟩ := hypothesis
        obtain ⟨held, again, named⟩ := step
        rw [middle] at again
        cases again
        obtain ⟨around, outside, further⟩ := counted.parent_older _ between _ middle named
        exact ⟨frame, around, found, outside, further.trans less⟩
  intro cycle
  obtain ⟨frame, around, found, outside, less⟩ := older cycle
  rw [found] at outside
  cases outside
  exact Nat.lt_irrefl _ less

/-- Every frame of a chain is outward of its first one. -/
theorem Chain.outward (whole : arena.Chain root id chain) {member : FrameId}
    (inside : member ∈ chain) : Relation.ReflTransGen arena.Outward id member := by
  induction whole with
  | root _ _ =>
      rw [List.mem_singleton.mp inside]
  | inner found _ _ named _ hypothesis =>
      rcases List.mem_cons.mp inside with rfl | further
      · exact .refl
      · exact .head ⟨_, found, named⟩ (hypothesis further)

theorem children_eq_ncard (arena : FrameArena) (id : FrameId) :
    arena.children id = {inner | arena.Outward inner id}.ncard := by
  rw [children, tally_eq_ncard]
  simp [Outward]

end FrameArena

open FrameArena

namespace Machine

/-- A thread can still come to the frame, or it holds the globals. -/
def Reaches (machine : Machine) (id : FrameId) : Prop :=
  machine.globals = some id ∨ ∃ number thread, machine.threads.find? number = some thread ∧
    Relation.ReflTransGen machine.frames.Outward thread.current id

variable {allowed : MachineError → Prop} {machine : Machine} {program : Program} {limits : Limits}

theorem Steady.live_of_reaches (steady : machine.Steady allowed) {id : FrameId}
    (reaches : machine.Reaches id) : machine.frames.Live id := by
  rcases reaches with named | ⟨number, thread, found, outward⟩
  · exact steady.holds_globals id named
  · obtain ⟨frame, live, _⟩ := steady.coherent.live_current found
    exact steady.coherent.counted.live_outward outward ⟨frame, live⟩

/-- The induction is on the activations after that of the frame: a frame that is retired is alive
through the globals or through a younger frame around which it is. -/
theorem Steady.reaches_of_live (steady : machine.Steady allowed) {id : FrameId} {frame : Frame}
    (live : machine.frames.frame? id = some frame) : machine.Reaches id := by
  have counted := steady.coherent.counted
  obtain ⟨later, same⟩ : ∃ later, later = machine.frames.activations - frame.activation := ⟨_, rfl⟩
  induction later using Nat.strong_induction_on generalizing id frame with
  | _ later hypothesis =>
      cases retired : frame.retired with
      | false =>
          obtain ⟨owner, thread, chain, found, whole, inside⟩ :=
            steady.coherent.owned id frame live retired
          exact .inr ⟨owner, thread, found, whole.outward inside⟩
      | true =>
          have pins := counted.pins_ne_zero id frame live retired
          rw [counted.pins_eq id frame live] at pins
          by_cases named : machine.globals = some id
          · exact .inl named
          · have children : machine.frames.children id ≠ 0 := by
              simpa [once, named] using pins
            simp only [Ne, children_eq_zero_iff, not_forall, not_not] at children
            obtain ⟨inner, held, found, parent⟩ := children
            obtain ⟨around, again, less⟩ := counted.parent_older inner held id found parent
            rw [live] at again
            cases again
            have bound := counted.activation_lt inner held found
            rcases hypothesis _ (by omega) found rfl with globals | ⟨number, thread, held', outward⟩
            · obtain ⟨outermost, place, alone⟩ := steady.coherent.outermost inner globals
              rw [found] at place
              cases place
              rw [alone] at parent
              cases parent
            · exact .inr ⟨number, thread, held', outward.tail ⟨held, found, parent⟩⟩

theorem Steady.live_iff_reaches (steady : machine.Steady allowed) (id : FrameId) :
    machine.frames.Live id ↔ machine.Reaches id :=
  ⟨fun ⟨_, live⟩ => steady.reaches_of_live live, steady.live_of_reaches⟩

theorem Steady.liveCount_eq (steady : machine.Steady allowed) :
    machine.frames.liveCount = {id | machine.Reaches id}.ncard := by
  rw [steady.coherent.counted.liveCount_eq, tally_eq_ncard]
  congr 1
  ext id
  rw [Set.mem_ofPred_eq, Set.mem_ofPred_eq, ← steady.live_iff_reaches]
  simp [Live]

theorem Steady.liveCount_of_threadless (steady : machine.Steady allowed)
    (begun : machine.state ≠ .idle) (threadless : ∀ number, machine.threads.find? number = none) :
    machine.frames.liveCount = 1 := by
  obtain ⟨root, named⟩ := Option.ne_none_iff_exists'.mp fun none => begun (steady.begun.mpr none)
  have single : {id | machine.Reaches id} = {root} := by
    ext id
    simp [Reaches, named, threadless, eq_comm]
  rw [steady.liveCount_eq, single, Set.ncard_singleton]

/-- In every machine that the host or a native function sees, exactly the frames are alive that
threads and globals reach, the counters say so, and no frame is its own ancestor. -/
theorem Visible.frames_live_iff_reached (visible : Visible program limits machine) :
    (∀ id, machine.frames.Live id ↔ machine.Reaches id) ∧
    machine.frames.liveCount = {id | machine.Reaches id}.ncard ∧
    (∀ id frame, machine.frames.frame? id = some frame →
      frame.pins = {inner | machine.frames.Outward inner id}.ncard +
        if machine.globals = some id then 1 else 0) ∧
    (∀ id, ¬ Relation.TransGen machine.frames.Outward id id) ∧
    (machine.state ≠ .idle → (∀ number, machine.threads.find? number = none) →
      machine.frames.liveCount = 1) := by
  have steady : machine.Steady fun _ => True :=
    visible.steady (fun _ _ => trivial) fun _ _ _ => Routine.honest_of_forall (fun _ => trivial) _
  refine ⟨steady.live_iff_reaches, steady.liveCount_eq, fun id frame live => ?_,
    steady.coherent.counted.acyclic, steady.liveCount_of_threadless⟩
  rw [steady.coherent.counted.pins_eq id frame live, children_eq_ncard]
  rfl

/-- After its only thread was closed, the globals alone are alive. -/
theorem liveCount_closed : Visible closing {} closed ∧ closed.frames.liveCount = 1 :=
  ⟨visible_closed,
    (Visible.frames_live_iff_reached visible_closed).2.2.2.2 nofun fun _ => rfl⟩

end Machine

end CoopScript
