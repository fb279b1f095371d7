import CoopScript.Proofs.Actions.Strides
import CoopScript.Proofs.Machine.Execution

/-!
Where call stacks come from. Whatever happens to a machine, a thread that lives on has the call stack
that it had, or it is the current thread and has gone one stride on.
-/

namespace CoopScript

open FrameArena MachineError

namespace Machine

variable {allowed : MachineError → Prop} {machine after : Machine} {number : ThreadId}
  {stack : CallStack} {natives : Natives} {handed : List Value} {besides : Option ThreadId}

/-- It is a thread's turn to execute in a frame. -/
structure ExecutesIn (machine : Machine) (number : ThreadId) (id : FrameId) : Prop where
  alive : machine.stopped = false
  turn : machine.current = some number
  current : ∃ thread, machine.threads.find? number = some thread ∧ thread.current = id

instance (machine : Machine) (number : ThreadId) (id : FrameId) :
    Decidable (machine.ExecutesIn number id) :=
  decidable_of_iff (machine.stopped = false ∧ machine.current = some number ∧
    (machine.threads.find? number).map Thread.current = some id)
    ⟨fun ⟨alive, turn, current⟩ => ⟨alive, turn, Option.map_eq_some_iff.mp current⟩,
      fun ⟨alive, turn, current⟩ => ⟨alive, turn, Option.map_eq_some_iff.mpr current⟩⟩

theorem ExecutesIn.unique {id other : FrameId} (first : machine.ExecutesIn number id)
    (second : machine.ExecutesIn number other) : id = other := by
  obtain ⟨_, _, thread, found, rfl⟩ := first
  obtain ⟨_, _, _, again, rfl⟩ := second
  cases found.symm.trans again
  rfl

/-- The call stacks that a thread can have right after a machine. -/
inductive Arises (machine : Machine) (number : ThreadId) : CallStack → Prop
  | stays {stack : CallStack} : machine.current ≠ some number → machine.Stacked number stack →
      Arises machine number stack
  | strides {old new : CallStack} : machine.current = some number → machine.Stacked number old →
      Stride machine.script old new → Arises machine number new
  /-- A new thread is in its first frame. -/
  | begins {entry : FrameId × Frame} : machine.threads.next.number ≤ number.number →
      Arises machine number [entry]

/-- The call stack of a thread is that of every machine which shows the same of it. -/
theorem Stacked.congr (stacked : after.Stacked number stack)
    (found : after.threads.find? number = machine.threads.find? number)
    (shown : ∀ id, after.frames.control? id = machine.frames.control? id) :
    machine.Stacked number stack := by
  obtain ⟨thread, live, whole⟩ := stacked
  refine ⟨thread, found ▸ live, whole.transport fun entry inside => ?_⟩
  rw [← shown, whole.shown inside]

/-- A stack that is spared was there before, or is new. -/
theorem Spares.arises (spares : Spares besides machine after) (different : some number ≠ besides)
    (turn : machine.current ≠ some number) (stacked : after.Stacked number stack) :
    machine.Arises number stack := by
  rcases spares.others number stack different stacked with old | ⟨new, entry, rfl⟩
  · exact .stays turn old
  · exact .begins new

/-- The end of a slice changes no stack. -/
theorem stacked_endSlice {id : ThreadId} {slice : Slice}
    (stacked : (machine.endSlice id slice).Stacked number stack) : machine.Stacked number stack := by
  cases slice <;> exact stacked.congr rfl fun _ => rfl

section Sessions

variable (own : ∀ error : MachineError, ¬ error.IsInternal → allowed error)
  (honest : natives.Honest allowed)

include own honest

/-- A step of the current thread that goes through. -/
theorem arises_of_advance (steady : machine.Steady allowed) {id : ThreadId}
    (current : machine.current = some id) (alive : machine.stopped = false) {slice : Option Slice}
    (ran : (Action.advance natives id).run machine = .ok slice after)
    (stacked : after.Stacked number stack) : machine.Arises number stack := by
  have different (other : number ≠ id) : some number ≠ some id := fun equal =>
    other (Option.some.inj equal)
  cases found : machine.threads.find? id with
  | none =>
      simp only [Action.advance, EStateM.run_bind, EStateM.run_get, alive, Bool.false_eq_true,
        if_false, found] at ran
      cases ran
      refine .stays ?_ stacked
      rintro turn
      cases current.symm.trans turn
      obtain ⟨_, live, _⟩ := stacked
      rw [found] at live
      cases live
  | some entry =>
      obtain ⟨old, before⟩ := steady.stacked found
      obtain ⟨frame, outer, rfl, _⟩ := before.current found
      obtain ⟨⟨line, spares⟩, continues⟩ := Action.advance_strides own honest
        ⟨steady, current, found⟩ alive before ran
      by_cases same : number = id
      · subst same
        rcases continues with gone | ⟨new, now, stride⟩
        · obtain ⟨thread, live, _⟩ := stacked
          rw [live] at gone
          cases gone
        · exact stacked.unique now ▸ .strides current before stride
      · have turn : machine.current ≠ some number := current ▸ (different same).symm
        rcases spares.others number stack (different same) stacked with old | ⟨new, entry, rfl⟩
        · exact .stays turn old
        · exact .begins new

theorem arises_of_move (steady : machine.Steady allowed) (going : (machine.move natives).stopped = false)
    (stacked : (machine.move natives).Stacked number stack) : machine.Arises number stack := by
  have alive : machine.stopped = false := going_of_iterate 1 going
  unfold move at stacked
  split at stacked
  · next turn =>
      have idle : machine.current ≠ some number := turn ▸ nofun
      split at stacked
      · exact .stays idle (stacked.congr rfl fun _ => rfl)
      · have same := find?_takeReady machine.threads
        split at stacked
        · next taken =>
            rw [taken] at same
            exact .stays idle (stacked.congr (congrFun same number) fun _ => rfl)
        · next taken =>
            rw [taken] at same
            exact .stays idle (stacked.congr (congrFun same number) fun _ => rfl)
  · next id current =>
      obtain ⟨slice, last, ran, _⟩ := advance_of_move current going
      rw [ran] at stacked
      cases slice with
      | none => exact arises_of_advance own honest steady current alive ran stacked
      | some slice =>
          exact arises_of_advance own honest steady current alive ran (stacked_endSlice stacked)

/-- Whatever happens to a machine, the threads that live on go at most one stride on. -/
theorem Transition.arises (steady : machine.Steady allowed)
    (transition : Transition natives handed machine after) (going : after.stopped = false)
    (stacked : after.Stacked number stack) : machine.Arises number stack := by
  have idle (resting : machine.state ≠ .running) : machine.current ≠ some number := by
    rw [(steady.resting resting).1]
    nofun
  have rests (begun : machine.state = .suspended ∨ machine.state = .finished) :
      machine.current ≠ some number := by
    refine idle ?_
    rcases begun with suspended | finished <;> simp_all
  cases transition with
  | move _ => exact arises_of_move own honest steady going stacked
  | start begun =>
      obtain ⟨fresh, _, main, block, found, rfl⟩ := started_of_start begun
      have fits : Coherent.Fits machine.script machine.frames (.activate none main block []) :=
        Action.fits_activate found nofun
      refine (steady.spares_spawn fits).arises nofun (idle (by simp [fresh])) ?_
      exact stacked.congr rfl fun id => control?_pin ..
  | tick begun _ => exact .stays (rests begun) (stacked.congr rfl fun _ => rfl)
  | @deliver _ last event _ id begun _ spawned =>
      have spares := steady.spares_spawnHandler event id handed machine rfl
      rw [spawned] at spares
      exact spares.arises nofun (rests begun) (stacked.congr rfl fun _ => rfl)
  | reject _ _ _ => exact (Bool.false_ne_true (going.symm.trans (stopped_fail ..))).elim
  | operate request resting _ =>
      exact (steady.spares_perform request).arises nofun (idle resting) stacked
  | clear resting => exact .stays (idle resting) (stacked.congr rfl fun _ => rfl)

end Sessions

end Machine

end CoopScript
