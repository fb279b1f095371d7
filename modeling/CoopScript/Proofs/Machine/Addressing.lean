import CoopScript.Proofs.Actions.Runs
import CoopScript.Proofs.Frames.Addressing
import CoopScript.Proofs.Machine.Session

/-!
The variables that a frame can name. Whatever a machine does, the frames around a live frame stay the
activations that they were when it began, so that its instructions read and write the slots of these,
also after they have returned.
-/

namespace CoopScript

open FrameArena

/-! Slots. -/

namespace Action

variable {machine : Machine} {id holder : FrameId} {held : Frame} {place : Variable}

theorem run_readSlot_of_resolve (resolves : machine.frames.resolve id place.level = .ok holder)
    (found : machine.frames.frame? holder = some held) :
    (readSlot id place).run machine =
      match held.slots[place.slot]? with
      | some value => .ok value machine
      | none => .error (.slotOutOfRange place.level place.slot) machine := by
  simp only [readSlot, Action.holder, Action.frame, EStateM.run_bind, EStateM.run_get, resolves,
    get_of_frame? found, ofResult, EStateM.run_pure]
  cases held.slots[place.slot]? <;> rfl

theorem run_writeSlot_of_resolve (resolves : machine.frames.resolve id place.level = .ok holder)
    (found : machine.frames.frame? holder = some held) (value : Value) :
    (writeSlot id place value).run machine =
      if place.slot < held.slots.size then
        .ok () { machine with
          frames := machine.frames.set holder
            { held with slots := held.slots.setIfInBounds place.slot value } }
      else .error (.slotOutOfRange place.level place.slot) machine := by
  simp only [writeSlot, Action.holder, Action.frame, EStateM.run_bind, EStateM.run_get, resolves,
    get_of_frame? found, ofResult, EStateM.run_pure]
  split <;> rfl

end Action

namespace Machine

variable {allowed : MachineError → Prop} {machine after : Machine} {program : Program}
  {limits : Limits} {id : FrameId} {frame : Frame}

/-- The variables of a level that the instructions of a frame name are the slots of one activation. -/
def Addresses (machine : Machine) (id : FrameId) (level : Nat) (holder : FrameId) (serial : Nat) :
    Prop :=
  ∃ held, machine.frames.frame? holder = some held ∧ held.activation = serial ∧
    held.level = level ∧
    (∀ slot, (Action.readSlot id ⟨level, slot⟩).run machine =
      match held.slots[slot]? with
      | some value => .ok value machine
      | none => .error (.slotOutOfRange level slot) machine) ∧
    ∀ slot value, (Action.writeSlot id ⟨level, slot⟩ value).run machine =
      if slot < held.slots.size then
        .ok () { machine with
          frames := machine.frames.set holder
            { held with slots := held.slots.setIfInBounds slot value } }
      else .error (.slotOutOfRange level slot) machine

/-- Whatever is done to the frames of a machine, an older frame stays the activation that it was. -/
theorem Change.continues (steady : machine.Steady allowed) (change : Change allowed machine after) :
    machine.frames.Continues after.frames := by
  have counted := steady.coherent.counted
  cases change with
  | quiet quiet => exact .of_skeleton quiet.frames
  | start _ _ fits _ => exact (Continues.allocate counted fits.outside).trans (.pin _ _)
  | descend _ _ fits _ _ => exact .allocate counted fits.outside
  | spawn _ fits _ => exact .allocate counted fits.outside
  | refuse fits _ _ => exact (Continues.allocate counted fits.outside).trans (.retire _ _)
  | ascend _ _ _ _ _ => exact .retire _ _
  | finish _ _ _ => exact .retire _ _
  | close _ _ => exact .retireAll _ _
  | fail _ => exact (frames_fail ..).symm ▸ .refl machine.frames
  | terminate text _ =>
      have same : (machine.terminate text).frames = machine.frames := frames_fail ..
      exact same.symm ▸ .refl machine.frames
  | _ => exact .refl machine.frames

theorem Changes.continues (steady : machine.Steady allowed)
    (changes : Changes allowed machine after) : machine.frames.Continues after.frames := by
  induction changes with
  | refl => exact .refl machine.frames
  | tail before change hypothesis =>
      exact hypothesis.trans (change.continues (steady.changes before))

/-- What a frame finds at a level it finds in every machine that differs in contents alone. -/
theorem addresses_of_quiet {inside : Machine} {level : Nat} {holder : FrameId} {held : Frame}
    (quiet : after.Quiet inside) (resolves : after.frames.resolve id level = .ok holder)
    (found : after.frames.frame? holder = some held) (placed : held.level = level) :
    inside.Addresses id level holder held.activation := by
  obtain ⟨now, live, alike⟩ := frame?_of_skeleton quiet.frames found
  have resolved : inside.frames.resolve id level = .ok holder :=
    (resolve_of_skeleton quiet.frames id level).trans resolves
  exact ⟨now, live, congrArg (·.activation) alike, (congrArg (·.level) alike).trans placed,
    fun slot => @Action.run_readSlot_of_resolve inside id holder now ⟨level, slot⟩ resolved live,
    fun slot => @Action.run_writeSlot_of_resolve inside id holder now ⟨level, slot⟩ resolved live⟩

/-- Every live frame has its frames around it, and the search for a level comes to an end on them: it
finds the first that is at the level or below, if that is at the level. For as long as the frame is
alive, it has the same activations around it and finds the same at each level, and what it reads and
writes there are the slots of this activation, whatever contents an instruction has changed before. -/
theorem Visible.addressing_stable (visible : Visible program limits machine)
    (live : machine.frames.frame? id = some frame) :
    ∃ around, machine.frames.Around id around ∧
      (∀ level fuel, around.length ≤ fuel →
        machine.frames.resolveWithin level fuel id = holderAmong level around) ∧
      (∀ level, machine.frames.resolve id level = holderAmong level around) ∧
      ∀ after now, Relation.ReflTransGen (Follows program limits) machine after →
        after.frames.frame? id = some now → now.activation = frame.activation →
        ∃ others, after.frames.Around id others ∧
          ((others.map fun entry => (entry.1, entry.2.permanent)) =
            around.map fun entry => (entry.1, entry.2.permanent)) ∧
          ∀ level, after.frames.resolve id level = machine.frames.resolve id level ∧
            ∀ holder, machine.frames.resolve id level = .ok holder →
              ∃ held, (holder, held) ∈ around ∧ ∀ inside, after.Quiet inside →
                inside.Addresses id level holder held.activation := by
  have own : ∀ error : MachineError, ¬ error.IsInternal → True := fun _ _ => trivial
  have honest : program.natives.Honest fun _ => True :=
    fun _ _ _ => Routine.honest_of_forall (fun _ => trivial) _
  have steady := visible.steady own honest
  have counted := steady.coherent.counted
  obtain ⟨around, whole⟩ := counted.around live
  have resolves := whole.resolve counted live
  refine ⟨around, whole, fun level fuel enough => whole.resolveWithin level enough, resolves, ?_⟩
  intro after now path alive serial
  have changes := changes_of_follows own honest path
  have right := (steady.changes changes).coherent.counted
  have continues := Changes.continues steady changes
  obtain ⟨others, outward, same⟩ := continues.around counted right whole live alive serial
  refine ⟨others, outward, same, fun level => ?_⟩
  have still : after.frames.resolve id level = machine.frames.resolve id level := by
    rw [outward.resolve right alive, resolves, holderAmong_congr same]
  refine ⟨still, fun holder holds => ?_⟩
  obtain ⟨kept, within, placed⟩ :=
    Around.mem_of_holderAmong ((outward.resolve right alive level).symm.trans (still.trans holds))
  have entry : (holder, kept.permanent) ∈ around.map fun entry => (entry.1, entry.2.permanent) :=
    same ▸ List.mem_map_of_mem within
  obtain ⟨⟨_, held⟩, inside, equal⟩ := List.mem_map.mp entry
  obtain ⟨rfl, alike⟩ := Prod.mk.inj equal
  refine ⟨held, inside, fun current quiet => ?_⟩
  have aged : kept.activation = held.activation := congrArg (·.activation) alike.symm
  exact aged ▸ addresses_of_quiet quiet (still.trans holds) (outward.live_of_mem within) placed

/-! A microthread that outlives the routine that spawned it. -/

/-- The routine sets its variable, which the microthread names. -/
def lending : Program where
  script := {
    blocks := #[
      { kind := .sub, level := 0, codes := #[⟨1, .call (.block ⟨1⟩) 0⟩] },
      { kind := .sub
        level := 1
        slots := 1
        codes := #[
          ⟨2, .pushValue (.boolean true)⟩, ⟨2, .assign ⟨1, 0⟩⟩, ⟨3, .call (.block ⟨2⟩) 0⟩] },
      { kind := .microthread, level := 2, codes := #[⟨4, .pushVariable ⟨1, 0⟩⟩] }]
    main := some ⟨0⟩ }

/-- The machine as it begins its first tick. -/
def lendingBegun : Machine := ((lending.machine {}).started ⟨0⟩ lending.script.blocks[0]).begin

/-- The machine as the microthread has been spawned. -/
def lendingSpawned : Machine := (move lending.natives)^[5] lendingBegun

/-- The machine as the microthread has its turn, after the routine and the main thread. -/
def lendingReturned : Machine := (move lending.natives)^[3] lendingSpawned

theorem reachable_lendingSpawned : Reachable lending {} lendingSpawned := by
  have begun : Reachable lending {} lendingBegun := .step .initial (.start rfl)
  have running : ∀ count < 5, ((move lending.natives)^[count] lendingBegun).state = .running := by
    decide +kernel
  exact begun.iterate 5 running

theorem addresses_lendingReturned : Visible lending {} lendingSpawned ∧
    (lendingReturned.frames.frame? ⟨1⟩).any (·.retired) = true ∧
    lendingReturned.Addresses ⟨2⟩ 1 ⟨1⟩ 1 := by
  have visible : Visible lending {} lendingSpawned := .host reachable_lendingSpawned
  have running : ∀ count < 3, ((move lending.natives)^[count] lendingSpawned).state = .running := by
    decide +kernel
  have path := reachable_lendingSpawned.follows (Path.iterate 3 running)
  have first : (lendingSpawned.frames.frame? ⟨2⟩).map Frame.activation = some 2 := by decide +kernel
  have last : (lendingReturned.frames.frame? ⟨2⟩).map Frame.activation = some 2 := by decide +kernel
  obtain ⟨frame, live, serial⟩ := Option.map_eq_some_iff.mp first
  obtain ⟨now, alive, same⟩ := Option.map_eq_some_iff.mp last
  obtain ⟨around, whole, _, _, lasting⟩ := Visible.addressing_stable visible live
  obtain ⟨_, _, _, resolves⟩ := lasting lendingReturned now path alive (same.trans serial.symm)
  have found : lendingSpawned.frames.resolve ⟨2⟩ 1 = .ok ⟨1⟩ := by decide +kernel
  obtain ⟨held, inside, addresses⟩ := (resolves 1).2 ⟨1⟩ found
  have lender : (lendingSpawned.frames.frame? ⟨1⟩).map Frame.activation = some 1 := by
    decide +kernel
  have returned : (lendingReturned.frames.frame? ⟨1⟩).any (·.retired) = true := by decide +kernel
  have there := whole.live_of_mem inside
  rw [there, Option.map_some, Option.some.injEq] at lender
  have finds := addresses lendingReturned (Quiet.refl lendingReturned)
  rw [lender] at finds
  exact ⟨visible, returned, finds⟩

end Machine

end CoopScript
