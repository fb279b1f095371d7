import CoopScript.Proofs.Frames.Places
import CoopScript.Proofs.Machine.Stride

/-!
Breaks of loops and routines, exactly: the frames that they end are found along the call stack, and
nothing but the places of frames in their code is changed.
-/

namespace CoopScript

open FrameArena MachineError

namespace FrameArena

/-- Frames go on at other places in their code. -/
def goTo (arena : FrameArena) (places : List (FrameId × Nat)) : FrameArena :=
  places.foldl
    (fun arena place => arena.edit place.1 fun frame => { frame with position := place.2 }) arena

@[simp] theorem goTo_nil (arena : FrameArena) : arena.goTo [] = arena := rfl

theorem goTo_cons (arena : FrameArena) (id : FrameId) (position : Nat)
    (places : List (FrameId × Nat)) :
    arena.goTo ((id, position) :: places) =
      (arena.edit id fun frame => { frame with position }).goTo places := rfl

/-- Only the places of the frames that are named change. -/
theorem frame?_goTo {places : List (FrameId × Nat)} (distinct : (places.map (·.1)).Nodup)
    (arena : FrameArena) (id : FrameId) :
    (arena.goTo places).frame? id = (arena.frame? id).map fun frame =>
      { frame with position := (places.lookup id).getD frame.position } := by
  induction places generalizing arena with
  | nil => simp
  | cons place rest hypothesis =>
      obtain ⟨other, position⟩ := place
      obtain ⟨absent, later⟩ := List.nodup_cons.mp distinct
      rw [goTo_cons, hypothesis later, frame?_edit]
      by_cases same : id = other
      · subst same
        have missing : rest.lookup id = none := by
          rw [List.lookup_eq_none_iff]
          intro entry inside
          refine bne_iff_ne.mpr fun equal => absent ?_
          exact List.mem_map.mpr ⟨entry, inside, equal.symm⟩
        cases found : arena.frame? id <;> simp [missing]
      · rw [if_neg same, List.lookup_cons, beq_false_of_ne same]

theorem frame?_goTo_of_not_mem {places : List (FrameId × Nat)} {id : FrameId}
    (distinct : (places.map (·.1)).Nodup) (arena : FrameArena) (absent : id ∉ places.map (·.1)) :
    (arena.goTo places).frame? id = arena.frame? id := by
  have missing : places.lookup id = none := by
    rw [List.lookup_eq_none_iff]
    intro place inside
    exact bne_iff_ne.mpr fun same => absent (List.mem_map.mpr ⟨place, inside, same.symm⟩)
  rw [frame?_goTo distinct, missing]
  exact Option.map_id'

theorem slots_goTo {places : List (FrameId × Nat)} {arena : FrameArena} {id : FrameId} {now : Frame}
    (distinct : (places.map (·.1)).Nodup) (found : (arena.goTo places).frame? id = some now) :
    ∃ held, arena.frame? id = some held ∧ now.slots = held.slots := by
  rw [frame?_goTo distinct] at found
  obtain ⟨held, live, rfl⟩ := Option.map_eq_some_iff.mp found
  exact ⟨held, live, rfl⟩

end FrameArena

namespace CallStack

variable {inner outer stack : CallStack} {last parent : FrameId × Frame}

/-- The frames of a stack are over. -/
def finished (stack : CallStack) : CallStack := stack.map fun entry => (entry.1, entry.2.over)

/-- Where frames are when they are over. -/
def finishes (stack : CallStack) : List (FrameId × Nat) :=
  stack.map fun entry => (entry.1, entry.2.finish)

/-- Frames out to a loop block, without another loop block and without a routine among them. -/
structure ToLoop (inner : CallStack) (last : FrameId × Frame) : Prop where
  loop : last.2.kind = .loop
  inside : ∀ entry ∈ inner, entry.2.kind ≠ .loop ∧ entry.2.kind.isRoutine = false

/-- Frames out to a routine or to the root of the stack, without another routine among them. -/
structure ToRoutine (inner : CallStack) (last : FrameId × Frame) (outer : CallStack) : Prop where
  ends : last.2.kind.isRoutine = true ∨ outer = []
  inside : ∀ entry ∈ inner, entry.2.kind.isRoutine = false

theorem endLoop_of_toLoop (toLoop : ToLoop inner last) :
    endLoop (inner ++ last :: parent :: outer) =
      some (finished (inner ++ [last]) ++ (parent.1, parent.2.passed) :: outer) := by
  induction inner with
  | nil =>
      have plain : ¬ last.2.kind.isRoutine = true := by simp [toLoop.loop, BlockKind.isRoutine]
      rw [List.nil_append, endLoop, if_neg plain, if_pos toLoop.loop]
      rfl
  | cons first rest hypothesis =>
      obtain ⟨⟨other, plain⟩, further⟩ := List.forall_mem_cons.mp toLoop.inside
      have ends := hypothesis ⟨toLoop.loop, further⟩
      obtain ⟨second, others, same⟩ : ∃ second others,
          rest ++ last :: parent :: outer = second :: others := by
        cases rest <;> exact ⟨_, _, rfl⟩
      rw [same] at ends
      rw [List.cons_append, same, endLoop, if_neg (by simp [plain]), if_neg other, ends]
      rfl

theorem endRoutine_of_toRoutine (toRoutine : ToRoutine inner last outer) :
    endRoutine (inner ++ last :: outer) = finished (inner ++ [last]) ++ outer := by
  induction inner with
  | nil =>
      rw [List.nil_append, endRoutine]
      split
      · rfl
      · next plain =>
          obtain rfl := toRoutine.ends.resolve_left plain
          rfl
  | cons first rest hypothesis =>
      obtain ⟨plain, further⟩ := List.forall_mem_cons.mp toRoutine.inside
      rw [List.cons_append, endRoutine, if_neg (by simp [plain]), hypothesis ⟨toRoutine.ends, further⟩]
      rfl

end CallStack

open CallStack (ToLoop ToRoutine finished finishes endLoop_of_toLoop endRoutine_of_toRoutine)

/-- Where frames go that are ended, and maybe the one around them. -/
def CallStack.ending (ended : CallStack) (around : FrameId) (resume : Option Nat) :
    List (FrameId × Nat) :=
  finishes ended ++ resume.toList.map fun position => (around, position)

@[simp] theorem CallStack.names_finishes (ended : CallStack) :
    (finishes ended).map (·.1) = ended.map (·.1) := by
  simp [finishes, Function.comp_def]

theorem CallStack.names_ending (ended : CallStack) (around : FrameId) (resume : Option Nat) :
    (ended.ending around resume).map (·.1) = ended.map (·.1) ++ resume.toList.map fun _ => around := by
  simp [ending, Function.comp_def]

theorem CallStack.nodup_ending {ended : CallStack} {around : FrameId}
    (distinct : (ended.map (·.1) ++ [around]).Nodup) (resume : Option Nat) :
    ((ended.ending around resume).map (·.1)).Nodup := by
  rw [names_ending]
  refine distinct.sublist (.append_left ?_ _)
  cases resume <;> simp

/-- The frame around goes where it is to go, if it is. -/
theorem FrameArena.frame?_goTo_ending {ended : CallStack} {around : FrameId}
    (distinct : (ended.map (·.1) ++ [around]).Nodup) (arena : FrameArena) (resume : Option Nat) :
    (arena.goTo (ended.ending around resume)).frame? around =
      (arena.frame? around).map fun frame =>
        { frame with position := resume.getD frame.position } := by
  have missing : (finishes ended).lookup around = none := by
    rw [List.lookup_eq_none_iff]
    intro place inside
    obtain ⟨entry, there, rfl⟩ := List.mem_map.mp inside
    exact bne_iff_ne.mpr fun same => (List.nodup_append.mp distinct).2.2 _
      (List.mem_map.mpr ⟨entry, there, rfl⟩) _ List.mem_cons_self same.symm
  have place : (resume.toList.map fun position => (around, position)).lookup around = resume := by
    cases resume <;> simp
  rw [frame?_goTo (CallStack.nodup_ending distinct resume), CallStack.ending, List.lookup_append,
    missing, place]
  rfl

namespace Action

variable {machine : Machine} {root id : FrameId} {fuel : Nat} {inner outer stack : CallStack}
  {last parent : FrameId × Frame}

/-- With the first frame of a stack over, the stack around it is what it was. -/
theorem stack_over {held : Frame} (whole : machine.frames.Stack root id ((id, held.control) :: outer))
    (distinct : (((id, held.control) :: outer).map (·.1)).Nodup)
    (live : machine.frames.frame? id = some held) {around : FrameId}
    (rest : machine.frames.Stack root around outer) :
    (machine.frames.set id held.over).Stack root around outer := by
  have ended : machine.frames.Becomes (machine.frames.set id held.over)
      ((id, held.control) :: outer) ((id, held.control.over) :: outer) :=
    .set_head whole (absent_of_nodup distinct) live rfl rfl
  exact rest.transport fun entry inside => ended.shown entry (List.mem_cons_of_mem _ inside)

theorem goTo_finishes_cons {held : Frame} (live : machine.frames.frame? id = some held)
    (rest : CallStack) (places : List (FrameId × Nat)) :
    machine.frames.goTo (finishes ((id, held.control) :: rest) ++ places) =
      (machine.frames.set id held.over).goTo (finishes rest ++ places) := by
  simp only [finishes, List.map_cons, List.cons_append, goTo_cons, edit_eq_set live]
  rfl

/-- A break of a routine moves the frames out to the routine, or to the root, to their ends. -/
theorem run_breakRoutine_goes (whole : machine.frames.Stack root id (inner ++ last :: outer))
    (distinct : ((inner ++ last :: outer).map (·.1)).Nodup)
    (toRoutine : ToRoutine inner last outer) (enough : inner.length < fuel) :
    (breakRoutine root fuel id).run machine =
      .ok () { machine with frames := machine.frames.goTo (finishes (inner ++ [last])) } := by
  induction inner generalizing machine id fuel with
  | nil =>
      obtain ⟨fuel, rfl⟩ := Nat.exists_eq_succ_of_ne_zero (Nat.ne_of_gt enough)
      obtain ⟨frame, further, same, found⟩ := whole.cases_head
      obtain ⟨rfl, rfl⟩ := List.cons.inj same
      obtain ⟨held, live, rfl, reads⟩ := head_frame found
      have ended : id = root ∨ held.kind.isRoutine = true := by
        rcases toRoutine.ends with routine | rfl
        · exact .inr routine
        · cases whole with
          | root _ _ => exact .inl rfl
          | inner _ _ _ _ rest => exact absurd rest.chain.length_pos (by simp)
      have goes := goTo_finishes_cons live [] []
      simp only [List.append_nil] at goes
      simp only [breakRoutine, EStateM.run_bind, reads, run_over]
      rw [if_pos (by simpa using ended), List.nil_append, goes]
      rfl
  | cons first rest hypothesis =>
      obtain ⟨fuel, rfl⟩ := Nat.exists_eq_succ_of_ne_zero (Nat.ne_of_gt (Nat.zero_lt_of_lt enough))
      obtain ⟨frame, further, same, found⟩ := whole.cases_head
      obtain ⟨rfl, rfl⟩ := List.cons.inj same
      obtain ⟨held, live, rfl, reads⟩ := head_frame found
      obtain ⟨plain, inside⟩ := List.forall_mem_cons.mp toRoutine.inside
      obtain ⟨different, parent, named, around⟩ := whole.around (by simp)
      have nested : ¬ (decide (id = root) || held.kind.isRoutine) = true := by
        rw [decide_eq_false different, Bool.false_or]
        exact fun routine => Bool.false_ne_true (plain.symm.trans routine)
      have names : held.parent = some parent := named
      have goes := goTo_finishes_cons live (rest ++ [last]) []
      simp only [List.append_nil] at goes
      simp only [breakRoutine, EStateM.run_bind, reads, run_over]
      rw [if_neg nested]
      simp only [names]
      rw [@hypothesis { machine with frames := machine.frames.set id held.over } _ fuel
        (stack_over whole distinct live around) (List.nodup_cons.mp distinct).2
        ⟨toRoutine.ends, inside⟩ (by simpa using enough), List.cons_append, goes]

/-- A break of a loop moves the frames out to the loop block to their ends, and the frame around it
over its next instruction. -/
theorem run_breakLoop_goes
    (whole : machine.frames.Stack root id (inner ++ last :: parent :: outer))
    (distinct : ((inner ++ last :: parent :: outer).map (·.1)).Nodup) (toLoop : ToLoop inner last)
    (enough : inner.length < fuel) :
    (breakLoop root fuel id).run machine =
      .ok () { machine with
        frames := machine.frames.goTo
          (finishes (inner ++ [last]) ++ [(parent.1, parent.2.position + 1)]) } := by
  induction inner generalizing machine id fuel with
  | nil =>
      obtain ⟨fuel, rfl⟩ := Nat.exists_eq_succ_of_ne_zero (Nat.ne_of_gt enough)
      obtain ⟨frame, further, same, found⟩ := whole.cases_head
      obtain ⟨rfl, rfl⟩ := List.cons.inj same
      obtain ⟨held, live, rfl, reads⟩ := head_frame found
      obtain ⟨different, around, named, rest⟩ := whole.around (by simp)
      have loop : held.kind = .loop := toLoop.loop
      have nested : ¬ (decide (id = root) || held.kind.isRoutine) = true := by
        simp [different, loop, BlockKind.isRoutine]
      have names : held.parent = some around := named
      have kept := stack_over whole distinct live rest
      obtain ⟨_, _, same, found⟩ := kept.cases_head
      obtain ⟨rfl, rfl⟩ := List.cons.inj same
      obtain ⟨caller, there, rfl, reads'⟩ := @head_frame
        { machine with frames := machine.frames.set id held.over } _ _ found
      have goes : machine.frames.goTo
          (finishes [(id, held.control)] ++ [(around, caller.control.position + 1)]) =
            (machine.frames.set id held.over).set around
              { caller with position := caller.position + 1 } := by
        rw [goTo_finishes_cons live]
        exact edit_eq_set there _
      simp only [breakLoop, EStateM.run_bind, reads, run_over]
      rw [if_neg nested]
      simp only [names, if_pos loop, EStateM.run_bind, reads', run_setFrame]
      rw [List.nil_append, goes]
  | cons first rest hypothesis =>
      obtain ⟨fuel, rfl⟩ := Nat.exists_eq_succ_of_ne_zero (Nat.ne_of_gt (Nat.zero_lt_of_lt enough))
      obtain ⟨frame, further, same, found⟩ := whole.cases_head
      obtain ⟨rfl, rfl⟩ := List.cons.inj same
      obtain ⟨held, live, rfl, reads⟩ := head_frame found
      obtain ⟨⟨other, plain⟩, inside⟩ := List.forall_mem_cons.mp toLoop.inside
      obtain ⟨different, around, named, outward⟩ := whole.around (by simp)
      have nested : ¬ (decide (id = root) || held.kind.isRoutine) = true := by
        rw [decide_eq_false different, Bool.false_or]
        exact fun routine => Bool.false_ne_true (plain.symm.trans routine)
      have names : held.parent = some around := named
      have goes := goTo_finishes_cons live (rest ++ [last]) [(parent.1, parent.2.position + 1)]
      simp only [breakLoop, EStateM.run_bind, reads, run_over]
      rw [if_neg nested]
      simp only [names, if_neg (show ¬ held.kind = .loop from other)]
      rw [@hypothesis { machine with frames := machine.frames.set id held.over } _ fuel
        (stack_over whole distinct live outward) (List.nodup_cons.mp distinct).2
        ⟨toLoop.loop, inside⟩ (by simpa using enough), List.cons_append, goes]

/-- A break of a loop fails if there is no loop block on the way to a routine or to the root. -/
theorem run_breakLoop_fails (whole : machine.frames.Stack root id stack)
    (distinct : (stack.map (·.1)).Nodup)
    (missing : ∀ inner last parent outer, stack = inner ++ last :: parent :: outer →
      ¬ ToLoop inner last) :
    ∃ frames, (breakLoop root fuel id).run machine =
      .error .breakOutsideLoop { machine with frames } := by
  induction fuel generalizing machine id stack with
  | zero => exact ⟨machine.frames, rfl⟩
  | succ fuel hypothesis =>
      obtain ⟨frame, outer, rfl, found⟩ := whole.cases_head
      obtain ⟨held, live, rfl, reads⟩ := head_frame found
      simp only [breakLoop, EStateM.run_bind, reads, run_over]
      by_cases bounded : (decide (id = root) || held.kind.isRoutine) = true
      · rw [if_pos bounded]
        exact ⟨machine.frames.set id held.over, rfl⟩
      · rw [if_neg bounded]
        obtain ⟨inner, plain⟩ : ¬ id = root ∧ ¬ held.kind.isRoutine = true := by simpa using bounded
        obtain ⟨around, named, outward⟩ := whole.outward inner
        obtain ⟨caller, further, rfl, _⟩ := outward.cases_head
        have names : held.parent = some around := named
        have other : ¬ held.kind = .loop := fun loop =>
          missing [] _ _ _ rfl ⟨loop, List.forall_mem_nil _⟩
        simp only [names, if_neg other]
        refine @hypothesis { machine with frames := machine.frames.set id held.over } _ _
          (stack_over whole distinct live outward) (List.nodup_cons.mp distinct).2 ?_
        intro inner last parent outer same toLoop
        refine missing ((id, held.control) :: inner) last parent outer (congrArg _ same)
          ⟨toLoop.loop, List.forall_mem_cons.mpr ⟨⟨other, ?_⟩, toLoop.inside⟩⟩
        exact Bool.not_eq_true _ ▸ plain

end Action

end CoopScript
