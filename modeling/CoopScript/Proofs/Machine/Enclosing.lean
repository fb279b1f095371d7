import CoopScript.Proofs.Machine.Breaking
import CoopScript.Proofs.Machine.Calling

/-!
Activations of loop blocks. A frame that called a loop block waits as it is, but for its result, until
the thread has left that block. It goes on after the call, or over one more instruction if the block was
left by a break.
-/

namespace CoopScript

open CallStack (endRoutine endLoop withResult finished stand ToLoop endLoop_of_toLoop stands_withResult
  change_head forall_kind_iff)

namespace CallStack

variable {script : Script} {inner outer rest stack old new : CallStack} {child id : FrameId}
  {now held changed : Frame} {last : FrameId × Frame}

/-- The instruction that the first frame of a stack executes next. -/
def instruction? (script : Script) : CallStack → Option Instruction
  | [] => none
  | (_, frame) :: _ => (frame.code? script).map Code.instruction

/-- The first frame breaks the loop of a frame around it: in the block that the frame called, or in blocks
inside that are neither loops nor routines. -/
def BreaksLoop (script : Script) (id : FrameId) (stack : CallStack) : Prop :=
  stack.instruction? script = some .breakLoop ∧ ∃ inner last frame outer,
    stack = inner ++ last :: (id, frame) :: outer ∧ ToLoop inner last

/-- The first frame breaks the routine that a frame around it is or is in. -/
def BreaksRoutine (script : Script) (id : FrameId) (stack : CallStack) : Prop :=
  stack.instruction? script = some .breakRoutine ∧ ∃ inner frame outer,
    stack = inner ++ (id, frame) :: outer ∧ ∀ entry ∈ inner, entry.2.kind.isRoutine = false

/-- A break of a routine inside some frames goes no further out. -/
theorem endRoutine_within {entry : FrameId × Frame} (inside : entry ∈ inner)
    (routine : entry.2.kind.isRoutine = true) (outer : CallStack) :
    ∃ further, endRoutine (inner ++ outer) = further ++ outer := by
  induction inner with
  | nil => cases inside
  | cons first rest hypothesis =>
      simp only [List.cons_append, endRoutine]
      split
      · exact ⟨(first.1, first.2.over) :: rest, rfl⟩
      · next plain =>
          rcases List.mem_cons.mp inside with rfl | further
          · exact (plain routine).elim
          · obtain ⟨further, same⟩ := hypothesis further
            exact ⟨(first.1, first.2.over) :: further, by rw [same, List.cons_append]⟩

/-- A break of another loop inside a loop block goes no further out. -/
theorem endLoop_within (loop : now.kind = .loop) (other : ¬ ToLoop inner (child, now))
    (ends : endLoop (inner ++ (child, now) :: outer) = some new) :
    ∃ further later, new = further ++ (child, later) :: outer ∧ later.promise = now.promise := by
  induction inner generalizing new with
  | nil => exact (other ⟨loop, nofun⟩).elim
  | cons first rest hypothesis =>
      obtain ⟨second, others, same⟩ : ∃ second others,
          rest ++ (child, now) :: outer = second :: others := by
        cases rest <;> exact ⟨_, _, rfl⟩
      rw [List.cons_append, same, endLoop] at ends
      split at ends
      · cases ends
      · next plain =>
          split at ends
          · cases ends
            obtain ⟨further, later, changed, kept, _⟩ :=
              @change_head _ _ _ _ _ _ _ same second.2.passed rfl
            exact ⟨(first.1, first.2.over) :: further, later, congrArg (_ :: ·) changed, kept⟩
          · next another =>
              obtain ⟨ended, sofar, rfl⟩ := Option.map_eq_some_iff.mp ends
              have deeper : ¬ ToLoop rest (child, now) := by
                intro toLoop
                refine other ⟨loop, List.forall_mem_cons.mpr ⟨⟨another, ?_⟩, toLoop.inside⟩⟩
                exact Bool.not_eq_true _ ▸ plain
              obtain ⟨further, later, rfl, kept⟩ := hypothesis deeper (same ▸ sofar)
              exact ⟨(first.1, first.2.over) :: further, later, rfl, kept⟩

theorem eq_of_stand {entry : FrameId × Frame} (same : stand entry = stand (id, held)) :
    entry = (id, { held with result := entry.2.result }) := by
  obtain ⟨name, frame⟩ := entry
  obtain ⟨rfl, alike⟩ := Prod.mk.inj same
  exact congrArg (fun other : Frame => (name, { other with result := frame.result })) alike

/-- The frames of a stack stay what they are, but for their results. -/
theorem split_of_stands (same : new.map stand = (inner ++ (child, now) :: (id, held) :: outer).map stand) :
    ∃ further given passed around, new =
      further ++ (child, { now with result := given }) :: (id, { held with result := passed }) :: around := by
  rw [List.map_append, List.map_cons, List.map_cons] at same
  obtain ⟨further, rest, rfl, _, same⟩ := List.map_eq_append_iff.mp same
  obtain ⟨first, rest, rfl, alike, same⟩ := List.map_eq_cons_iff.mp same
  obtain ⟨second, around, rfl, kept, _⟩ := List.map_eq_cons_iff.mp same
  refine ⟨further, first.2.result, second.2.result, around, ?_⟩
  rw [← eq_of_stand alike, ← eq_of_stand kept]

theorem toLoop_congr {inner' : CallStack} {now' : Frame}
    (kinds : inner'.map (·.2.kind) = inner.map (·.2.kind)) (kept : now'.promise = now.promise) :
    ToLoop inner' (child, now') ↔ ToLoop inner (child, now) := by
  have kind : now'.kind = now.kind := congrArg Prod.fst kept
  have inside := forall_kind_iff kinds fun kind => kind ≠ .loop ∧ kind.isRoutine = false
  constructor
  · rintro ⟨loop, plain⟩
    exact ⟨kind.symm.trans loop, inside.mp plain⟩
  · rintro ⟨loop, plain⟩
    exact ⟨kind.trans loop, inside.mpr plain⟩

/-- What a call stack shows of a loop block that a frame called: the frame waits while the block is
executed, or it has been left. A break has moved the frame over one more instruction, and ended the
block and all frames inside it. -/
inductive Encloses (script : Script) (child id : FrameId) (held : Frame) : Bool → CallStack → Prop
  | inside {inner outer : CallStack} {now : Frame} {result : Value} : now.kind = .loop →
      now.returnsResult = false →
      Encloses script child id held false
        (inner ++ (child, now) :: (id, { held with result }) :: outer)
  | ended {inner outer : CallStack} {now : Frame} {result : Value} : now.returnsResult = false →
      now.code? script = none → (∀ entry ∈ inner, entry.2.code? script = none) →
      Encloses script child id held true
        (inner ++ (child, now) :: (id, { held.passed with result }) :: outer)
  | left {outer : CallStack} {result : Value} {broken : Bool} :
      Encloses script child id held broken
        ((id, { (if broken then held.passed else held) with result }) :: outer)

theorem instruction?_cons (frame : Frame) : instruction? script ((id, frame) :: outer) =
    (frame.code? script).map Code.instruction := rfl

section Strides

variable {top : FrameId} {frame : Frame} {result : Value} {instruction : Instruction}

/-- A break leaves the block if no other loop is inside it, and else that one. -/
theorem Encloses.endLoop
    (ends : CallStack.endLoop (inner ++ (child, now) :: (id, { held with result }) :: outer) = some new)
    (loop : now.kind = .loop) (mute : now.returnsResult = false)
    (spent : ∀ entry ∈ inner ++ [(child, now)], entry.2.over.code? script = none) :
    ∃ broken, Encloses script child id held broken new ∧
      (broken = true ↔ ToLoop inner (child, now)) := by
  by_cases breaks : ToLoop inner (child, now)
  · rw [endLoop_of_toLoop breaks] at ends
    cases ends
    have gone : ∀ entry ∈ finished (inner ++ [(child, now)]), entry.2.code? script = none := by
      intro entry inside
      obtain ⟨first, among, rfl⟩ := List.mem_map.mp inside
      exact spent first among
    have split : finished (inner ++ [(child, now)]) = finished inner ++ [(child, now.over)] :=
      List.map_append
    rw [split] at gone ⊢
    rw [List.append_assoc, List.singleton_append]
    refine ⟨true, .ended mute ?_ ?_, by simp [breaks]⟩
    · exact gone _ (List.mem_append_right _ List.mem_cons_self)
    · exact fun entry inside => gone entry (List.mem_append_left _ inside)
  · obtain ⟨_, last, rfl, still⟩ := endLoop_within loop breaks ends
    refine ⟨false, .inside ?_ ?_, by simp [breaks]⟩
    · exact (congrArg Prod.fst still).trans loop
    · exact (congrArg (fun promise => promise.2.1) still).trans mute

/-- What an instruction inside a loop block makes of the frames out to the one that called the block. -/
theorem Encloses.effect (effect : instruction.Effect script ((top, frame.passed) :: rest) new)
    (same : inner ++ (child, now) :: (id, { held with result }) :: outer = (top, frame) :: rest)
    (loop : now.kind = .loop) (mute : now.returnsResult = false)
    (spent : ∀ entry ∈ (top, frame) :: rest, entry.2.over.code? script = none)
    (stays : instruction = .breakRoutine → ∃ entry ∈ inner, entry.2.kind.isRoutine = true) :
    ∃ broken, Encloses script child id held broken new ∧
      (broken = true ↔ instruction = .breakLoop ∧ ToLoop inner (child, now)) := by
  have keeps {later : Frame} (kept : later.promise = now.promise) :
      later.kind = .loop ∧ later.returnsResult = false :=
    ⟨(congrArg Prod.fst kept).trans loop, (congrArg (fun promise => promise.2.1) kept).trans mute⟩
  have within {later : Frame} {result : Value} {inner outer : CallStack}
      (kept : later.promise = now.promise) : Encloses script child id held false
        (inner ++ (child, later) :: (id, { held with result }) :: outer) :=
    .inside (keeps kept).1 (keeps kept).2
  cases effect with
  | @within _ _ _ _ position operands plain =>
      obtain ⟨_, _, changed, kept, _⟩ :=
        @change_head _ _ _ _ _ _ _ same { frame.passed with position, stack := operands } rfl
      rw [changed]
      refine ⟨false, within kept, ?_⟩
      have other : instruction ≠ .breakLoop := by
        rintro rfl
        cases plain
      simp [other]
  | @setResult _ _ _ _ value operands _ sets =>
      obtain ⟨_, _, changed, kept, _⟩ :=
        @change_head _ _ _ _ _ _ _ same { frame.passed with stack := operands } rfl
      rw [changed] at sets
      obtain ⟨_, _, _, _, rfl⟩ := split_of_stands (stands_withResult sets)
      exact ⟨false, .inside (keeps kept).1 (keeps kept).2, by simp⟩
  | breakRoutine =>
      obtain ⟨inner', later, changed, kept, kinds⟩ := @change_head _ _ _ _ _ _ _ same frame.passed rfl
      rw [changed]
      obtain ⟨entry, inside, routine⟩ : ∃ entry ∈ inner', entry.2.kind.isRoutine = true := by
        obtain ⟨entry, inside, routine⟩ := stays rfl
        by_contra missing
        refine (forall_kind_iff kinds (¬ ·.isRoutine = true)).mp ?_ entry inside routine
        exact fun entry inside routine => missing ⟨entry, inside, routine⟩
      obtain ⟨_, ended⟩ := endRoutine_within inside routine _
      rw [ended]
      exact ⟨false, within kept, by simp⟩
  | breakLoop ends =>
      obtain ⟨inner', later, changed, kept, kinds⟩ := @change_head _ _ _ _ _ _ _ same frame.passed rfl
      rw [changed] at ends
      have among : ∀ entry ∈ inner' ++ [(child, later)], entry.2.over.code? script = none := by
        intro entry inside
        have there : entry ∈ (top, frame.passed) :: rest := by
          rw [changed, List.append_cons]
          exact List.mem_append_left _ inside
        rcases List.mem_cons.mp there with rfl | further
        · exact spent (top, frame) List.mem_cons_self
        · exact spent entry (List.mem_cons_of_mem _ further)
      obtain ⟨broken, now, breaks⟩ := Encloses.endLoop ends (keeps kept).1 (keeps kept).2 among
      exact ⟨broken, now, breaks.trans (by simp [toLoop_congr kinds kept])⟩
  | @call _ _ called _ _ _ block count serial pushesResult calls _ _ =>
      obtain ⟨inner', _, changed, kept, _⟩ :=
        @change_head _ _ _ _ _ _ _ same { frame.passed with stack := frame.stack.drop count } rfl
      have other : instruction ≠ .breakLoop := by
        rintro rfl
        cases calls
      have deeper (entry : FrameId × Frame) : Encloses script child id held false (entry ::
          (top, { frame.passed with stack := frame.stack.drop count }) :: rest) := by
        rw [changed, ← List.cons_append]
        exact within kept
      exact ⟨false, deeper _, by simp [other]⟩

/-- From a break on the block and the frames inside it are left one after another. -/
theorem Encloses.leaves (mute : now.returnsResult = false) (last : now.code? script = none)
    (first : ∀ entry ∈ inner, entry.2.code? script = none)
    (stride : Stride script (inner ++ (child, now) :: (id, { held.passed with result }) :: outer) new) :
    Encloses script child id held true new := by
  generalize same : inner ++ (child, now) :: _ = old at stride
  cases stride with
  | execute coded _ =>
      cases inner with
      | nil =>
          cases (List.cons.inj same).1
          cases last.symm.trans coded
      | cons entry rest =>
          cases (List.cons.inj same).1
          cases (first _ List.mem_cons_self).symm.trans coded
  | @leave top parent frame caller rest _ =>
      rw [show (if frame.returnsResult then caller.push frame.result else caller) =
        caller.receive frame from rfl]
      cases inner with
      | nil =>
          obtain ⟨here, around⟩ := List.cons.inj same
          cases here
          cases around
          rw [Frame.receive_of_mute _ mute]
          exact .left
      | cons entry further =>
          obtain ⟨rfl, around⟩ := List.cons.inj same
          cases further with
          | nil =>
              obtain ⟨here, rfl⟩ := List.cons.inj around
              cases here
              refine @Encloses.ended _ _ _ _ [] _ _ _ ?_ ?_ nofun
              · rw [Frame.returnsResult_receive, mute]
              · rw [Frame.code?_receive, last]
          | cons second further =>
              obtain ⟨rfl, rfl⟩ := List.cons.inj around
              refine @Encloses.ended _ _ _ _ ((parent, caller.receive frame) :: further) _ _ _ mute last ?_
              rw [List.forall_mem_cons] at first ⊢
              refine ⟨?_, fun entry inside => first.2 entry (List.mem_cons_of_mem _ inside)⟩
              rw [Frame.code?_receive]
              exact first.2 _ List.mem_cons_self

/-- A stride that is not one of the frame that called, and no break of a routine around it. -/
theorem Encloses.stride {broken : Bool} (encloses : Encloses script child id held broken old)
    (stride : Stride script old new) (distinct : (old.map (·.1)).Nodup)
    (spent : ∀ entry ∈ old, entry.2.over.code? script = none)
    (elsewhere : ∀ frame outer, old ≠ (id, frame) :: outer) (stays : ¬ BreaksRoutine script id old) :
    ∃ later, Encloses script child id held later new ∧
      (later = true ↔ broken = true ∨ BreaksLoop script id old) := by
  cases encloses with
  | left => exact (elsewhere _ _ rfl).elim
  | ended mute last first => exact ⟨true, .leaves mute last first stride, by simp⟩
  | @inside inner outer now result loop mute =>
      generalize same : inner ++ (child, now) :: _ = old at stride distinct spent elsewhere stays ⊢
      cases stride with
      | @execute top frame rest _ code coded effect =>
          have next : instruction? script ((top, frame) :: rest) = some code.instruction := by
            rw [instruction?_cons, coded]
            rfl
          have single {inner' outer' : CallStack} {around : Frame} (again : (top, frame) :: rest =
              inner' ++ (id, around) :: outer') : inner' = inner ++ [(child, now)] := by
            rw [List.append_cons] at same
            exact Machine.inner_unique (again.symm.trans same.symm) (again ▸ distinct)
          have breaks : BreaksLoop script id ((top, frame) :: rest) ↔
              code.instruction = .breakLoop ∧ ToLoop inner (child, now) := by
            constructor
            · rintro ⟨breaks, inner', last, around, outer', again, toLoop⟩
              rw [List.append_cons] at again
              obtain ⟨rfl, last⟩ := List.append_inj' (single again) rfl
              cases last
              exact ⟨Option.some.inj (next.symm.trans breaks), toLoop⟩
            · rintro ⟨breaks, toLoop⟩
              exact ⟨next.trans (congrArg some breaks), inner, _, _, outer, same.symm, toLoop⟩
          have routine (breaks : code.instruction = .breakRoutine) :
              ∃ entry ∈ inner, entry.2.kind.isRoutine = true := by
            by_contra missing
            refine stays ⟨next.trans (congrArg some breaks), inner ++ [(child, now)],
              { held with result }, outer, ?_, ?_⟩
            · rw [← same, List.append_assoc, List.singleton_append]
            · simp only [List.forall_mem_append, List.forall_mem_singleton, loop]
              refine ⟨fun entry inside => ?_, rfl⟩
              exact Bool.not_eq_true _ ▸ fun routine => missing ⟨entry, inside, routine⟩
          obtain ⟨later, now, broken⟩ := Encloses.effect effect same loop mute spent routine
          exact ⟨later, now, by simp [broken, breaks]⟩
      | @leave top parent frame caller rest done =>
          have silent : ¬ BreaksLoop script id ((top, frame) :: (parent, caller) :: rest) := by
            rintro ⟨breaks, _⟩
            rw [instruction?_cons, done] at breaks
            cases breaks
          refine ⟨false, ?_, by simp [silent]⟩
          rw [show (if frame.returnsResult then caller.push frame.result else caller) =
            caller.receive frame from rfl]
          cases inner with
          | nil =>
              obtain ⟨here, around⟩ := List.cons.inj same
              cases here
              cases around
              rw [Frame.receive_of_mute _ mute]
              exact .left
          | cons entry further =>
              obtain ⟨rfl, around⟩ := List.cons.inj same
              have promise : (caller.receive frame).promise = caller.promise := by
                unfold Frame.receive
                split <;> rfl
              obtain ⟨inner', later, changed, kept, _⟩ := change_head around promise
              rw [changed]
              exact .inside ((congrArg Prod.fst kept).trans loop)
                ((congrArg (fun promise => promise.2.1) kept).trans mute)

/-- Around a loop block that a frame called there is that frame, with the operands that it had. -/
theorem Encloses.around {broken : Bool} (encloses : Encloses script child id held broken stack) :
    ∃ inner around outer, stack = inner ++ (id, around) :: outer ∧ around.stack = held.stack := by
  cases encloses with
  | @inside inner _ now _ _ _ => exact ⟨inner ++ [(child, now)], _, _, List.append_cons .., rfl⟩
  | @ended inner _ now _ _ _ _ => exact ⟨inner ++ [(child, now)], _, _, List.append_cons .., rfl⟩
  | left => exact ⟨[], _, _, rfl, by split <;> rfl⟩

end Strides

end CallStack

namespace Machine

open CallStack (Encloses)

variable {allowed : MachineError → Prop} {machine after : Machine} {number : ThreadId}
  {child id : FrameId} {held : Frame} {broken : Bool} {old new : CallStack} {natives : Natives}
  {handed : List Value}

/-- The current thread leaves a loop block that a frame called by a break. -/
def BreaksLoop (machine : Machine) (number : ThreadId) (id : FrameId) : Prop :=
  machine.stopped = false ∧ machine.current = some number ∧
    ∃ stack, machine.Stacked number stack ∧ CallStack.BreaksLoop machine.script id stack

/-- The current thread leaves the routine of a frame by a break. -/
def BreaksRoutine (machine : Machine) (number : ThreadId) (id : FrameId) : Prop :=
  machine.stopped = false ∧ machine.current = some number ∧
    ∃ stack, machine.Stacked number stack ∧ CallStack.BreaksRoutine machine.script id stack

/-- In the frame that called there is no loop block to leave. -/
theorem ExecutesIn.not_breaksLoop (executes : machine.ExecutesIn number id)
    (steady : machine.Steady allowed) : ¬ machine.BreaksLoop number id := by
  rintro ⟨_, _, stack, stacked, _, inner, last, frame, outer, rfl, _⟩
  obtain ⟨_, _, thread, found, rfl⟩ := executes
  obtain ⟨_, _, same, _⟩ := stacked.current found
  have distinct := stacked.nodup steady
  cases inner with
  | nil =>
      cases (List.cons.inj same).1
      simp at distinct
  | cons first rest =>
      cases (List.cons.inj same).1
      simp at distinct

section Transitions

variable (own : ∀ error : MachineError, ¬ error.IsInternal → allowed error)
  (honest : natives.Honest allowed)

include own honest

/-- Whatever happens while the frame that called does not execute, the thread is still inside the loop
block, or it has left it. -/
theorem Transition.encloses (steady : machine.Steady allowed) (before : machine.Stacked number old)
    (encloses : Encloses machine.script child id held broken old)
    (elsewhere : ¬ machine.ExecutesIn number id) (stays : ¬ machine.BreaksRoutine number id)
    (transition : Transition natives handed machine after) (going : after.stopped = false)
    (stacked : after.Stacked number new) :
    ∃ later, Encloses machine.script child id held later new ∧
      (later = true ↔ broken = true ∨ machine.BreaksLoop number id) := by
  have alive := (transition.changes own honest steady).sticks.going going
  cases transition.arises own honest steady going stacked with
  | stays turn again =>
      obtain rfl := before.unique again
      refine ⟨broken, encloses, ?_⟩
      have silent : ¬ machine.BreaksLoop number id := fun breaks => turn breaks.2.1
      simp [silent]
  | begins new =>
      obtain ⟨thread, found, _⟩ := before
      have older := steady.balanced.ids_lt number (ThreadSet.mem_ids_iff.mpr ⟨thread, found⟩)
      omega
  | strides turn again stride =>
      obtain rfl := before.unique again
      have breaks : machine.BreaksLoop number id ↔ CallStack.BreaksLoop machine.script id old := by
        constructor
        · rintro ⟨_, _, stack, stacked, breaks⟩
          exact before.unique stacked ▸ breaks
        · exact fun breaks => ⟨alive, turn, old, before, breaks⟩
      have away (frame : Frame) (outer : CallStack) : old ≠ (id, frame) :: outer := by
        rintro rfl
        obtain ⟨thread, found, whole⟩ := before
        obtain ⟨_, _, same, _⟩ := whole.cases_head
        exact elsewhere ⟨alive, turn, thread, found, (congrArg Prod.fst (List.cons.inj same).1).symm⟩
      simp only [breaks]
      exact encloses.stride stride (before.nodup steady) (before.over steady) away
        fun breaks => stays ⟨alive, turn, old, before, breaks⟩

end Transitions

end Machine

end CoopScript
