import CoopScript.Proofs.Machine.Lineage
import CoopScript.Proofs.Machine.Scheduling
import CoopScript.Proofs.Machine.Stopping

/-!
Calls of functions. While a function runs, the frame that called it waits as it was left, whatever
the function, the blocks that it calls and all other threads do. It goes on after the call with one
more operand: the result that was set last in that activation of the function.
-/

namespace CoopScript

open FrameArena MachineError
open CallStack (endRoutine endLoop withResult)

/-- What a frame is to give back. -/
def Frame.promise (frame : Frame) : BlockKind × Bool × Value :=
  (frame.kind, frame.returnsResult, frame.result)

namespace CallStack

variable {inner outer rest new stack : CallStack} {id head : FrameId} {frame held : Frame}
  {value : Value}

/-! Frames inside and around a routine. -/

theorem endRoutine_append (routine : frame.kind.isRoutine = true) (inner outer : CallStack) :
    ∃ further now, endRoutine (inner ++ (id, frame) :: outer) = further ++ (id, now) :: outer ∧
      now.promise = frame.promise := by
  induction inner with
  | nil => exact ⟨[], frame.over, by simp [endRoutine, routine], rfl⟩
  | cons first rest hypothesis =>
      obtain ⟨further, now, same, kept⟩ := hypothesis
      simp only [List.cons_append, endRoutine]
      split
      · exact ⟨(first.1, first.2.over) :: rest, frame, rfl, rfl⟩
      · exact ⟨(first.1, first.2.over) :: further, now, by rw [same, List.cons_append], kept⟩

/-- A break of a loop inside a routine stays inside of it. -/
theorem endLoop_append (routine : frame.kind.isRoutine = true)
    (ends : endLoop (inner ++ (id, frame) :: outer) = some new) :
    ∃ further now, new = further ++ (id, now) :: outer ∧ now.promise = frame.promise := by
  induction inner generalizing new with
  | nil =>
      cases outer with
      | nil => cases ends
      | cons _ _ => simp [endLoop, routine] at ends
  | cons first rest hypothesis =>
      have goesOn {ended : CallStack} (sofar : endLoop (rest ++ (id, frame) :: outer) = some ended) :
          ∃ further now, (first.1, first.2.over) :: ended = further ++ (id, now) :: outer ∧
            now.promise = frame.promise := by
        obtain ⟨further, now, rfl, kept⟩ := hypothesis sofar
        exact ⟨(first.1, first.2.over) :: further, now, rfl, kept⟩
      cases rest with
      | nil =>
          simp only [List.cons_append, List.nil_append, endLoop] at ends
          split at ends
          · cases ends
          · split at ends
            · cases ends
              exact ⟨[_], { frame with position := frame.position + 1 }, rfl, rfl⟩
            · obtain ⟨ended, sofar, rfl⟩ := Option.map_eq_some_iff.mp ends
              exact goesOn sofar
      | cons second rest =>
          simp only [List.cons_append, endLoop] at ends
          split at ends
          · cases ends
          · split at ends
            · cases ends
              exact ⟨_ :: _ :: rest, frame, rfl, rfl⟩
            · obtain ⟨ended, sofar, rfl⟩ := Option.map_eq_some_iff.mp ends
              exact goesOn sofar

/-- A result goes to the function around blocks that are no routines. -/
theorem withResult_through (function : frame.kind = .function)
    (plain : ∀ entry ∈ inner, entry.2.kind.isRoutine = false) :
    withResult value (inner ++ (id, frame) :: outer) =
      some (inner ++ (id, { frame with result := value }) :: outer) := by
  induction inner with
  | nil => simp [withResult, function]
  | cons first rest hypothesis =>
      obtain ⟨here, further⟩ := List.forall_mem_cons.mp plain
      have other : first.2.kind ≠ .function := by
        intro function
        simp [function, BlockKind.isRoutine] at here
      simp only [List.cons_append, withResult, if_neg other, here, Bool.false_eq_true, if_false,
        hypothesis further, Option.map_some]

/-- A result does not go out of a routine. -/
theorem withResult_within {entry : FrameId × Frame} (inside : entry ∈ inner)
    (routine : entry.2.kind.isRoutine = true) (sets : withResult value (inner ++ outer) = some new) :
    ∃ further, new = further ++ outer := by
  induction inner generalizing new with
  | nil => cases inside
  | cons first rest hypothesis =>
      simp only [List.cons_append, withResult] at sets
      split at sets
      · cases sets
        exact ⟨_ :: rest, rfl⟩
      · split at sets
        · cases sets
        · next plain =>
            obtain ⟨changed, later, rfl⟩ := Option.map_eq_some_iff.mp sets
            rcases List.mem_cons.mp inside with rfl | further
            · exact (plain routine).elim
            · obtain ⟨further, rfl⟩ := hypothesis further later
              exact ⟨first :: further, rfl⟩

/-- What holds of the kinds of some frames holds of those of others of the same kinds. -/
theorem forall_kind_iff {first second : CallStack}
    (kinds : first.map (·.2.kind) = second.map (·.2.kind)) (property : BlockKind → Prop) :
    (∀ entry ∈ first, property entry.2.kind) ↔ ∀ entry ∈ second, property entry.2.kind := by
  have through (stack : CallStack) : (∀ entry ∈ stack, property entry.2.kind) ↔
      ∀ kind ∈ stack.map (·.2.kind), property kind := List.forall_mem_map.symm
  rw [through first, kinds, ← through second]

/-- The first frame changes within its promise. -/
theorem change_head (same : inner ++ (id, frame) :: outer = (head, held) :: rest) {new : Frame}
    (kept : new.promise = held.promise) :
    ∃ further now, (head, new) :: rest = further ++ (id, now) :: outer ∧
      now.promise = frame.promise ∧ further.map (·.2.kind) = inner.map (·.2.kind) := by
  cases inner with
  | nil =>
      obtain ⟨first, rfl⟩ := List.cons.inj same
      cases first
      exact ⟨[], new, rfl, kept, rfl⟩
  | cons first further =>
      obtain ⟨rfl, rfl⟩ := List.cons.inj same
      have kind : new.kind = held.kind := congrArg Prod.fst kept
      exact ⟨(head, new) :: further, frame, rfl, rfl, by simp [kind]⟩

end CallStack

open CallStack (endRoutine_append endLoop_append withResult_through withResult_within change_head
  forall_kind_iff)

section Strides

variable {script : Script} {inner outer new : CallStack} {callee : FrameId} {frame : Frame}
  {instruction : Instruction}

/-- What an instruction inside an activation of a function makes of that activation: it keeps its
promise, unless it sets the result. -/
theorem Instruction.Effect.inside {id : FrameId} {held : Frame} {rest : CallStack}
    (effect : instruction.Effect script ((id, held.passed) :: rest) new)
    (same : inner ++ (callee, frame) :: outer = (id, held) :: rest)
    (function : frame.kind = .function) :
    ∃ further now, new = further ++ (callee, now) :: outer ∧
      (now.promise = frame.promise ∧ (instruction = .setResult →
        ¬ ∀ entry ∈ inner, entry.2.kind.isRoutine = false) ∨
      ∃ value operands, now.promise = (.function, frame.returnsResult, value) ∧
        instruction = .setResult ∧ held.stack = value :: operands ∧
        ∀ entry ∈ inner, entry.2.kind.isRoutine = false) := by
  have routine {now : Frame} (kept : now.promise = frame.promise) : now.kind.isRoutine = true := by
    have kind : now.kind = frame.kind := congrArg Prod.fst kept
    rw [kind, function]
    rfl
  cases effect with
  | @within _ _ _ _ position operands plain =>
      obtain ⟨further, now, changed, kept, _⟩ :=
        @change_head _ _ _ _ _ _ _ same { held.passed with position, stack := operands } rfl
      refine ⟨further, now, changed, .inl ⟨kept, ?_⟩⟩
      rintro rfl
      cases plain
  | @setResult _ _ _ _ value operands top sets =>
      obtain ⟨further, now, changed, kept, kinds⟩ :=
        @change_head _ _ _ _ _ _ _ same { held.passed with stack := operands } rfl
      have plain := forall_kind_iff kinds (·.isRoutine = false)
      rw [changed] at sets
      by_cases through : ∀ entry ∈ inner, entry.2.kind.isRoutine = false
      · have kind : now.kind = .function := (congrArg Prod.fst kept).trans function
        have returns : now.returnsResult = frame.returnsResult :=
          congrArg (fun promise => promise.2.1) kept
        rw [withResult_through kind (plain.mpr through)] at sets
        cases sets
        refine ⟨further, _, rfl, .inr ⟨value, operands, ?_, rfl, top, through⟩⟩
        simp only [Frame.promise, kind, returns]
      · obtain ⟨entry, inside, between⟩ : ∃ entry ∈ further, entry.2.kind.isRoutine = true := by
          by_contra missing
          refine through (plain.mp fun entry inside => ?_)
          by_contra between
          exact missing ⟨entry, inside, Bool.not_eq_false _ ▸ between⟩
        obtain ⟨ended, rfl⟩ := withResult_within inside between sets
        exact ⟨ended, now, rfl, .inl ⟨kept, fun _ => through⟩⟩
  | breakRoutine =>
      obtain ⟨further, now, changed, kept, _⟩ := @change_head _ _ _ _ _ _ _ same held.passed rfl
      rw [changed]
      obtain ⟨ended, last, same, still⟩ :=
        @endRoutine_append callee _ (routine kept) further outer
      exact ⟨ended, last, same, .inl ⟨still.trans kept, nofun⟩⟩
  | breakLoop ends =>
      obtain ⟨further, now, changed, kept, _⟩ := @change_head _ _ _ _ _ _ _ same held.passed rfl
      rw [changed] at ends
      obtain ⟨ended, last, rfl, still⟩ := endLoop_append (routine kept) ends
      exact ⟨ended, last, rfl, .inl ⟨still.trans kept, nofun⟩⟩
  | @call _ _ child _ _ _ block count serial pushesResult called named =>
      obtain ⟨further, now, changed, kept, _⟩ :=
        @change_head _ _ _ _ _ _ _ same { held.passed with stack := held.stack.drop count } rfl
      refine ⟨(child, _) :: further, now, congrArg (_ :: ·) changed, .inl ⟨kept, ?_⟩⟩
      rintro rfl
      cases called

end Strides

/-- A frame of a block that is inside an activation and in no other routine. -/
inductive FrameArena.Inside (arena : FrameArena) (activation : FrameId) : FrameId → Prop
  | here : Inside arena activation activation
  | inside {id parent : FrameId} {frame : Frame} : arena.frame? id = some frame →
      frame.kind.isRoutine = false → frame.parent = some parent → Inside arena activation parent →
      Inside arena activation id

/-- Inside an activation and in no other routine, all frames further in are no routines. -/
theorem FrameArena.Stack.within_iff {arena : FrameArena} {root id callee : FrameId} {frame : Frame}
    {inner outer : CallStack} (whole : arena.Stack root id (inner ++ (callee, frame) :: outer))
    (distinct : ((inner ++ (callee, frame) :: outer).map (·.1)).Nodup) :
    arena.Inside callee id ↔ ∀ entry ∈ inner, entry.2.kind.isRoutine = false := by
  induction inner generalizing id with
  | nil =>
      obtain ⟨_, _, same, _⟩ := whole.cases_head
      cases (List.cons.inj same).1
      exact iff_of_true .here nofun
  | cons first rest hypothesis =>
      obtain ⟨head, held⟩ := first
      obtain ⟨_, _, same, _⟩ := whole.cases_head
      cases (List.cons.inj same).1
      obtain ⟨live, found, rfl⟩ := control?_eq_some_iff.mp (whole.shown List.mem_cons_self)
      have different : id ≠ callee := by
        rintro rfl
        simp at distinct
      have innermost : id ≠ root := by
        rintro rfl
        have single := whole.unique (.root (whole.shown List.mem_cons_self)
          (whole.running List.mem_cons_self))
        simp at single
      obtain ⟨parent, named, around⟩ := whole.outward innermost
      have further := hypothesis around (List.nodup_cons.mp distinct).2
      rw [List.forall_mem_cons, ← further]
      constructor
      · intro within
        cases within with
        | here => exact (different rfl).elim
        | inside again plain names within =>
            cases again.symm.trans found
            cases names.symm.trans named
            exact ⟨plain, within⟩
      · rintro ⟨plain, within⟩
        exact .inside found plain named within

namespace Machine

variable {program : Program} {limits : Limits} {machine after later : Machine} {number : ThreadId}
  {callee caller : FrameId} {held : Frame} {value : Value} {natives : Natives}

/-- A thread executes an instruction that sets the result of an activation: in the frame of that
activation, or in blocks inside it that are no routines. -/
inductive SetsResult (machine : Machine) (number : ThreadId) (callee : FrameId) (value : Value) :
    Prop
  | intro {id : FrameId} {frame : Frame} {code : Code} {operands : List Value} :
      machine.ExecutesIn number id → machine.frames.frame? id = some frame →
      frame.code? machine.script = some code → code.instruction = .setResult →
      frame.stack = value :: operands → machine.frames.Inside callee id →
      SetsResult machine number callee value

theorem SetsResult.unique {result : Value} (first : machine.SetsResult number callee value)
    (second : machine.SetsResult number callee result) : value = result := by
  obtain ⟨executes, live, _, _, top, _⟩ := first
  obtain ⟨executes', live', _, _, top', _⟩ := second
  obtain rfl := executes.unique executes'
  cases live.symm.trans live'
  cases top.symm.trans top'
  rfl

/-- Since a machine in which a thread called a function, the thread has not executed in the calling
frame. The value is what the function set last as its result, which is empty in the beginning. -/
inductive Awaits (natives : Natives) (number : ThreadId) (caller callee : FrameId)
    (called : Machine) : Value → Machine → Prop
  | called : Awaits natives number caller callee called none called
  | sets {machine after : Machine} {handed : List Value} {earlier value : Value} :
      Awaits natives number caller callee called earlier machine →
      ¬ machine.ExecutesIn number caller → machine.SetsResult number callee value →
      Transition natives handed machine after →
      Awaits natives number caller callee called value after
  | other {machine after : Machine} {handed : List Value} {value : Value} :
      Awaits natives number caller callee called value machine →
      ¬ machine.ExecutesIn number caller → (∀ result, ¬ machine.SetsResult number callee result) →
      Transition natives handed machine after →
      Awaits natives number caller callee called value after

/-! What the stack of the thread shows of its call. -/

/-- The frame that called waits for the function, or it has got the value. -/
inductive Calls (callee caller : FrameId) (held : Frame) (value : Value) : CallStack → Prop
  | waits {inner outer : CallStack} {frame : Frame} : frame.promise = (.function, true, value) →
      Calls callee caller held value (inner ++ (callee, frame) :: (caller, held) :: outer)
  | served {outer : CallStack} : Calls callee caller held value ((caller, held.push value) :: outer)

/-- The first frame of a stack sets the result of an activation around it. -/
def Assigns (script : Script) (callee : FrameId) (value : Value) (stack : CallStack) : Prop :=
  ∃ id frame rest code operands, stack = (id, frame) :: rest ∧ frame.code? script = some code ∧
    code.instruction = .setResult ∧ frame.stack = value :: operands ∧
    ∃ inner activation outer, stack = inner ++ (callee, activation) :: outer ∧
      ∀ entry ∈ inner, entry.2.kind.isRoutine = false

variable {script : Script} {old new stack : CallStack}

/-- A name stands only once on a stack. -/
theorem inner_unique {inner inner' outer outer' : CallStack} {id : FrameId} {frame frame' : Frame}
    (same : inner ++ (id, frame) :: outer = inner' ++ (id, frame') :: outer')
    (distinct : ((inner ++ (id, frame) :: outer).map (·.1)).Nodup) : inner = inner' := by
  induction inner generalizing inner' with
  | nil =>
      cases inner' with
      | nil => rfl
      | cons first rest =>
          obtain ⟨rfl, rfl⟩ := List.cons.inj same
          simp at distinct
  | cons first rest hypothesis =>
      cases inner' with
      | nil =>
          obtain ⟨rfl, rfl⟩ := List.cons.inj same
          simp at distinct
      | cons other rest' =>
          obtain ⟨rfl, later⟩ := List.cons.inj same
          rw [hypothesis later (List.nodup_cons.mp distinct).2]

/-- A stride of the thread that is not one of the frame that called. -/
theorem Calls.stride {earlier : Value} (calls : Calls callee caller held earlier old)
    (stride : Stride script old new) (distinct : (old.map (·.1)).Nodup)
    (elsewhere : ∀ frame outer, old ≠ (caller, frame) :: outer) :
    ∃ value, Calls callee caller held value new ∧ (Assigns script callee value old ∨
      value = earlier ∧ ∀ result, ¬ Assigns script callee result old) := by
  cases calls with
  | served => exact (elsewhere _ _ rfl).elim
  | @waits inner outer frame promise =>
      have function : frame.kind = .function := congrArg Prod.fst promise
      have returns : frame.returnsResult = true := congrArg (fun promise => promise.2.1) promise
      have result : frame.result = earlier := congrArg (fun promise => promise.2.2) promise
      generalize same : inner ++ (callee, frame) :: (caller, held) :: outer = old at stride distinct ⊢
      cases stride with
      | @execute id top rest _ code coded effect =>
          obtain ⟨further, now, rfl, ⟨kept, through⟩ | ⟨value, operands, kept, sets, operand, plain⟩⟩ :=
            effect.inside same function
          · refine ⟨earlier, .waits (kept.trans promise), .inr ⟨rfl, ?_⟩⟩
            rintro result ⟨_, _, _, _, _, again, coded', sets, _, inner', _, _, split, plain⟩
            cases again
            cases coded.symm.trans coded'
            obtain rfl := inner_unique (same.trans split) (same ▸ distinct)
            exact through sets plain
          · refine ⟨value, .waits (kept.trans (by rw [returns])), .inl ?_⟩
            exact ⟨id, top, rest, code, operands, rfl, coded, sets, operand, inner, frame, _,
              same.symm, plain⟩
      | @leave id parent top around rest coded =>
          have silent : ∀ result, ¬ Assigns script callee result
              ((id, top) :: (parent, around) :: rest) := by
            rintro result ⟨_, _, _, _, _, again, coded', _⟩
            cases again
            cases coded.symm.trans coded'
          cases inner with
          | nil =>
              obtain ⟨first, second⟩ := List.cons.inj same
              cases first
              cases second
              rw [if_pos returns, result]
              exact ⟨earlier, .served, .inr ⟨rfl, silent⟩⟩
          | cons first further =>
              obtain ⟨rfl, later⟩ := List.cons.inj same
              have kept : (if top.returnsResult then around.push top.result else around).promise =
                  around.promise := by
                split <;> rfl
              obtain ⟨inner', now, changed, still, _⟩ := change_head later kept
              rw [changed]
              exact ⟨earlier, .waits (still.trans promise), .inr ⟨rfl, silent⟩⟩

/-- The thread that executes sets a result just where its stack shows it. -/
theorem Stacked.setsResult_iff {allowed : MachineError → Prop}
    (stacked : machine.Stacked number stack) (steady : machine.Steady allowed)
    (alive : machine.stopped = false) (turn : machine.current = some number)
    (inside : ∃ inner activation outer, stack = inner ++ (callee, activation) :: outer) :
    machine.SetsResult number callee value ↔ Assigns machine.script callee value stack := by
  obtain ⟨inner, activation, outer, split⟩ := inside
  have distinct := stacked.nodup steady
  obtain ⟨thread, found, whole⟩ := id stacked
  obtain ⟨frame, rest, same, shown⟩ := whole.cases_head
  obtain ⟨live, there, rfl⟩ := control?_eq_some_iff.mp shown
  have within := (split ▸ whole).within_iff (split ▸ distinct)
  constructor
  · rintro ⟨⟨_, _, thread', found', rfl⟩, there', coded, sets, operand, inward⟩
    cases found.symm.trans found'
    cases there.symm.trans there'
    exact ⟨_, _, rest, _, _, same, coded, sets, operand, inner, activation, outer, split,
      within.mp inward⟩
  · rintro ⟨_, _, _, _, _, same', coded, sets, operand, inner', _, _, split', plain⟩
    cases same.symm.trans same'
    obtain rfl := inner_unique (split.symm.trans split') (split ▸ distinct)
    exact ⟨⟨alive, turn, thread, found, rfl⟩, there, coded, sets, operand, within.mpr plain⟩

section Sessions

variable {allowed : MachineError → Prop}
  (own : ∀ error : MachineError, ¬ error.IsInternal → allowed error)
  (honest : program.natives.Honest allowed)

include own honest

/-- A transition in which the frame that called does not execute. -/
theorem Calls.transition {earlier : Value} {handed : List Value} (steady : machine.Steady allowed)
    (older : number.number < machine.threads.next.number)
    (calls : ∀ stack, machine.Stacked number stack → Calls callee caller held earlier stack)
    (elsewhere : ¬ machine.ExecutesIn number caller)
    (transition : Transition program.natives handed machine after) (going : after.stopped = false)
    (stacked : after.Stacked number stack) :
    ∃ value, Calls callee caller held value stack ∧ (machine.SetsResult number callee value ∨
      value = earlier ∧ ∀ result, ¬ machine.SetsResult number callee result) := by
  have alive := (transition.changes own honest steady).sticks.going going
  cases transition.arises own honest steady going stacked with
  | stays turn before =>
      refine ⟨earlier, calls _ before, .inr ⟨rfl, ?_⟩⟩
      rintro result ⟨executes, _⟩
      exact turn executes.turn
  | begins new => omega
  | @strides old _ turn before stride =>
      obtain ⟨thread, found, whole⟩ := id before
      have away (frame : Frame) (outer : CallStack) : old ≠ (caller, frame) :: outer := by
        rintro rfl
        obtain ⟨_, _, same, _⟩ := whole.cases_head
        exact elsewhere ⟨alive, turn, thread, found, (congrArg Prod.fst (List.cons.inj same).1).symm⟩
      have inside : ∃ inner activation outer, old = inner ++ (callee, activation) :: outer := by
        cases calls old before with
        | waits _ => exact ⟨_, _, _, rfl⟩
        | served => exact (away _ _ rfl).elim
      have assigns (result : Value) := @Stacked.setsResult_iff _ number callee result old _
        before steady alive turn inside
      obtain ⟨value, later, sets⟩ := (calls old before).stride stride (before.nodup steady) away
      exact ⟨value, later, by simpa only [assigns] using sets⟩

/-- The call goes on as its thread shows it, for as long as the frame that called does not execute. -/
theorem Awaits.calls (called : Reachable program limits machine)
    (older : number.number < machine.threads.next.number)
    (begins : ∀ stack, machine.Stacked number stack → Calls callee caller held none stack)
    (awaits : Awaits program.natives number caller callee machine value later) :
    Reachable program limits later ∧ number.number < later.threads.next.number ∧
      (later.stopped = false → ∀ stack, later.Stacked number stack →
        Calls callee caller held value stack) := by
  have advance {first last : Machine} {handed : List Value} (reachable : Reachable program limits first)
      (known : number.number < first.threads.next.number)
      (transition : Transition program.natives handed first last) :
      Reachable program limits last ∧ number.number < last.threads.next.number ∧
        (last.stopped = false → first.stopped = false) := by
    have changes := transition.changes own honest (reachable.steady own honest)
    exact ⟨reachable.step transition, known.trans_le changes.advances.next_le, changes.sticks.going⟩
  induction awaits with
  | called => exact ⟨called, older, fun _ => begins⟩
  | sets _ elsewhere sets transition hypothesis =>
      obtain ⟨reachable, known, calls⟩ := hypothesis
      obtain ⟨next, further, alive⟩ := advance reachable known transition
      refine ⟨next, further, fun going stack stacked => ?_⟩
      obtain ⟨result, later, again | ⟨_, silent⟩⟩ :=
        Calls.transition own honest (reachable.steady own honest) known (calls (alive going))
          elsewhere transition going stacked
      · exact sets.unique again ▸ later
      · exact (silent _ sets).elim
  | other _ elsewhere silent transition hypothesis =>
      obtain ⟨reachable, known, calls⟩ := hypothesis
      obtain ⟨next, further, alive⟩ := advance reachable known transition
      refine ⟨next, further, fun going stack stacked => ?_⟩
      obtain ⟨result, later, sets | ⟨rfl, _⟩⟩ :=
        Calls.transition own honest (reachable.steady own honest) known (calls (alive going))
          elsewhere transition going stacked
      · exact (silent _ sets).elim
      · exact later

omit own honest in
/-- A block that is called within the thread begins in a new frame with its arguments, and the frame that
called has left the call and the arguments behind. -/
theorem Steady.enters {entry : Thread} {id : BlockId} {block : Block} {count : Nat} {code : Code}
    {pushesResult : Bool} (executing : machine.Executing allowed number entry)
    (live : machine.frames.frame? entry.current = some held)
    (coded : held.code? machine.script = some code)
    (called : code.instruction.call? = some (.block id, count, pushesResult))
    (named : machine.script.block? id = some block) (within : block.kind ≠ .microthread)
    (going : (machine.move program.natives).stopped = false) :
    count ≤ held.stack.length ∧ block.arguments = count ∧ ∃ callee serial outer,
      machine.frames.frame? callee = none ∧
      (machine.move program.natives).frames.frame? callee =
        some { (Frame.activate (some entry.current) id block (held.stack.take count).reverse) with
          activation := serial
          returnsResult := pushesResult } ∧
      (machine.move program.natives).Stacked number
        ((callee, { (Frame.activate (some entry.current) id block []).control with
          activation := serial
          returnsResult := pushesResult }) ::
          (entry.current, { held.control.passed with stack := held.stack.drop count }) :: outer) := by
  have alive : machine.stopped = false := going_of_iterate 1 going
  obtain ⟨slice, after, ran, moved⟩ := advance_of_move executing.current going
  obtain ⟨stack, stacked⟩ := executing.steady.stacked executing.found
  obtain ⟨_, outer, rfl, shown, _⟩ := stacked.current executing.found
  cases (control?_of_frame? live).symm.trans shown
  obtain ⟨fetched, goes, _, quiet, still⟩ := Action.execute_of_advance executing alive stacked coded ran
  have ready := executing.quiet quiet
  obtain ⟨_, whole⟩ := still.whole
  obtain ⟨now, there, same, _⟩ := Action.head_frame (whole.shown List.mem_cons_self)
  have alike : held.control.passed = now.control := same
  have operands : now.stack = held.stack := (congrArg Frame.stack alike).symm
  simp only [Action.execute_call called, Action.call] at goes
  rcases Action.run_callBlock there number id count pushesResult with
    ⟨error, _, failed⟩ | ⟨block', named', few, _, enough, calls⟩
  · rw [failed] at goes
    cases goes
  · rw [quiet.script] at named'
    cases named.symm.trans named'
    simp only [calls, if_neg within, EStateM.run_bind] at goes
    let popped := { fetched with
      frames := fetched.frames.set entry.current { now with stack := now.stack.drop count } }
    obtain ⟨_, waiting⟩ : Spares (some number) fetched popped ∧ popped.Stacked number _ :=
      ready.steady.stores (alike ▸ still) there rfl rfl
    have silent : fetched.Quiet popped :=
      { Quiet.refl fetched with frames := skeleton_set there rfl }
    have descended := Action.descend_strides (ready.quiet silent) waiting id
      (now.stack.take count).reverse pushesResult popped rfl
    cases entered : (Action.descend number entry.current id (now.stack.take count).reverse
        pushesResult).run popped with
    | error error last =>
        simp only [popped] at entered
        rw [entered] at goes
        cases goes
    | ok _ last =>
        rw [entered] at descended
        simp only [popped] at entered
        rw [entered] at goes
        cases goes
        obtain ⟨_, block', callee, serial, named', vacant, begun, deeper⟩ := descended
        rw [show popped.script = _ from quiet.script] at named'
        cases named.symm.trans named'
        rw [moved]
        refine ⟨operands ▸ enough, few, callee, serial, outer, ?_, operands ▸ begun, ?_⟩
        · exact frame?_eq_none_of_skeleton (quiet.trans silent).frames.symm vacant
        · have waits := congrArg (fun frame : Frame =>
            { frame with stack := frame.stack.drop count }) alike
          exact waits ▸ deeper

end Sessions

/-- A new activation has its arguments in the first slots, and the other ones are empty. -/
theorem slots_activate (parent : Option FrameId) (id : BlockId) {block : Block}
    {arguments : List Value} (bound : arguments.length = block.arguments) :
    (Frame.activate parent id block arguments).slots.toList =
      arguments ++ List.replicate (max block.slots block.arguments - arguments.length) none := by
  simp only [Frame.activate, List.take_append, List.take_replicate]
  rw [List.take_of_length_le (by omega), Nat.min_eq_left (by omega)]

/-- A function that is called begins at its first instruction without operands, with its arguments
as they were pushed in the first slots and the other slots empty. When its thread next executes in
the frame that called, this is the same activation right after the call, with the operands from
before the call less the arguments, and with one more: the result that was set last in the function
and the blocks inside it, or the empty value. -/
theorem Reachable.function_returns (reachable : Reachable program limits machine)
    (executes : machine.ExecutesIn number caller)
    (live : machine.frames.frame? caller = some held) {target : BlockId} {block : Block}
    {count line : Nat}
    (coded : held.code? machine.script = some ⟨line, .callAndPushResult (.block target) count⟩)
    (named : machine.script.block? target = some block) (function : block.kind = .function)
    (going : (machine.move program.natives).stopped = false) :
    count ≤ held.stack.length ∧ ∃ callee frame thread,
      (machine.move program.natives).threads.find? number = some thread ∧ thread.current = callee ∧
      machine.frames.frame? callee = none ∧
      (machine.move program.natives).frames.frame? callee = some frame ∧
      frame.parent = some caller ∧ frame.block = target ∧ frame.position = 0 ∧ frame.stack = [] ∧
      frame.slots.toList = (held.stack.take count).reverse ++
        List.replicate (max block.slots count - count) none ∧
      ∀ value later,
        Awaits program.natives number caller callee (machine.move program.natives) value later →
        later.ExecutesIn number caller →
        ∃ frame, later.frames.frame? caller = some frame ∧ frame.activation = held.activation ∧
          frame.position = held.position + 1 ∧ frame.stack = value :: held.stack.drop count := by
  have own : ∀ error : MachineError, ¬ error.IsInternal → True := fun _ _ => trivial
  have honest : program.natives.Honest fun _ => True :=
    fun _ _ _ => Routine.honest_of_forall (fun _ => trivial) _
  have steady := reachable.steady own honest
  obtain ⟨_, turn, entry, found, rfl⟩ := executes
  obtain ⟨enough, few, callee, serial, outer, vacant, begun, entered⟩ :=
    Steady.enters ⟨steady, turn, found⟩ live coded rfl named (by simp [function]) going
  have running := steady.current_running turn
  have moves : Transition program.natives [] machine (machine.move program.natives) := .move running
  have next : Reachable program limits (machine.move program.natives) := reachable.step moves
  obtain ⟨thread, inside, whole⟩ := id entered
  obtain ⟨_, _, same, _⟩ := whole.cases_head
  have current : thread.current = callee := (congrArg Prod.fst (List.cons.inj same).1).symm
  have length : (held.stack.take count).reverse.length = block.arguments := by
    rw [List.length_reverse, List.length_take, few, min_eq_left enough]
  refine ⟨enough, callee, _, thread, inside, current, vacant, begun, rfl, rfl, rfl, rfl, ?_,
    fun value later awaits again => ?_⟩
  · have slots := slots_activate (some entry.current) target length
    rwa [length, few] at slots
  · have older : number.number < (machine.move program.natives).threads.next.number :=
      (next.steady own honest).balanced.ids_lt number (ThreadSet.mem_ids_iff.mpr ⟨thread, inside⟩)
    have begins (stack : CallStack) (stacked : (machine.move program.natives).Stacked number stack) :
        Calls callee entry.current { held.control.passed with stack := held.stack.drop count } none
          stack := by
      rw [stacked.unique entered]
      have promise : (block.kind, true, (none : Value)) = (.function, true, none) := by rw [function]
      exact @Calls.waits _ _ _ _ [] _ _ promise
    obtain ⟨reached, _, calls⟩ := awaits.calls own honest next older begins
    obtain ⟨alive, _, last, lives, returned⟩ := again
    have calm := reached.steady own honest
    obtain ⟨stack, stacked⟩ := calm.stacked lives
    obtain ⟨top, rest, split, shown, _⟩ := stacked.current lives
    rw [returned] at split shown
    have distinct := stacked.nodup calm
    cases calls alive stack stacked with
    | @waits inner outer frame _ =>
        cases inner with
        | nil =>
            cases (List.cons.inj split).1
            simp at distinct
        | cons first further =>
            cases (List.cons.inj split).1
            simp at distinct
    | served =>
        cases (List.cons.inj split).1
        obtain ⟨frame, there, alike⟩ := control?_eq_some_iff.mp shown
        have serial : frame.control.activation = held.activation := by rw [alike]; rfl
        have position : frame.control.position = held.position + 1 := by rw [alike]; rfl
        have operands : frame.control.stack = value :: held.stack.drop count := by rw [alike]; rfl
        exact ⟨frame, there, serial, position, operands⟩

/-! A function that gives back its argument. -/

def answering : Program where
  script := {
    blocks := #[
      { kind := .sub, level := 0
        codes := #[⟨1, .pushValue (.boolean true)⟩, ⟨2, .callAndPushResult (.block ⟨1⟩) 1⟩] },
      { kind := .function, level := 1, arguments := 1, slots := 2
        codes := #[⟨4, .pushVariable ⟨1, 0⟩⟩, ⟨5, .setResult⟩] }]
    main := some ⟨0⟩ }

/-- The machine as it begins its first tick. -/
def answeringBegun : Machine := ((answering.machine {}).started ⟨0⟩ answering.script.blocks[0]).begin

/-- The machine at the call. -/
def answeringReady : Machine := (Machine.move answering.natives)^[2] answeringBegun

/-- The frame of the main thread at the call. -/
def answeringCaller : Frame :=
  { Frame.activate none ⟨0⟩ answering.script.blocks[0] [] with
    position := 1
    stack := [some ⟨0⟩]
    pins := 1 }

/-- The frame of the function while it runs. -/
def answeringFrame (position : Nat) (operands : List Value) (result : Value) : Frame :=
  { Frame.activate (some ⟨0⟩) ⟨1⟩ answering.script.blocks[1] [some ⟨0⟩] with
    activation := 1
    position
    stack := operands
    returnsResult := true
    result }

theorem function_returns_answering :
    Reachable answering {} answeringReady ∧ answeringReady.ExecutesIn ⟨0⟩ ⟨0⟩ ∧
      ((move answering.natives)^[4] answeringReady).ExecutesIn ⟨0⟩ ⟨0⟩ ∧
      ∃ frame, ((move answering.natives)^[4] answeringReady).frames.frame? ⟨0⟩ = some frame ∧
        frame.position = 2 ∧ frame.stack = [some ⟨0⟩] := by
  have begun : Reachable answering {} answeringBegun := .step .initial (.start rfl)
  have reachable : Reachable answering {} answeringReady := begun.iterate 2 (by decide +kernel)
  have executes : answeringReady.ExecutesIn ⟨0⟩ ⟨0⟩ := by decide +kernel
  have live : answeringReady.frames.frame? ⟨0⟩ = some answeringCaller := by decide +kernel
  have returned : ((move answering.natives)^[4] answeringReady).ExecutesIn ⟨0⟩ ⟨0⟩ := by
    decide +kernel
  have coded : answeringCaller.code? answeringReady.script =
      some ⟨2, .callAndPushResult (.block ⟨1⟩) 1⟩ := by rw [reachable.script]; rfl
  have named : answeringReady.script.block? ⟨1⟩ = some answering.script.blocks[1] := by
    rw [reachable.script]
    rfl
  have going : (move answering.natives answeringReady).stopped = false := by decide +kernel
  obtain ⟨_, callee, frame, thread, found, current, _, _, _, _, _, _, _, returns⟩ :=
    reachable.function_returns executes live coded named rfl going
  have inside : (move answering.natives answeringReady).ExecutesIn ⟨0⟩ ⟨1⟩ := by decide +kernel
  have entered : (move answering.natives answeringReady).ExecutesIn ⟨0⟩ callee :=
    ⟨inside.alive, inside.turn, thread, found, current⟩
  obtain rfl := entered.unique inside
  have running : ∀ count < 4, ((move answering.natives)^[count] answeringReady).state = .running := by
    decide +kernel
  have script (count : Nat) (within : count ≤ 4) :
      ((move answering.natives)^[count] answeringReady).script = answering.script :=
    (reachable.iterate count fun earlier less => running earlier (less.trans_le within)).script
  have moves (count : Nat) (within : count < 4) :
      Transition answering.natives [] ((move answering.natives)^[count] answeringReady)
        ((move answering.natives)^[count + 1] answeringReady) := by
    rw [Function.iterate_succ_apply']
    exact .move (running count within)
  -- The function pushes its argument, sets it as the result, and is left.
  have silent {machine : Machine} {frame : Frame} (script : machine.script = answering.script)
      (here : machine.ExecutesIn ⟨0⟩ ⟨1⟩) (live : machine.frames.frame? ⟨1⟩ = some frame)
      (other : ∀ code, frame.code? answering.script = some code → code.instruction ≠ .setResult)
      (result : Value) : ¬ machine.SetsResult ⟨0⟩ ⟨1⟩ result := by
    rintro ⟨executes, again, coded, sets, _⟩
    obtain rfl := executes.unique here
    cases live.symm.trans again
    exact other _ (script ▸ coded) sets
  have pushed : Awaits answering.natives ⟨0⟩ ⟨0⟩ ⟨1⟩ (move answering.natives answeringReady) none
      ((move answering.natives)^[2] answeringReady) := by
    have live : (move answering.natives answeringReady).frames.frame? ⟨1⟩ =
      some (answeringFrame 0 [] none) := by decide +kernel
    refine .other .called (by decide +kernel) (silent (script 1 (by decide)) inside live ?_)
      (moves 1 (by decide))
    intro code coded
    obtain rfl : ⟨4, .pushVariable ⟨1, 0⟩⟩ = code := Option.some.inj coded
    exact nofun
  have set : Awaits answering.natives ⟨0⟩ ⟨0⟩ ⟨1⟩ (move answering.natives answeringReady)
      (some ⟨0⟩) ((move answering.natives)^[3] answeringReady) := by
    have live : ((move answering.natives)^[2] answeringReady).frames.frame? ⟨1⟩ =
      some (answeringFrame 1 [some ⟨0⟩] none) := by decide +kernel
    refine .sets pushed (by decide +kernel) ?_ (moves 2 (by decide))
    have coded : (answeringFrame 1 [some ⟨0⟩] none).code?
        ((move answering.natives)^[2] answeringReady).script = some ⟨5, .setResult⟩ := by
      rw [script 2 (by decide)]
      rfl
    exact .intro (by decide +kernel) live coded rfl rfl .here
  have left : Awaits answering.natives ⟨0⟩ ⟨0⟩ ⟨1⟩ (move answering.natives answeringReady)
      (some ⟨0⟩) ((move answering.natives)^[4] answeringReady) := by
    have live : ((move answering.natives)^[3] answeringReady).frames.frame? ⟨1⟩ =
      some (answeringFrame 2 [] (some ⟨0⟩)) := by decide +kernel
    refine .other set (by decide +kernel)
      (silent (script 3 (by decide)) (by decide +kernel) live ?_)
      (moves 3 (by decide))
    intro code coded
    have ended : (answeringFrame 2 [] (some ⟨0⟩)).code? answering.script = none := rfl
    rw [ended] at coded
    cases coded
  obtain ⟨frame, live, _, position, operands⟩ := returns _ _ left returned
  exact ⟨reachable, executes, returned, frame, live, position, operands⟩

end Machine

end CoopScript
