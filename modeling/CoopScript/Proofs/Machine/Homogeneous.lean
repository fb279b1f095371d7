import CoopScript.Proofs.Actions.Homogeneous
import CoopScript.Proofs.Machine.Session
import CoopScript.Proofs.Machine.Stock

/-!
The arrays of machines. The types of their elements fit, as far as the literals of the program and what
hosts and native functions make are typed; and they are the same as long as no array takes the place of
one of another type inside an array, which an assignment allows where one of the two is empty.
-/

namespace CoopScript

open Machine (Transition Invokes)

/-- A request that makes typed trees alone and writes only what the heap admits. -/
def Request.Fitting (fits : Ty → Ty → Prop) (machine : Machine) : Request → Prop
  | .allocate datum => datum.Typed fits
  | .overwrite target source => machine.heap.Admits fits target source
  | _ => True

/-- A routine that, beginning in this machine, makes such requests alone. -/
def Routine.Fitting {α : Type} (fits : Ty → Ty → Prop) : Routine α → Machine → Prop
  | .done _, _ => True
  | .ask request next, machine => request.Fitting fits machine ∧
      (next (request.perform machine).1).Fitting fits (request.perform machine).2

/-- In machines with homogeneous heaps the native functions make such requests alone. -/
def Natives.Fitting (fits : Ty → Ty → Prop) (natives : Natives) : Prop :=
  ∀ native ∈ natives, ∀ (arguments : List Value) (machine : Machine),
    machine.heap.Homogeneous fits → (native.body arguments).Fitting fits machine

variable {fits : Ty → Ty → Prop} {machine start after : Machine} {natives : Natives}
  {number : ThreadId} {id : FrameId}

/-! Requests. -/

theorem Request.Fitting.perform {request : Request} (fitting : request.Fitting fits machine)
    (homogeneous : machine.heap.Homogeneous fits) :
    (request.perform machine).2.heap.Homogeneous fits := by
  cases request with
  | call event arguments =>
      simp only [Request.perform, Machine.enqueue]
      split
      · exact homogeneous
      · next id _ =>
          have keeps : Action.KeepsHeap (Heap.Homogeneous fits) (Action.spawnHandler event id arguments) :=
            inferInstance
          split
          · next run => exact keeps.ok homogeneous run
          · next run => exact keeps.error homogeneous run
  | raise text => exact (machine.heap_fail _).symm ▸ homogeneous
  | terminate text => exact (Machine.heap_fail ..).symm ▸ homogeneous
  | close id =>
      simp only [Request.perform, Machine.closeThread]
      split <;> exact homogeneous
  | allocate datum => exact .build datum _ homogeneous fitting
  | overwrite target source =>
      simp only [Request.perform, Heap.overwrite]
      cases overwrites : machine.heap.overwritten target source with
      | error cause => exact homogeneous
      | ok id =>
          obtain ⟨rfl, _, _⟩ := Heap.body?_of_overwritten overwrites
          exact homogeneous.takeOver fitting
  | _ => exact homogeneous

theorem Routine.Fitting.play {α : Type} {routine : Routine α} (fitting : routine.Fitting fits machine)
    (homogeneous : machine.heap.Homogeneous fits) :
    (routine.play machine).2.heap.Homogeneous fits := by
  induction routine generalizing machine with
  | done result => exact homogeneous
  | ask request next hypothesis =>
      obtain ⟨first, rest⟩ := fitting
      exact hypothesis _ rest (first.perform homogeneous)

theorem Routine.Fitting.comes {α : Type} {routine rest : Routine α} {seen : Machine}
    (fitting : routine.Fitting fits machine) (homogeneous : machine.heap.Homogeneous fits)
    (comes : routine.Comes machine rest seen) : seen.heap.Homogeneous fits := by
  induction comes with
  | here => exact homogeneous
  | later _ hypothesis =>
      obtain ⟨first, rest⟩ := fitting
      exact hypothesis rest (first.perform homogeneous)

/-! Moves. -/

namespace Action

section Natives

variable (fitting : natives.Fitting fits)

include fitting

/-- The routine of a native function begins in a machine whose heap is homogeneous. -/
theorem prepareNative_fitting (id : FrameId) (native : NativeId) (count : Nat) :
    (prepareNative natives id native count).Ensures (·.heap.Homogeneous fits)
      (fun routine after => after.heap.Homogeneous fits ∧ routine.Fitting fits after)
      fun _ after => after.heap.Homogeneous fits := by
  rcases prepareNative_cases natives id native count with
    missing | ⟨native, inside, ⟨_, refused⟩ | prepares⟩
  · rw [missing]
    exact .throw fun _ holds => holds
  · rw [refused]
    exact .throw fun _ holds => holds
  · rw [prepares]
    have pops : KeepsHeap (Heap.Homogeneous fits) (popMany id count) := inferInstance
    have logs : KeepsHeap (Heap.Homogeneous fits) (log (.nativeCall native.name count)) :=
      inferInstance
    refine pops.ensures.bind fun arguments => logs.ensures.bind fun _ => ?_
    exact .pure fun machine homogeneous =>
      ⟨homogeneous, fitting native inside arguments machine homogeneous⟩

theorem keeps_callNative (number : ThreadId) (id : FrameId) (native : NativeId) (count : Nat)
    (pushesResult : Bool) :
    KeepsHeap (Heap.Homogeneous fits) (callNative natives number id native count pushesResult) where
  ensures := by
    refine Ensures.bind (prepareNative_fitting fitting id native count) fun routine => ?_
    have played : (modifyGet routine.play : Action (Except MachineError Value)).Ensures
        (fun machine => machine.heap.Homogeneous fits ∧ routine.Fitting fits machine)
        (fun _ after => after.heap.Homogeneous fits) fun _ after => after.heap.Homogeneous fits :=
      fun _ begun => begun.2.play begun.1
    have concludes (result : Except MachineError Value) : KeepsHeap (Heap.Homogeneous fits)
        (concludeNative number id pushesResult result) := inferInstance
    exact played.bind fun result => (concludes result).ensures

theorem keeps_call (number : ThreadId) (id : FrameId) (callee : Callee) (count : Nat)
    (pushesResult : Bool) :
    KeepsHeap (Heap.Homogeneous fits) (call natives number id callee count pushesResult) := by
  cases callee with
  | native native => exact keeps_callNative fitting number id native count pushesResult
  | block block =>
      exact inferInstanceAs (KeepsHeap _ (callBlock number id block count pushesResult))

end Natives

/-- An instruction is fetched from the script, for a frame that keeps its operands. -/
theorem fetch_operands (id : FrameId) : (fetch id).Ensures (machine = ·)
    (fun fetched after => after.heap = machine.heap ∧ ∀ instruction, fetched = some instruction →
      ∃ frame, machine.frames.frame? id = some frame ∧
        machine.script.instruction? frame.block frame.position = some instruction ∧
        Operands machine.heap id frame.stack after)
    fun _ after => after.heap = machine.heap := by
  rintro _ rfl
  have keeps : KeepsHeap (· = machine.heap) (fetch id) := inferInstance
  cases ran : (fetch id).run machine with
  | error error after => exact keeps.error rfl ran
  | ok fetched after =>
      refine ⟨keeps.ok rfl ran, ?_⟩
      rintro instruction rfl
      obtain ⟨frame, _, reads, _⟩ := run_bind_eq_ok ran
      obtain ⟨live, _⟩ := run_frame_eq_ok_iff.mp reads
      have there := fetched_there live ran
      have kept := keeps.ok rfl ran
      refine ⟨frame, live, there, kept, { frame with position := frame.position + 1 }, ?_, rfl⟩
      obtain ⟨block, found, coded⟩ := Option.bind_eq_some_iff.mp there
      obtain ⟨code, coded, _⟩ := Option.map_eq_some_iff.mp coded
      have set := FrameArena.frame?_set_self { frame with position := frame.position + 1 }
        (FrameArena.index_lt_of_frame? live)
      rw [run_fetch live found, coded] at ran
      dsimp only at ran
      split at ran
      · split at ran
        · cases ran
        · cases ran
          exact set
      · cases ran
        exact set

end Action

namespace Machine

/-- The target and the source that the current thread is about to assign through a handle. -/
def assigns? (machine : Machine) : Option (Value × Value) := do
  let entry ← machine.threads.find? (← machine.current)
  let frame ← machine.frames.frame? entry.current
  match machine.script.instruction? frame.block frame.position, frame.stack with
  | some .assignWritable, source :: target :: _ => some (target, source)
  | _, _ => none

section Steps

variable (reflexive : ∀ type, fits type type) (fitting : natives.Fitting fits)
  (literals : ∀ literal ∈ machine.script.literals, literal.2.Typed fits)
  (homogeneous : machine.heap.Homogeneous fits)
  (admits : ∀ target source, machine.assigns? = some (target, source) →
    machine.heap.Stores target source → machine.heap.Admits fits target source)

include reflexive fitting literals homogeneous admits

/-- A step of the current thread keeps the heap homogeneous, whether it goes through or fails. -/
theorem advance_homogeneous (current : machine.current = some number) :
    (Action.advance natives number).Ensures (machine = ·)
      (fun _ after => after.heap.Homogeneous fits) fun _ after => after.heap.Homogeneous fits := by
  have ends (slice : Option Slice) : (pure slice : Action (Option Slice)).Ensures (machine = ·)
      (fun _ after => after.heap.Homogeneous fits) fun _ after => after.heap.Homogeneous fits :=
    .pure fun _ same => same ▸ homogeneous
  refine .bind_of_run rfl ?_
  split
  · exact ends _
  · split
    · exact ends _
    · next entry found =>
        have fetches := (@Action.fetch_operands machine entry.current).weaken (fun _ holds => holds)
          (fun _ _ holds => holds) fun _ after same =>
            (same ▸ homogeneous : after.heap.Homogeneous fits)
        refine fetches.bind fun fetched => ?_
        cases fetched with
        | none =>
            have leaves : Action.KeepsHeap (Heap.Homogeneous fits) (do
                return if ← Action.leave number then some .finished else none :
                  Action (Option Slice)) := inferInstance
            exact leaves.ensures.weaken (fun _ holds => holds.1 ▸ homogeneous) (fun _ _ holds => holds)
              fun _ _ holds => holds
        | some instruction =>
            rintro after ⟨same, frames⟩
            obtain ⟨frame, live, there, ready⟩ := frames instruction rfl
            by_cases writes : instruction = .assignWritable
            · subst writes
              refine Action.assignWritable_homogeneous homogeneous ?_ after ready
              rintro target source rest stacked
              apply admits target source
              simp only [assigns?, current, found, live, there, stacked, Option.bind_eq_bind,
                Option.bind_some]
            · have keeps : Action.KeepsHeap (Heap.Homogeneous fits)
                  (Action.execute natives number entry.current instruction) := by
                cases simple : instruction.call? with
                | none =>
                    refine Action.keeps_execute reflexive natives number _ simple ?_ writes
                    rintro datum rfl
                    exact literals _ (Script.mem_literals_iff.mpr there)
                | some site =>
                    obtain ⟨callee, count, pushesResult⟩ := site
                    rw [Action.execute_call simple]
                    exact Action.keeps_call fitting number _ callee count pushesResult
              exact keeps.ensures after (same.symm ▸ homogeneous : after.heap.Homogeneous fits)

/-- So does a move of a running machine. -/
theorem move_homogeneous : (machine.move natives).heap.Homogeneous fits := by
  unfold move
  split
  · split
    · exact homogeneous
    · split <;> exact homogeneous
  · next number current =>
      have stepped := advance_homogeneous reflexive fitting literals homogeneous admits current
        machine rfl
      cases ran : (Action.advance natives number).run machine with
      | error error after =>
          rw [ran] at stepped
          exact (heap_fail ..).symm ▸ stepped
      | ok slice after =>
          rw [ran] at stepped
          cases slice with
          | none => exact stepped
          | some slice => cases slice <;> exact stepped

end Steps

/-! Sessions. -/

/-- A machine of a program in a session whose host makes only what fits, and in which the machine was
as permitted before each of its moves. The host changes the heap of a machine that does not run by
its operations alone. -/
inductive Fitting (fits : Ty → Ty → Prop) (permits : Machine → Prop) (program : Program)
    (limits : Limits) : Machine → Prop
  | initial : Fitting fits permits program limits (program.machine limits)
  | operate {machine : Machine} (request : Request) : Fitting fits permits program limits machine →
      machine.state ≠ .running → request.isEntry = false → request.Fitting fits machine →
      Fitting fits permits program limits (request.perform machine).2
  | step {machine after : Machine} {handed : List Value} :
      Fitting fits permits program limits machine → permits machine →
      Transition program.natives handed machine after →
      machine.state = .running ∨ after.heap = machine.heap →
      Fitting fits permits program limits after

variable {permits : Machine → Prop} {program : Program} {limits : Limits}

theorem Fitting.reachable (session : machine.Fitting fits permits program limits) :
    Reachable program limits machine := by
  induction session with
  | initial => exact .initial
  | operate request _ resting simple _ hypothesis =>
      exact hypothesis.step (.operate request resting simple)
  | step _ _ transition _ hypothesis => exact hypothesis.step transition

section Session

variable (reflexive : ∀ type, fits type type)
  (literals : ∀ literal ∈ program.script.literals, literal.2.Typed fits)
  (fitting : program.natives.Fitting fits)
  (permitted : ∀ machine : Machine, permits machine → ∀ target source,
    machine.assigns? = some (target, source) →
    machine.heap.Stores target source → machine.heap.Admits fits target source)

include reflexive literals fitting permitted

theorem Fitting.heap (session : machine.Fitting fits permits program limits) :
    machine.heap.Homogeneous fits := by
  induction session with
  | initial => exact .empty fits
  | operate request _ _ _ fit hypothesis => exact fit.perform hypothesis
  | @step machine after handed before permit transition keeps hypothesis =>
      rcases keeps with running | same
      · cases transition with
        | move =>
            rw [← before.reachable.script] at literals
            exact move_homogeneous reflexive fitting literals hypothesis (permitted machine permit)
        | start begun =>
            have idle := (started_of_start begun).1
            rw [running] at idle
            cases idle
        | tick begun => simp [running] at begun
        | deliver begun => simp [running] at begun
        | reject begun => simp [running] at begun
        | operate _ resting => exact (resting running).elim
        | clear resting => exact (resting running).elim
      · exact same ▸ hypothesis

/-- A native function is called with a homogeneous heap, and so it is after every answer. -/
theorem Fitting.seen (session : machine.Fitting fits permits program limits)
    {routine rest : Routine (Except MachineError Value)} {seen : Machine}
    (invokes : Invokes program.natives machine routine start) (comes : routine.Comes start rest seen) :
    seen.heap.Homogeneous fits := by
  have homogeneous := session.heap reflexive literals fitting permitted
  cases invokes with
  | @intro number entry instruction id count pushesResult fetched _ _ _ _ _ fetches _ prepares =>
      have keeps : Action.KeepsHeap (Heap.Homogeneous fits) (Action.fetch entry.current) := inferInstance
      have ready := keeps.ok homogeneous fetches
      obtain ⟨begun, fits⟩ :=
        (Action.prepareNative_fitting fitting entry.current id count).ok ready prepares
      exact fits.comes begun comes

end Session

/-! Both relations. -/

/-- In the heap, and so in the trees of all that frames hold, the types of elements fit. -/
structure Homogeneous (fits : Ty → Ty → Prop) (machine : Machine) : Prop where
  heap : machine.heap.Homogeneous fits
  held : ∀ value ∈ machine.frames.values, (machine.heap.view value).Typed fits

theorem homogeneous_of_heap (heap : machine.heap.Homogeneous fits) : machine.Homogeneous fits :=
  ⟨heap, fun value _ => heap.view value⟩

/-- What is about to be assigned through a handle has the type of what it replaces, unless no array
holds that. -/
def Conservative (machine : Machine) : Prop :=
  ∀ target source, machine.assigns? = some (target, source) → machine.heap.Stores target source →
    machine.heap.type? target = machine.heap.type? source ∨ ∀ holder, ¬ machine.heap.Holds holder target

theorem admits_alike {heap : Heap} {target source : Value} (stores : heap.Stores target source) :
    heap.Admits Ty.Alike target source := by
  refine .inr fun old new expected had given fit => ?_
  rcases stores with same | ⟨_, first, second, hadFirst, givenSecond, arrays⟩
  · cases had.symm.trans (same.trans given)
    exact fit
  · cases had.symm.trans hadFirst
    cases given.symm.trans givenSecond
    rcases fit with rfl | ⟨_, array⟩
    · exact .inr arrays.symm
    · exact .inr ⟨arrays.2, array⟩

theorem Conservative.admits (conservative : machine.Conservative) {target source : Value}
    (assigns : machine.assigns? = some (target, source)) (stores : machine.heap.Stores target source) :
    machine.heap.Admits Eq target source := by
  rcases conservative target source assigns stores with same | apart
  · refine .inr fun old new expected had given fit => ?_
    cases had.symm.trans (same.trans given)
    exact fit
  · exact .inl apart

/-- Let the literals of a program be typed exactly. Then, wherever a session has come to, also while a
native function runs, an array has the type of an array, and its elements have its element type or,
if that is the type of an array, types of arrays. They have exactly its element type if no assignment
through a handle has put an array into the place of one of another type inside an array. -/
theorem arrays_homogeneous (literals : ∀ literal ∈ program.script.literals, literal.2.Typed Eq) :
    (program.natives.Fitting Ty.Alike →
      machine.Fitting Ty.Alike (fun _ => True) program limits →
      machine.Homogeneous Ty.Alike ∧
        ∀ routine start rest seen, Invokes program.natives machine routine start →
          routine.Comes start rest seen → seen.Homogeneous Ty.Alike) ∧
    (program.natives.Fitting Eq → machine.Fitting Eq Conservative program limits →
      machine.Homogeneous Eq ∧
        ∀ routine start rest seen, Invokes program.natives machine routine start →
          routine.Comes start rest seen → seen.Homogeneous Eq) := by
  constructor
  · intro fitting session
    have alike (literal) (inside : literal ∈ program.script.literals) : literal.2.Typed Ty.Alike :=
      (literals literal inside).weaken fun _ _ same => .inl same
    have permitted (machine : Machine) (_ : True) (target source : Value)
        (_ : machine.assigns? = some (target, source)) (stores : machine.heap.Stores target source) :=
      admits_alike stores
    refine ⟨homogeneous_of_heap (session.heap Ty.Alike.refl alike fitting permitted), ?_⟩
    intro routine start rest seen invokes comes
    exact homogeneous_of_heap (session.seen Ty.Alike.refl alike fitting permitted invokes comes)
  · intro fitting session
    have permitted (machine : Machine) (conservative : machine.Conservative) (target source : Value) :=
      @Conservative.admits machine conservative target source
    refine ⟨homogeneous_of_heap (session.heap (@rfl Ty) literals fitting permitted), ?_⟩
    intro routine start rest seen invokes comes
    exact homogeneous_of_heap (session.seen (@rfl Ty) literals fitting permitted invokes comes)

/-! An empty array that an array holds, and what is assigned to it. -/

/-- Moves of a running machine that is as permitted. -/
theorem Fitting.iterate (session : machine.Fitting fits permits program limits) (count : Nat)
    (running : ∀ before < count, ((move program.natives)^[before] machine).state = .running)
    (permitted : ∀ before < count, permits ((move program.natives)^[before] machine)) :
    ((move program.natives)^[count] machine).Fitting fits permits program limits :=
  iterate_move session count fun before less earlier =>
    earlier.step (permitted before less) (.move (running before less)) (.inl (running before less))

/-- The empty array is the element of a literal. -/
def replacingBlock (source : Datum) : Block where
  kind := .sub
  level := 0
  slots := 1
  codes := #[
    ⟨1, .pushValue (.array (.array (.array .real)) [.reals []])⟩, ⟨1, .assign ⟨0, 0⟩⟩,
    ⟨2, .pushVariableWritable ⟨0, 0⟩⟩, ⟨2, .pushValue (.real 0.0)⟩, ⟨2, .indexWritable⟩,
    ⟨2, .pushValue source⟩, ⟨2, .assignWritable⟩]

def replacing (source : Datum) : Program where
  script := { blocks := #[replacingBlock source], main := some ⟨0⟩ }

theorem replacing_typed {source : Datum} (typed : source.Typed fits)
    (reflexive : ∀ type, fits type type) :
    ∀ literal ∈ (replacing source).script.literals, literal.2.Typed fits := by
  have reals : (Datum.reals []).Typed fits := .array nofun nofun
  have nested : (Datum.array (.array (.array .real)) [.reals []]).Typed fits := by
    refine .array (List.forall_mem_singleton.mpr reals) (List.forall_mem_singleton.mpr ?_)
    exact ⟨_, rfl, reflexive _⟩
  have listed : (replacing source).script.literals.map Prod.snd =
      [.array (.array (.array .real)) [.reals []], .real 0.0, source] := rfl
  intro literal inside
  have among := List.mem_map_of_mem (f := Prod.snd) inside
  rw [listed] at among
  simp only [List.mem_cons, List.not_mem_nil, or_false] at among
  rcases among with same | same | same
  · exact same ▸ nested
  · exact same ▸ Datum.typed_real 0.0
  · exact same ▸ typed

theorem replacing_fitting (source : Datum) : (replacing source).natives.Fitting fits :=
  fun native inside => absurd inside (Array.not_mem_empty native)

/-- The machine after as many moves of its first tick. -/
def replaced (source : Datum) (count : Nat) : Machine :=
  (move (replacing source).natives)^[count]
    (((replacing source).machine {}).started ⟨0⟩ (replacingBlock source)).begin

theorem fitting_replaced {source : Datum} (count : Nat)
    (idle : permits ((replacing source).machine {}))
    (running : ∀ before < count, (replaced source before).state = .running)
    (permitted : ∀ before < count, permits (replaced source before)) :
    (replaced source count).Fitting fits permits (replacing source) {} := by
  have begun : (replaced source 0).Fitting fits permits (replacing source) {} :=
    .step .initial idle (.start rfl) (.inr rfl)
  exact begun.iterate count running permitted

/-- An assignment whose sides have one type changes no type. -/
theorem conservative_of_type? (same : machine.assigns?.all fun (target, source) =>
    machine.heap.type? target = machine.heap.type? source) : machine.Conservative := by
  intro target source assigns _
  rw [assigns] at same
  exact .inl (of_decide_eq_true same)

theorem homogeneous_replaced :
    (∀ literal ∈ (replacing (.reals [1.0])).script.literals, literal.2.Typed Eq) ∧
      (replaced (.reals [1.0]) 8).Homogeneous Eq := by
  have typed : (Datum.reals [1.0]).Typed Eq :=
    .array (List.forall_mem_singleton.mpr (Datum.typed_real 1.0))
      (List.forall_mem_singleton.mpr ⟨_, rfl, rfl⟩)
  have literals := replacing_typed typed (@rfl Ty)
  have running : ∀ before < 8, (replaced (.reals [1.0]) before).state = .running := by
    decide +kernel
  have same : ∀ before < 8, (replaced (.reals [1.0]) before).assigns?.all fun (target, source) =>
      (replaced (.reals [1.0]) before).heap.type? target =
        (replaced (.reals [1.0]) before).heap.type? source := by
    decide +kernel
  have session := @fitting_replaced Eq Conservative (.reals [1.0]) 8
    (conservative_of_type? rfl) running fun before less => conservative_of_type? (same before less)
  exact ⟨literals, ((arrays_homogeneous literals).2 (replacing_fitting _) session).1⟩

/-- A string takes the place of an empty array of reals, and then is an element among those. -/
theorem not_homogeneous_replaced :
    ¬ ∀ (program : Program) (limits : Limits) (machine : Machine),
      (∀ literal ∈ program.script.literals, literal.2.Typed Eq) → program.natives.Fitting Eq →
        machine.Fitting Eq (fun _ => True) program limits →
        ∀ value ∈ machine.frames.values, (machine.heap.view value).Typed Eq := by
  intro claim
  have typed {fits : Ty → Ty → Prop} (reflexive : ∀ type, fits type type) :
      (Datum.string "x").Typed fits := Datum.typed_string reflexive "x"
  have running : ∀ before < 8, (replaced (.string "x") before).state = .running := by
    decide +kernel
  have session {fits : Ty → Ty → Prop} : (replaced (.string "x") 8).Fitting fits (fun _ => True)
      (replacing (.string "x")) {} :=
    fitting_replaced 8 trivial running fun _ _ => trivial
  have tree := claim _ _ _ (replacing_typed (typed (@rfl Ty)) (@rfl Ty)) (replacing_fitting _) session
    (some ⟨1⟩) (by decide +kernel)
  have alike := session.heap Ty.Alike.refl (replacing_typed (typed Ty.Alike.refl) Ty.Alike.refl)
    (replacing_fitting _) fun _ _ _ _ _ stores => admits_alike stores
  have listed : (replaced (.string "x") 8).heap.elements (some ⟨1⟩) = .ok #[some ⟨0⟩] := by
    decide +kernel
  have holds := (Heap.holds_iff_of_elements listed).mpr (Array.mem_singleton.mpr rfl)
  have array : (replaced (.string "x") 8).heap.type? (some ⟨1⟩) = some (.array (.array .real)) := by
    decide +kernel
  have element : (replaced (.string "x") 8).heap.type? (some ⟨0⟩) = some .string := by decide +kernel
  obtain ⟨expected, found, own, had, same⟩ := (alike.sound _ (.of_type? array)).fits_of_view tree holds
  cases own.symm.trans array
  cases had.symm.trans element
  cases same

end Machine

end CoopScript
