import CoopScript.Proofs.Actions.Runs
import CoopScript.Proofs.Heap.Ownership
import CoopScript.Proofs.Machine.Execution
import CoopScript.Proofs.Machine.Scope

/-!
The course of an assignment through a handle for writing. Until the source is written the trees in
all places stay as they are, and the handle owns what the indices have led to so far.
-/

namespace CoopScript

/-- What an instruction pushes: a literal or the value of a variable. -/
inductive Operand where
  | literal (datum : Datum)
  | read (place : Variable)

def Operand.push : Operand → Instruction
  | .literal datum => .pushValue datum
  | .read place => .pushVariable place

namespace Instruction

/-- The code that goes from a handle for writing into elements. -/
def descent (indices : List Operand) : List Instruction :=
  indices.flatMap fun index => [index.push, .indexWritable]

/-- The code that assigns the source to the element of the target that the indices lead to. -/
def assignment (target : Variable) (indices : List Operand) (source : Operand) : List Instruction :=
  .pushVariableWritable target :: (descent indices ++ [source.push, .assignWritable])

theorem length_descent (indices : List Operand) : (descent indices).length = 2 * indices.length := by
  induction indices with
  | nil => rfl
  | cons index indices hypothesis =>
      simp only [descent, List.flatMap_cons, List.length_append, List.length_cons, List.length_nil] at *
      omega

theorem length_assignment (target : Variable) (indices : List Operand) (source : Operand) :
    (assignment target indices source).length = 2 + 2 * indices.length + 1 := by
  simp only [assignment, List.length_cons, List.length_append, length_descent, List.length_nil]
  omega

end Instruction

namespace Machine

open FrameArena

/-- The tree at a place of a live frame. -/
def datum? (machine : Machine) (place : Place) : Option Datum :=
  (machine.frames.value? place).map machine.heap.view

/-- The slot that a variable names as seen from a frame. -/
def place? (machine : Machine) (id : FrameId) (target : Variable) : Option Place :=
  match machine.frames.resolve id target.level with
  | .ok holder => some (.slot holder target.slot)
  | .error _ => none

/-- The tree of an operand as seen from a frame. -/
def operand? (machine : Machine) (id : FrameId) : Operand → Option Datum
  | .literal datum => some datum
  | .read target => (machine.place? id target).bind machine.datum?

variable {origin machine : Machine} {natives : Natives} {number : ThreadId} {entry : Thread}
  {frame : Frame} {instruction : Instruction} {rest : List Instruction} {holder : FrameId}
  {slot steps : Nat} {root : Value} {temporaries : List Value}

/-! The course of an assignment. -/

/-- A grounded machine with a current thread and its current frame. -/
structure Poised (origin : Machine) (number : ThreadId) (entry : Thread) (frame : Frame) : Prop where
  grounded : origin.Grounded
  current : origin.current = some number
  found : origin.threads.find? number = some entry
  live : origin.frames.frame? entry.current = some frame

theorem Grounded.has_of_place (grounded : machine.Grounded) {place : Place} {value : Value}
    (there : machine.frames.value? place = some value) : machine.heap.Has value :=
  within_iff.mp grounded.within value (mem_values_iff_place.mpr ⟨place, there⟩)

/-- With the root in the slot that is assigned to, some instructions on, and with some values on top
of the stack, but with the trees of the original machine. -/
structure Underway (origin : Machine) (entry : Thread) (holder : FrameId) (slot : Nat) (root : Value)
    (steps : Nat) (temporaries : List Value) (machine : Machine) : Prop where
  script : machine.script = origin.script
  threads : machine.threads = origin.threads
  current : machine.current = origin.current
  frames : machine.frames = (origin.frames.edit holder (.withSlot slot root)).edit entry.current
    (.advanced steps temporaries)
  keeps : origin.heap.Keeps machine.heap
  has : machine.heap.Has root
  kept : origin.datum? (.slot holder slot) = some (machine.heap.view root)

namespace Underway

variable (underway : Underway origin entry holder slot root steps temporaries machine)

include underway

theorem skeleton : machine.frames.skeleton = origin.frames.skeleton := by
  rw [underway.frames, skeleton_advanced, skeleton_withSlot]

theorem value?_root : machine.frames.value? (.slot holder slot) = some root := by
  obtain ⟨old, there, _⟩ := Option.map_eq_some_iff.mp underway.kept
  have below := value?_advanced (origin.frames.edit holder (.withSlot slot root)) entry.current steps
    temporaries (.slot holder slot)
  rw [underway.frames]
  exact below.trans (value?_withSlot_self there root)

theorem value?_of_ne {place : Place} (different : place ≠ .slot holder slot) :
    machine.frames.value? (place.below entry.current temporaries.length) =
      origin.frames.value? place := by
  rw [underway.frames, value?_advanced, value?_withSlot_of_ne different]

/-- Until the source is written, the trees in all places are those of the original machine. -/
theorem datum? (grounded : origin.Grounded) (place : Place) :
    machine.datum? (place.below entry.current temporaries.length) = origin.datum? place := by
  by_cases same : place = .slot holder slot
  · subst same
    rw [Machine.datum?, Place.below_slot, underway.value?_root, Option.map_some, underway.kept]
  · rw [Machine.datum?, underway.value?_of_ne same, Machine.datum?]
    cases there : origin.frames.value? place with
    | none => rfl
    | some value =>
        rw [Option.map_some, Option.map_some, underway.keeps.view value (grounded.has_of_place there)]

theorem has_value (grounded : origin.Grounded) {place : Place} {value : Value}
    (there : machine.frames.value? (place.below entry.current temporaries.length) = some value) :
    machine.heap.Has value := by
  by_cases same : place = .slot holder slot
  · subst same
    cases underway.value?_root.symm.trans there
    exact underway.has
  · rw [underway.value?_of_ne same] at there
    exact (grounded.has_of_place there).mono underway.keeps.size

theorem root_mem_roots : root ∈ machine.roots :=
  mem_values_iff_place.mpr ⟨.slot holder slot, underway.value?_root⟩

theorem mem_roots_of_others {value : Value}
    (inside : value ∈ origin.frames.others (.slot holder slot)) : value ∈ machine.roots := by
  obtain ⟨place, different, there⟩ := inside
  exact mem_values_iff_place.mpr ⟨_, (underway.value?_of_ne different).trans there⟩

/-- The current frame has passed some instructions and has some values on top of its stack. -/
theorem live (poised : origin.Poised number entry frame) :
    ∃ base, (origin.frames.edit holder (.withSlot slot root)).frame? entry.current = some base ∧
      base.block = frame.block ∧ base.position = frame.position ∧
      machine.frames.frame? entry.current = some (base.advanced steps temporaries) := by
  have changed := frame?_edit origin.frames holder (.withSlot slot root) entry.current
  obtain ⟨base, found, block, position⟩ : ∃ base,
      (origin.frames.edit holder (.withSlot slot root)).frame? entry.current = some base ∧
      base.block = frame.block ∧ base.position = frame.position := by
    split at changed
    · next same =>
        subst same
        rw [poised.live, Option.map_some] at changed
        exact ⟨_, changed, rfl, rfl⟩
    · exact ⟨frame, changed.trans poised.live, rfl, rfl⟩
  refine ⟨base, found, block, position, ?_⟩
  rw [underway.frames, frame?_edit_self found]

/-- Other values on top of the stack, or another position. -/
theorem restack {base : Frame}
    (found : (origin.frames.edit holder (.withSlot slot root)).frame? entry.current = some base)
    (steps : Nat) (temporaries : List Value) :
    Underway origin entry holder slot root steps temporaries { machine with
      frames := machine.frames.set entry.current (base.advanced steps temporaries) } where
  script := underway.script
  threads := underway.threads
  current := underway.current
  frames := by rw [underway.frames, set_edit, edit_eq_set found]
  keeps := underway.keeps
  has := underway.has
  kept := underway.kept

/-- A heap in which all trees are kept. -/
theorem setHeap {heap : Heap} (keeps : machine.heap.Keeps heap) :
    Underway origin entry holder slot root steps temporaries { machine with heap } where
  script := underway.script
  threads := underway.threads
  current := underway.current
  frames := underway.frames
  keeps := underway.keeps.trans keeps
  has := underway.has.mono keeps.size
  kept := by rw [underway.kept, keeps.view root underway.has]

/-- The next instruction runs in a machine that has passed it. -/
theorem step (poised : origin.Poised number entry frame)
    (next : instruction :: rest <+: (origin.code frame.block).drop (frame.position + steps))
    (going : (machine.move natives).stopped = false) :
    ∃ fetched slice after, Underway origin entry holder slot root (steps + 1) temporaries fetched ∧
      fetched.heap = machine.heap ∧
      (Action.execute natives number entry.current instruction).run fetched = .ok slice after ∧
      machine.move natives = afterStep number (.ok slice after) := by
  obtain ⟨base, found, block, position, live⟩ := underway.live poised
  have coded : (machine.code (base.advanced steps temporaries).block)[(base.advanced steps
      temporaries).position]? = some instruction := by
    simp only [Frame.advanced, block, position]
    rw [code, underway.script]
    exact (cons_prefix_drop next).1
  obtain ⟨fetched, slice, after, passed, runs, moved⟩ := run_of_move
    (underway.current.trans poised.current) (underway.threads ▸ poised.found) live coded going
  refine ⟨fetched, slice, after, ?_, passed.heap, runs, moved⟩
  constructor
  case script => exact passed.script.trans underway.script
  case threads => exact passed.threads.trans underway.threads
  case current => exact passed.current.trans underway.current
  case frames =>
    rw [passed.frames, underway.frames]
    apply edit_edit
    intro frame
    rfl
  case keeps => exact passed.heap ▸ underway.keeps
  case has => exact passed.heap ▸ underway.has
  case kept => exact passed.heap ▸ underway.kept

end Underway

/-! Its instructions. -/

/-- The operands name these positions as seen from a frame. -/
def Leads (machine : Machine) (id : FrameId) : List Operand → List Nat → Prop :=
  List.Forall₂ fun operand position =>
    ∃ datum, machine.operand? id operand = some datum ∧ datum.position = .ok position

/-- The handle, if it is of a body, owns what a path leads to from the root. -/
def Owned (origin : Machine) (holder : FrameId) (slot : Nat) (root : Value) (path : List Nat)
    (handle : Value) (heap : Heap) : Prop :=
  ∀ own, handle = some own → heap.Owns (origin.frames.others (.slot holder slot)) root path own

theorem Owned.extend {path : List Nat} {handle : Value} {heap grown : Heap}
    (owned : Owned origin holder slot root path handle heap) (extended : heap.Extends grown)
    (sound : grown.Sound) : Owned origin holder slot root path handle grown :=
  fun own same => (owned own same).extend extended sound

variable (poised : origin.Poised number entry frame)

include poised

/-- The root that takes the place of a value has its tree, and none of the other values leads to
it. A value that is in another place as well occurs twice among the handles. -/
theorem Poised.uniquify {fetched : Machine} {shared : Value} {heap : Heap}
    (passed : Fetched origin entry.current fetched)
    (there : origin.frames.value? (.slot holder slot) = some shared)
    (made : origin.heap.uniquify fetched.roots shared = (root, heap)) :
    origin.heap.Keeps heap ∧ heap.Has root ∧ heap.view root = origin.heap.view shared ∧
      Owned origin holder slot root [] root heap := by
  have own : shared ∈ fetched.roots :=
    mem_values_iff_place.mpr ⟨_, (passed.value? _).trans there⟩
  have known (value : Value) (inside : value ∈ origin.frames.others (.slot holder slot)) :
      origin.heap.Has value := by
    obtain ⟨place, _, held⟩ := inside
    exact poised.grounded.has_of_place held
  have listed (value : Value) (inside : value ∈ origin.frames.others (.slot holder slot)) :
      value ∈ fetched.roots := by
    obtain ⟨place, _, held⟩ := inside
    exact mem_values_iff_place.mpr ⟨place, (passed.value? place).trans held⟩
  have twice (full : shared ≠ none) (inside : shared ∈ origin.frames.others (.slot holder slot)) :
      2 ≤ fetched.roots.count shared := by
    apply two_le_count ((passed.value? _).trans there) full
    obtain ⟨place, different, held⟩ := inside
    exact ⟨place, different, (passed.value? place).trans held⟩
  exact Heap.owns_uniquify poised.grounded.sound (poised.grounded.has_of_place there) own known listed
    twice made

/-- The first instruction makes the value of the variable its own root, which is the handle. -/
theorem Poised.begin {target : Variable}
    (next : .pushVariableWritable target :: rest <+: (origin.code frame.block).drop frame.position)
    (going : (origin.move natives).stopped = false) :
    ∃ holder root, origin.place? entry.current target = some (.slot holder target.slot) ∧
      Underway origin entry holder target.slot root 1 [root] (origin.move natives) ∧
      Owned origin holder target.slot root [] root (origin.move natives).heap := by
  obtain ⟨fetched, slice, after, passed, runs, moved⟩ := run_of_move poised.current poised.found
    poised.live (cons_prefix_drop next).1 going
  obtain ⟨rfl, holder, held, shared, resolved, lives, there, root, heap, made, last, current, rfl⟩ :=
    Action.run_pushVariableWritable runs
  rw [passed.heap] at made
  have slot : origin.frames.value? (.slot holder target.slot) = some shared := by
    rw [← passed.value?, value?, lives, Option.bind_some, there]
  obtain ⟨keeps, has, view, owned⟩ := poised.uniquify passed slot made
  have begun : Underway origin entry holder target.slot root 1 [] { fetched with
      heap
      frames := fetched.frames.set holder
        { held with slots := held.slots.setIfInBounds target.slot root } } := by
    constructor
    case script => exact passed.script
    case threads => exact passed.threads
    case current => exact passed.current
    case frames =>
      have written := edit_eq_set lives (.withSlot target.slot root)
      rw [passed.frames, edit_comm fun _ => by rfl] at written
      rw [written, passed.frames]
      rfl
    case keeps => exact keeps
    case has => exact has
    case kept => rw [Machine.datum?, slot, Option.map_some, view]
  obtain ⟨base, found, _, _, live⟩ := begun.live poised
  cases live.symm.trans current
  have resolves : origin.frames.resolve entry.current target.level = .ok holder :=
    (resolve_of_skeleton passed.skeleton _ _).symm.trans resolved
  rw [moved]
  refine ⟨holder, root, ?_, begun.restack found 1 [root], owned⟩
  rw [place?, resolves]

namespace Underway

/-- An operand is pushed with its tree in the original machine. -/
theorem push (underway : Underway origin entry holder slot root steps temporaries machine)
    {operand : Operand}
    (next : operand.push :: rest <+: (origin.code frame.block).drop (frame.position + steps))
    (going : (machine.move natives).stopped = false) :
    ∃ value, Underway origin entry holder slot root (steps + 1) (value :: temporaries)
        (machine.move natives) ∧
      machine.heap.Extends (machine.move natives).heap ∧
      (machine.move natives).heap.Has value ∧
      origin.operand? entry.current operand = some ((machine.move natives).heap.view value) := by
  obtain ⟨fetched, slice, after, further, heap, runs, moved⟩ := underway.step poised next going
  obtain ⟨base, found, _, _, live⟩ := further.live poised
  cases operand with
  | literal datum =>
      obtain ⟨rfl, held, current, rfl⟩ := Action.run_pushValue runs
      cases live.symm.trans current
      have made := Heap.made_build datum fetched.heap further.keeps.sound
      have kept := further.setHeap (made.extended.keeps further.keeps.sound made.sound)
      rw [moved, ← heap]
      refine ⟨(Heap.build datum fetched.heap).1, kept.restack found _ _, made.extended, made.has, ?_⟩
      exact congrArg some made.view.symm
  | read target =>
      obtain ⟨rfl, owner, held, value, last, resolved, lives, there, current, rfl⟩ :=
        Action.run_pushVariable runs
      cases live.symm.trans current
      have named : fetched.frames.value? (.slot owner target.slot) = some value := by
        rw [value?, lives, Option.bind_some, there]
      have resolves : origin.frames.resolve entry.current target.level = .ok owner :=
        (resolve_of_skeleton further.skeleton _ _).symm.trans resolved
      have shown := further.datum? poised.grounded (.slot owner target.slot)
      rw [Machine.datum?, Place.below_slot, named, Option.map_some] at shown
      rw [moved, ← heap]
      have known := @has_value _ _ _ _ _ _ _ _ further poised.grounded (.slot owner target.slot) _ named
      refine ⟨value, further.restack found _ _, .refl _, known, ?_⟩
      rw [operand?, place?, resolves]
      exact shown.symm

/-- Taking an element goes one position further. -/
theorem claim {operand handle : Value} {path : List Nat}
    (underway : Underway origin entry holder slot root steps [operand, handle] machine)
    (owned : Owned origin holder slot root path handle machine.heap)
    (next : .indexWritable :: rest <+: (origin.code frame.block).drop (frame.position + steps))
    (going : (machine.move natives).stopped = false) :
    ∃ position element, (machine.heap.view operand).position = .ok position ∧
      Underway origin entry holder slot root (steps + 1) [element] (machine.move natives) ∧
      Owned origin holder slot root (path ++ [position]) element (machine.move natives).heap := by
  obtain ⟨fetched, slice, after, further, heap, runs, moved⟩ := underway.step poised next going
  obtain ⟨base, found, _, _, live⟩ := further.live poised
  obtain ⟨rfl, held, top, array, stack, current, stacked, position, element, placed, indexed, taken,
    grown, claimed, rfl⟩ := Action.run_indexWritable runs
  cases live.symm.trans current
  simp only [Frame.advanced, List.cons_append, List.nil_append, List.cons.injEq] at stacked
  obtain ⟨rfl, rfl, rfl⟩ := stacked
  obtain ⟨type, elements, body, there⟩ := Heap.index_eq_ok_iff.mp indexed
  rw [← heap] at owned ⊢
  rw [moved]
  cases handle with
  | none => cases body
  | some own =>
      have bare := further.restack found (steps + 1) []
      have within := (owned own rfl).claim body there bare.root_mem_roots
        (fun _ => bare.mem_roots_of_others) claimed
      have keeps := Heap.keeps_claim further.keeps.sound body there claimed
      exact ⟨position, taken, placed, (further.setHeap keeps.1).restack found _ _, within⟩

/-- Each pair of instructions takes an element. -/
theorem descend {indices : List Operand} {handle : Value} {path : List Nat}
    (underway : Underway origin entry holder slot root steps [handle] machine)
    (owned : Owned origin holder slot root path handle machine.heap)
    (next : Instruction.descent indices ++ rest <+:
      (origin.code frame.block).drop (frame.position + steps))
    (going : ((Machine.move natives)^[2 * indices.length] machine).stopped = false) :
    ∃ positions element, Leads origin entry.current indices positions ∧
      Underway origin entry holder slot root (steps + 2 * indices.length) [element]
        ((Machine.move natives)^[2 * indices.length] machine) ∧
      Owned origin holder slot root (path ++ positions) element
        ((Machine.move natives)^[2 * indices.length] machine).heap := by
  -- The invariant is `Underway` with the handle alone on the stack, which owns what the path so far
  -- leads to.
  induction indices generalizing machine steps handle path with
  | nil =>
      refine ⟨[], handle, .nil, underway, ?_⟩
      rwa [List.append_nil]
  | cons index indices hypothesis =>
      have pushes : index.push :: (.indexWritable :: (Instruction.descent indices ++ rest)) <+:
          (origin.code frame.block).drop (frame.position + steps) := next
      have claims := (cons_prefix_drop pushes).2
      have later := (cons_prefix_drop claims).2
      have twice : 2 * (index :: indices).length = 2 * indices.length + 1 + 1 := by
        rw [List.length_cons]
        omega
      rw [twice, Function.iterate_succ_apply, Function.iterate_succ_apply] at going ⊢
      have soon := going_of_iterate _ going
      obtain ⟨operand, pushed, extended, _, shown⟩ :=
        underway.push poised pushes (going_of_iterate 1 soon)
      obtain ⟨position, element, placed, claimed, own⟩ := pushed.claim poised
        (owned.extend extended pushed.keeps.sound) claims soon
      obtain ⟨positions, last, leads, ended, within⟩ := hypothesis claimed own later going
      refine ⟨position :: positions, last, .cons ⟨_, shown, placed⟩ leads, ?_, ?_⟩
      · convert ended using 1
        omega
      · rwa [List.append_cons]

/-- Writing the source changes the tree of the root at the path and no other tree. -/
theorem finish {source handle : Value} {path : List Nat}
    (underway : Underway origin entry holder slot root steps [source, handle] machine)
    (owned : Owned origin holder slot root path handle machine.heap)
    (next : .assignWritable :: rest <+: (origin.code frame.block).drop (frame.position + steps))
    (going : (machine.move natives).stopped = false) :
    ∃ changed,
      (machine.heap.view root).replace? path (machine.heap.view source) = some changed ∧
      (machine.move natives).datum? (.slot holder slot) = some changed ∧
      (∀ place, place ≠ .slot holder slot →
        (machine.move natives).datum? place = origin.datum? place) ∧
      (machine.move natives).script = origin.script := by
  obtain ⟨fetched, slice, after, further, heap, runs, moved⟩ := underway.step poised next going
  obtain ⟨base, found, _, _, live⟩ := further.live poised
  obtain ⟨rfl, held, top, own, stack, current, stacked, ⟨body, there⟩, rfl⟩ :=
    Action.run_assignWritable runs
  cases live.symm.trans current
  simp only [Frame.advanced, List.cons_append, List.nil_append, List.cons.injEq] at stacked
  obtain ⟨rfl, rfl, rfl⟩ := stacked
  rw [← heap] at owned ⊢
  rw [moved]
  have bare := further.restack found (steps + 1) []
  obtain ⟨changed, others⟩ := (owned own rfl).takeOver there
  refine ⟨_, changed, congrArg (Option.map _) bare.value?_root, ?_, further.script⟩
  intro place different
  have same := bare.value?_of_ne different
  rw [List.length_nil, Place.below_zero] at same
  apply (congrArg (Option.map _) same).trans
  rw [Machine.datum?]
  cases held : origin.frames.value? place with
  | none => rfl
  | some value =>
      have known := poised.grounded.has_of_place held
      rw [Option.map_some, Option.map_some, ← bare.keeps.view value known]
      exact congrArg some (others value ⟨place, different, held⟩)

end Underway

end Machine

end CoopScript
