import Mathlib.Data.Nat.Count
import CoopScript.Proofs.Actions.Loops
import CoopScript.Proofs.Machine.Course
import CoopScript.Proofs.Machine.Enclosing
import CoopScript.Proofs.Number.Naturals

/-!
Loops of compiled scripts. A loop counts a number down, or goes through an array, and calls a block each
time around. Whatever the block does, and whatever other threads and the host do meanwhile, the block is
entered as often as the number says, or once for each element, unless it is left by a break.
-/

namespace CoopScript

open Machine (Stacked ExecutesIn Transition)
open CallStack (Encloses)

/-- What a loop runs over: a number, or the elements of an array. -/
inductive LoopRange where
  | count (number : Nat)
  | elements (array : Value) (items : Array Value)

/-- A loop that a frame of a thread executes, with the block that it calls and the place where its code
begins. -/
structure Loop where
  thread : ThreadId
  frame : FrameId
  range : LoopRange
  body : BlockId
  start : Nat

namespace LoopRange

/-- How often the loop goes around if nothing breaks it. -/
def size : LoopRange → Nat
  | count number => number
  | elements _ items => items.size

/-- The counter in the beginning. -/
def initial : LoopRange → Float
  | count number => Float.ofNat number
  | elements _ _ => 0.0

/-- What is under the counter among the operands. -/
def under : LoopRange → List Value
  | count _ => []
  | elements array _ => [array]

/-- The array has the elements that the loop runs over. -/
def Intact : LoopRange → Heap → Prop
  | count _, _ => True
  | elements array items, heap => heap.elements array = .ok items

/-- The instruction that a loop begins with each time around. -/
def head : LoopRange → Instruction
  | count _ => .loopCount
  | elements _ _ => .loopForEach

/-- The arguments of the block after so many rounds. -/
def arguments : LoopRange → Nat → List Value
  | count _, _ => []
  | elements _ items, rounds => items[rounds]?.toList

/-- The number on the counter after so many rounds. -/
def tally : LoopRange → Nat → Nat
  | count number, rounds => number - rounds
  | elements _ _, rounds => rounds

end LoopRange

/-- The code of a loop. -/
def Loop.code (loop : Loop) : List Instruction :=
  match loop.range with
  | .count _ =>
    [.loopCount, .jumpIfNot (loop.start + 4), .call (.block loop.body) 0, .loopBack loop.start, .pop]
  | .elements _ _ =>
    [.loopForEach, .jumpIfNot (loop.start + 4), .call (.block loop.body) 1, .loopBack loop.start, .pop,
      .pop]

/-- The place after the code. -/
def Loop.finish (loop : Loop) : Nat := loop.start + loop.code.length

/-- It is the turn of the thread at the beginning of the loop, whose operands lie on those below. -/
structure Loop.Begins (loop : Loop) (below : List Value) (machine : Machine) : Prop where
  executes : machine.ExecutesIn loop.thread loop.frame
  body : ∃ block, machine.script.block? loop.body = some block ∧ block.kind = .loop
  frame : ∃ frame counter, machine.frames.frame? loop.frame = some frame ∧
    frame.position = loop.start ∧ loop.code <+: (machine.code frame.block).drop loop.start ∧
    frame.stack = counter :: loop.range.under ++ below ∧
    machine.heap.view counter = .real loop.range.initial

/-- A thread goes from a frame into a new frame of a block. -/
def Machine.Enters (before after : Machine) (number : ThreadId) (id : FrameId) (body : BlockId) : Prop :=
  before.ExecutesIn number id ∧ ∃ thread ∈ after.threads.find? number,
    before.frames.frame? thread.current = none ∧
    ∃ child ∈ after.frames.frame? thread.current, child.block = body ∧ child.parent = some id

instance (before after : Machine) (number : ThreadId) (id : FrameId) (body : BlockId) :
    Decidable (before.Enters after number id body) :=
  inferInstanceAs (Decidable (_ ∧ ∃ thread ∈ after.threads.find? number,
    before.frames.frame? thread.current = none ∧
    ∃ child ∈ after.frames.frame? thread.current, child.block = body ∧ child.parent = some id))

namespace Course

variable {program : Program} {limits : Limits} (course : Course program limits) (loop : Loop)

/-- The block of the loop is entered. -/
abbrev Enters (moment : Nat) : Prop :=
  (course.machine moment).Enters (course.machine (moment + 1)) loop.thread loop.frame loop.body

/-- How often the block of the loop has been entered. -/
def entries (moment : Nat) : Nat := Nat.count (course.Enters loop) moment

/-- The block of the loop is left by a break. -/
def Breaks (moment : Nat) : Prop := (course.machine moment).BreaksLoop loop.thread loop.frame

/-- It is the turn of the thread after the end of the loop. -/
def Passes (moment : Nat) : Prop :=
  (course.machine moment).ExecutesIn loop.thread loop.frame ∧
    ∃ frame ∈ (course.machine moment).frames.frame? loop.frame, frame.position = loop.finish

instance (moment : Nat) : Decidable (course.Passes loop moment) :=
  inferInstanceAs (Decidable (_ ∧ ∃ frame ∈ (course.machine moment).frames.frame? loop.frame,
    frame.position = loop.finish))

/-- The thread has not come to the end of the loop yet. -/
def Lasts (moment : Nat) : Prop := ∀ earlier ≤ moment, ¬ course.Passes loop earlier

/-- While the loop lasts the machine does not stop, and the thread comes back from every activation of the
block. It leaves no routine around, nobody changes the array, and handles are not made up. -/
structure Undisturbed : Prop where
  going : ∀ moment, course.Lasts loop moment → (course.machine (moment + 1)).stopped = false
  returns : ∀ moment, course.Lasts loop moment → course.Enters loop moment →
    ∃ later, moment < later ∧ (course.machine later).ExecutesIn loop.thread loop.frame
  stays : ∀ moment, course.Lasts loop moment →
    ¬ (course.machine moment).BreaksRoutine loop.thread loop.frame
  intact : ∀ moment, course.Lasts loop moment → loop.range.Intact (course.machine moment).heap
  unforged : ∀ moment, course.Lasts loop moment → course.Unforged loop.frame moment

end Course

/-! Steps of the frame. -/

/-- What a scalar that is built shows. -/
theorem Heap.surface_build (heap : Heap) (type : Ty) (payload : Scalar) :
    (build (.scalar type payload) heap).2.surface (build (.scalar type payload) heap).1 =
      .scalar type payload := by
  simp [surface, viewWithin, build]

/-- The instructions of a loop, by their places. -/
theorem Loop.code_getElem? (loop : Loop) :
    loop.code[0]? = some loop.range.head ∧ loop.code[1]? = some (.jumpIfNot (loop.start + 4)) ∧
      (∃ count, loop.code[2]? = some (.call (.block loop.body) count) ∧
        count = loop.range.under.length) ∧
      loop.code[3]? = some (.loopBack loop.start) ∧
      ∀ place, 4 ≤ place → place < loop.code.length → loop.code[place]? = some .pop := by
  unfold code
  cases loop.range with
  | count number =>
      refine ⟨rfl, rfl, ⟨0, rfl, rfl⟩, rfl, fun place more less => ?_⟩
      obtain rfl : place = 4 := by simp at less; omega
      rfl
  | elements array items =>
      refine ⟨rfl, rfl, ⟨1, rfl, rfl⟩, rfl, fun place more less => ?_⟩
      obtain rfl | rfl : place = 4 ∨ place = 5 := by simp at less; omega
      · rfl
      · rfl

theorem Loop.length_code (loop : Loop) : loop.code.length = 5 + loop.range.under.length := by
  unfold code
  cases loop.range <;> rfl

namespace Course

variable {program : Program} {limits : Limits} {course : Course program limits} {loop : Loop}
  {block : BlockId} {moment position : Nat} {operands : List Value} {instruction : Instruction}

/-- It is the turn of the thread at a place of the frame's code, with the given operands. -/
structure Stands (course : Course program limits) (loop : Loop) (block : BlockId)
    (moment position : Nat) (operands : List Value) : Prop where
  executes : (course.machine moment).ExecutesIn loop.thread loop.frame
  frame : ∃ held, (course.machine moment).frames.frame? loop.frame = some held ∧ held.block = block ∧
    held.position = position ∧ held.stack = operands

/-- A step of the frame leads to another place, other operands and another heap. -/
structure Steps (course : Course program limits) (loop : Loop) (block : BlockId)
    (moment position : Nat) (operands : List Value) (heap : Heap) : Prop where
  stands : course.Stands loop block (moment + 1) position operands
  heap : (course.machine (moment + 1)).heap = heap
  frames : ∃ held, (course.machine moment).frames.frame? loop.frame = some held ∧
    (course.machine (moment + 1)).frames =
      (course.machine moment).frames.set loop.frame { held with position, stack := operands }

/-- The next instruction of the frame goes through. -/
theorem Stands.runs (stands : course.Stands loop block moment position operands)
    (next : ((course.machine moment).code block)[position]? = some instruction)
    (going : (course.machine (moment + 1)).stopped = false) :
    ∃ held fetched slice last, (course.machine moment).frames.frame? loop.frame = some held ∧
      held.block = block ∧ held.position = position ∧ held.stack = operands ∧
      (course.machine moment).Fetched loop.frame fetched ∧
      fetched.frames = (course.machine moment).frames.set loop.frame held.passed ∧
      fetched.frames.frame? loop.frame = some held.passed ∧
      (Action.execute program.natives loop.thread loop.frame instruction).run fetched = .ok slice last ∧
      course.machine (moment + 1) = Machine.afterStep loop.thread (.ok slice last) := by
  obtain ⟨⟨_, turn, entry, found, current⟩, held, live, rfl, rfl, rfl⟩ := stands
  have moves := course.moves turn
  rw [moves] at going ⊢
  obtain ⟨fetched, slice, last, passed, ran, moved⟩ :=
    Machine.run_of_move turn found (current ▸ live) next going
  rw [current] at passed ran
  have left : fetched.frames = (course.machine moment).frames.set loop.frame held.passed :=
    passed.frames.trans (FrameArena.edit_eq_set live _)
  have there := FrameArena.frame?_set_self held.passed (FrameArena.index_lt_of_frame? live)
  exact ⟨held, fetched, slice, last, live, rfl, rfl, rfl, passed, left, left ▸ there, ran, moved⟩

/-- The frame goes on with what an instruction has made of it. -/
theorem Stands.steps {held : Frame} {fetched : Machine} {heap : Heap} {target : Nat}
    {others : List Value} (stands : course.Stands loop block moment position operands)
    (live : (course.machine moment).frames.frame? loop.frame = some held) (named : held.block = block)
    (passed : (course.machine moment).Fetched loop.frame fetched)
    (left : fetched.frames = (course.machine moment).frames.set loop.frame held.passed)
    (moved : course.machine (moment + 1) = { fetched with
      heap
      frames := fetched.frames.set loop.frame { held.passed with position := target, stack := others } })
    (going : (course.machine (moment + 1)).stopped = false) :
    course.Steps loop block moment target others heap := by
  have frames : (course.machine (moment + 1)).frames = (course.machine moment).frames.set loop.frame
      { held with position := target, stack := others } := by
    rw [moved, left]
    exact FrameArena.set_set ..
  obtain ⟨⟨_, turn, entry, found, current⟩, _⟩ := stands
  refine ⟨⟨⟨going, ?_, entry, ?_, current⟩, { held with position := target, stack := others }, ?_,
    named, rfl, rfl⟩, by rw [moved], held, live, frames⟩
  · rw [moved]
    exact passed.current.trans turn
  · rw [moved]
    exact (congrArg (·.find? loop.thread) passed.threads).trans found
  · rw [frames]
    exact FrameArena.frame?_set_self _ (FrameArena.index_lt_of_frame? live)

section Instructions

variable (stands : course.Stands loop block moment position operands)
  (going : (course.machine (moment + 1)).stopped = false)

include stands going

theorem Stands.pop {value : Value} {rest : List Value} (stacked : operands = value :: rest)
    (next : ((course.machine moment).code block)[position]? = some .pop) :
    course.Steps loop block moment (position + 1) rest (course.machine moment).heap := by
  obtain ⟨held, fetched, slice, last, live, named, rfl, rfl, passed, left, there, ran, moved⟩ :=
    stands.runs next going
  obtain ⟨rfl, _, _, same, rfl⟩ := Action.run_popValue there ran
  cases stacked.symm.trans same
  exact stands.steps live named passed left (by rw [moved, ← passed.heap]; rfl) going

theorem Stands.loopBack {target : Nat}
    (next : ((course.machine moment).code block)[position]? = some (.loopBack target)) :
    course.Steps loop block moment target operands (course.machine moment).heap := by
  obtain ⟨held, fetched, slice, last, live, named, rfl, rfl, passed, left, there, ran, moved⟩ :=
    stands.runs next going
  obtain ⟨rfl, rfl⟩ := Action.run_loopBack there ran
  exact stands.steps live named passed left (by rw [moved, ← passed.heap]; rfl) going

theorem Stands.jumpIfNot {target : Nat} {condition : Value} {rest : List Value} {holds : Bool}
    (stacked : operands = condition :: rest)
    (shows : ((course.machine moment).heap.surface condition).toBoolean = .ok holds)
    (next : ((course.machine moment).code block)[position]? = some (.jumpIfNot target)) :
    course.Steps loop block moment (if holds then position + 1 else target) rest
      (course.machine moment).heap := by
  obtain ⟨held, fetched, slice, last, live, named, rfl, rfl, passed, left, there, ran, moved⟩ :=
    stands.runs next going
  obtain ⟨rfl, _, _, _, same, shown, rfl⟩ := Action.run_jumpIfNot there ran
  cases stacked.symm.trans same
  rw [passed.heap] at shown
  cases shows.symm.trans shown
  exact stands.steps live named passed left (by rw [moved, ← passed.heap]; rfl) going

/-- A loop that is not at its end gives the block its arguments and has counted one round more. Else
only a flag is pushed. -/
theorem Stands.head {counter : Value} {below : List Value} {rounds : Nat}
    (begun : position = loop.start) (stacked : operands = counter :: loop.range.under ++ below)
    (next : ((course.machine moment).code block)[loop.start]? = some loop.range.head)
    (counts : ((course.machine moment).heap.surface counter).toReal =
      .ok (Float.ofNat (loop.range.tally rounds)))
    (within : rounds ≤ loop.range.size) (small : loop.range.size < 2 ^ 53)
    (intact : loop.range.Intact (course.machine moment).heap) :
    if rounds < loop.range.size then
      let counted := Heap.build (.real (Float.ofNat (loop.range.tally (rounds + 1))))
        (course.machine moment).heap
      let flag := Heap.build (.boolean true) counted.2
      course.Steps loop block moment (loop.start + 1)
        (flag.1 :: loop.range.arguments rounds ++ counted.1 :: loop.range.under ++ below) flag.2
    else
      let flag := Heap.build (.boolean false) (course.machine moment).heap
      course.Steps loop block moment (loop.start + 1)
        (flag.1 :: counter :: loop.range.under ++ below) flag.2 := by
  subst begun
  obtain ⟨held, fetched, slice, last, live, named, located, rfl, passed, left, there, ran, moved⟩ :=
    stands.runs next going
  rw [← passed.heap] at counts intact
  have goesOn {heap : Heap} {others : List Value} (moved : course.machine (moment + 1) = { fetched with
      heap
      frames := fetched.frames.set loop.frame { held.passed with stack := others } }) :
      course.Steps loop block moment (loop.start + 1) others heap := by
    refine stands.steps live named passed left ?_ going
    rw [moved, ← located]
    rfl
  generalize ranged : loop.range = range at *
  cases range with
  | count number =>
      have fits : number - rounds < 2 ^ 53 := (Nat.sub_le ..).trans_lt small
      obtain ⟨rfl, rfl⟩ := Action.run_loopCount there stacked counts ran
      simp only [LoopRange.tally, Binary64.zero_lt_ofNat_iff fits, tsub_pos_iff_lt] at moved
      by_cases more : rounds < number
      · rw [if_pos (show rounds < (LoopRange.count number).size from more)]
        have split : number - rounds = number - (rounds + 1) + 1 := by omega
        rw [if_pos more, split, Binary64.ofNat_succ_sub_one (split ▸ fits), passed.heap] at moved
        exact goesOn moved
      · rw [if_neg (show ¬ rounds < (LoopRange.count number).size from more)]
        rw [if_neg more, passed.heap] at moved
        exact goesOn moved
  | elements array items =>
      obtain ⟨type, body⟩ := Heap.elements_eq_ok_iff.mp intact
      have fits : rounds < 2 ^ 53 := within.trans_lt small
      have long : fetched.heap.length array = .ok items.size := by
        rw [Heap.length, show fetched.heap.elements array = .ok items from intact]
        rfl
      have counted := Datum.position_ofNat fits counts
      obtain ⟨rfl, goes⟩ := Action.run_loopForEach there stacked counted long ran
      by_cases more : rounds < items.size
      · rw [if_pos (show rounds < (LoopRange.elements array items).size from more)]
        rw [if_pos more] at goes
        obtain ⟨element, indexed, rfl⟩ := goes
        have still := Heap.body?_allocate_of_body?
          ⟨.real, .scalar (.real (Float.ofNat rounds + 1.0))⟩ body
        obtain ⟨_, _, again, among⟩ := Heap.index_eq_ok_iff.mp indexed
        cases still.symm.trans again
        rw [Binary64.ofNat_add_one (Nat.lt_of_le_of_lt more small), passed.heap] at moved
        rw [LoopRange.arguments, among]
        exact goesOn moved
      · rw [if_neg (show ¬ rounds < (LoopRange.elements array items).size from more)]
        rw [if_neg more] at goes
        rw [goes, passed.heap] at moved
        exact goesOn moved

end Instructions

end Course

end CoopScript
