import CoopScript.Proofs.Machine.Looping

/-!
Rounds of a loop. While a block that the loop called runs, the thread is inside it or has left it, and
the counter stays with the operands of the frame that waits. Each round comes back to the beginning of
the loop with the counter moved on, or it ends at the pops.
-/

namespace CoopScript

open CallStack (Encloses)

/-- A frame that comes first on its call stack has left the loop block that it called. -/
theorem CallStack.Encloses.left_of_head {script : Script} {child id : FrameId} {held frame : Frame}
    {broken : Bool} {outer : CallStack}
    (encloses : Encloses script child id held broken ((id, frame) :: outer))
    (distinct : (((id, frame) :: outer).map (·.1)).Nodup) :
    ∃ result, frame = { (if broken then held.passed else held) with result } := by
  generalize same : (id, frame) :: outer = stack at encloses distinct
  have apart {inner around : CallStack} {entry last : FrameId × Frame}
      (again : (id, frame) :: outer = inner ++ last :: entry :: around) (named : entry.1 = id) : False := by
    rw [← same, again] at distinct
    cases inner with
    | nil =>
        cases (List.cons.inj again).1
        simp [named] at distinct
    | cons first rest =>
        cases (List.cons.inj again).1
        simp [named] at distinct
  cases encloses with
  | inside => exact (apart same rfl).elim
  | ended => exact (apart same rfl).elim
  | left =>
      cases same
      exact ⟨_, rfl⟩

namespace LoopRange

variable {range : LoopRange} {rounds : Nat} {heap : Heap} {value : Value}

theorem initial_eq (range : LoopRange) : range.initial = Float.ofNat (range.tally 0) := by
  cases range with
  | count number => rfl
  | elements array items =>
      rw [initial, tally]
      rfl

theorem length_arguments (more : rounds < range.size) :
    (range.arguments rounds).length = range.under.length := by
  cases range with
  | count number => rfl
  | elements array items =>
      have inside : rounds < items.size := more
      simp [arguments, under, inside]

theorem reverse_arguments : (range.arguments rounds).reverse = range.arguments rounds := by
  cases range with
  | count number => rfl
  | elements array items =>
      rw [arguments]
      cases items[rounds]? <;> rfl

/-- The arguments are elements of the array. -/
theorem holds_of_mem_arguments (intact : range.Intact heap) (inside : value ∈ range.arguments rounds) :
    ∃ array, heap.Holds array value := by
  cases range with
  | count number => cases inside
  | elements array items =>
      obtain ⟨type, body⟩ := Heap.elements_eq_ok_iff.mp intact
      have among : items[rounds]? = some value := Option.mem_toList.mp inside
      exact ⟨array, .of_body? body ⟨items, rfl, Array.mem_of_getElem? among⟩⟩

end LoopRange

/-- A frame is at an instruction of its code. -/
theorem Machine.code?_of_code {machine : Machine} {held : Frame} {instruction : Instruction}
    (next : (machine.code held.block)[held.position]? = some instruction) :
    ∃ code, held.code? machine.script = some code ∧ code.instruction = instruction := by
  unfold Machine.code at next
  split at next
  · next block named =>
      rw [List.getElem?_map, Array.getElem?_toList] at next
      obtain ⟨code, there, same⟩ := Option.map_eq_some_iff.mp next
      refine ⟨code, ?_, same⟩
      rw [Frame.code?, named]
      exact there
  · cases next

theorem Loop.lt_finish (loop : Loop) {place : Nat} (inside : place < 5) :
    loop.start + place < loop.finish := by
  rw [finish, length_code]
  omega

namespace Course

variable {program : Program} {limits : Limits} {course : Course program limits} {loop : Loop}
  {block : BlockId} {moment position rounds : Nat} {operands below : List Value} {broken : Bool}
  {heap : Heap} {secret : Secret}

/-- The block that is entered now gets the arguments of this round. -/
def Hands (course : Course program limits) (loop : Loop) (moment : Nat) : Prop :=
  course.entries loop moment < loop.range.size ∧ ∃ thread child,
    (course.machine (moment + 1)).threads.find? loop.thread = some thread ∧
    (course.machine (moment + 1)).frames.frame? thread.current = some child ∧
    loop.range.arguments (course.entries loop moment) <+: child.slots.toList

/-- What a loop has come to before a moment: how often its block was entered, and whether it was left by
a break. -/
structure Sofar (course : Course program limits) (loop : Loop) (moment rounds : Nat) (broken : Bool) :
    Prop where
  lasts : ∀ earlier < moment, ¬ course.Passes loop earlier
  entries : course.entries loop moment = rounds
  left : broken = true ↔ ∃ earlier < moment, course.Breaks loop earlier
  breaks : ∀ earlier < moment, course.Breaks loop earlier → course.entries loop earlier = rounds
  hands : ∀ earlier < moment, course.Enters loop earlier → course.Hands loop earlier

namespace Sofar

variable (sofar : course.Sofar loop moment rounds broken)

include sofar

theorem lasts_of (lasts : ¬ course.Passes loop moment) : course.Lasts loop moment := by
  intro earlier upto
  rcases upto.lt_or_eq with before | rfl
  · exact sofar.lasts earlier before
  · exact lasts

/-- Nothing enters the block, but it may be left by a break. -/
theorem next {later : Bool} (lasts : ¬ course.Passes loop moment)
    (outside : ¬ course.Enters loop moment)
    (breaks : later = true ↔ broken = true ∨ course.Breaks loop moment) :
    course.Sofar loop (moment + 1) rounds later where
  lasts := Nat.forall_lt_succ_right.mpr ⟨sofar.lasts, lasts⟩
  entries := by
    rw [Course.entries, Nat.count_succ, if_neg outside]
    exact sofar.entries
  left := by rw [breaks, sofar.left, Nat.exists_lt_succ_right]
  breaks := Nat.forall_lt_succ_right.mpr ⟨sofar.breaks, fun _ => sofar.entries⟩
  hands := Nat.forall_lt_succ_right.mpr ⟨sofar.hands, fun enters => (outside enters).elim⟩

end Sofar

/-- The block is entered once more. -/
theorem Sofar.enter (sofar : course.Sofar loop moment rounds false) (lasts : ¬ course.Passes loop moment)
    (enters : course.Enters loop moment) (inside : ¬ course.Breaks loop moment)
    (hands : course.Hands loop moment) : course.Sofar loop (moment + 1) (rounds + 1) false := by
  have unbroken : ∀ earlier < moment, ¬ course.Breaks loop earlier := fun earlier before breaks =>
    Bool.false_ne_true (sofar.left.mpr ⟨earlier, before, breaks⟩)
  refine ⟨Nat.forall_lt_succ_right.mpr ⟨sofar.lasts, lasts⟩, ?_, ?_, ?_, ?_⟩
  · rw [Course.entries, Nat.count_succ, if_pos enters]
    exact congrArg (· + 1) sofar.entries
  · rw [Nat.exists_lt_succ_right]
    refine iff_of_false Bool.false_ne_true ?_
    rintro (⟨earlier, before, breaks⟩ | breaks)
    · exact unbroken earlier before breaks
    · exact inside breaks
  · refine Nat.forall_lt_succ_right.mpr ⟨fun earlier before breaks => ?_, fun breaks => ?_⟩
    · exact (unbroken earlier before breaks).elim
    · exact (inside breaks).elim
  · exact Nat.forall_lt_succ_right.mpr ⟨sofar.hands, fun _ => hands⟩

/-! The frame executes. -/

theorem Stands.not_passes (stands : course.Stands loop block moment position operands)
    (early : position < loop.finish) : ¬ course.Passes loop moment := by
  rintro ⟨_, frame, live, finished⟩
  obtain ⟨_, held, again, _, located, _⟩ := stands
  cases live.symm.trans again
  omega

theorem Stands.not_breaks (stands : course.Stands loop block moment position operands) :
    ¬ course.Breaks loop moment := stands.executes.not_breaksLoop (course.steady moment)

/-- A step of the frame enters nothing. -/
theorem Steps.not_enters (steps : course.Steps loop block moment position operands heap) :
    ¬ course.Enters loop moment := by
  rintro ⟨_, thread, found, vacant, _⟩
  obtain ⟨⟨_, _, entry, again, current⟩, _⟩ := steps.stands
  obtain ⟨held, live, _⟩ := steps.frames
  cases Option.some.inj (found.symm.trans again)
  rw [current, live] at vacant
  cases vacant

theorem Sofar.steps {target : Nat} {others : List Value}
    (sofar : course.Sofar loop moment rounds broken)
    (stands : course.Stands loop block moment position operands) (early : position < loop.finish)
    (steps : course.Steps loop block moment target others heap) :
    course.Sofar loop (moment + 1) rounds broken :=
  sofar.next (stands.not_passes early) steps.not_enters (by simp [stands.not_breaks])

/-! Other frames execute. -/

/-- The frame waits with its operands for the block that it called, and the body is still private. -/
structure Away (course : Course program limits) (loop : Loop) (child : FrameId) (held : Frame)
    (secret : Secret) (moment : Nat) (broken : Bool) : Prop where
  owned : secret.owner = loop.frame
  kept : secret.handle ∈ held.stack
  concealed : course.Concealed secret moment
  encloses : ∃ stack, (course.machine moment).Stacked loop.thread stack ∧
    Encloses program.script child loop.frame held broken stack

namespace Away

variable {child : FrameId} {held : Frame}

section

variable (away : course.Away loop child held secret moment broken)

include away

theorem privately : course.Private secret moment := by
  obtain ⟨owned, kept, concealed, stack, stacked, encloses⟩ := away
  obtain ⟨inner, around, outer, rfl, operands⟩ := encloses.around
  refine ⟨concealed, ?_⟩
  obtain ⟨_, _, whole⟩ := stacked
  obtain ⟨frame, live, alike⟩ := FrameArena.control?_eq_some_iff.mp
    (whole.shown (List.mem_append_right inner List.mem_cons_self))
  have same : frame.control.stack = around.stack := congrArg Frame.stack alike
  rw [owned]
  exact ⟨frame, live, (same.trans operands) ▸ kept⟩

/-- No other thread executes in the frame. -/
theorem elsewhere (apart : ¬ (course.machine moment).ExecutesIn loop.thread loop.frame)
    (number : ThreadId) : ¬ (course.machine moment).ExecutesIn number secret.owner := by
  intro executes
  obtain ⟨owned, _, _, stack, stacked, encloses⟩ := away
  obtain ⟨inner, around, outer, rfl, _⟩ := encloses.around
  by_cases same : loop.thread = number
  · exact apart (same ▸ owned ▸ executes)
  · obtain ⟨_, _, entry, found, current⟩ := executes
    obtain ⟨other, others⟩ := (course.steady moment).stacked found
    obtain ⟨frame, rest, rfl, _⟩ := others.current found
    exact (course.steady moment).apart same others stacked
      (List.mem_append_right inner List.mem_cons_self) _ List.mem_cons_self (current.trans owned)

/-- Whatever happens while the frame waits. -/
theorem next (undisturbed : course.Undisturbed loop) (lasts : course.Lasts loop moment)
    (apart : ¬ (course.machine moment).ExecutesIn loop.thread loop.frame)
    (lives : loop.thread ∈ (course.machine (moment + 1)).threads.ids) :
    ∃ later, course.Away loop child held secret (moment + 1) later ∧
      (later = true ↔ broken = true ∨ course.Breaks loop moment) := by
  have going := undisturbed.going moment lasts
  have hidden := away.privately.next (away.owned ▸ undisturbed.unforged moment lasts)
    (away.elsewhere apart) going
  obtain ⟨owned, kept, _, stack, stacked, encloses⟩ := away
  obtain ⟨thread, found⟩ := ThreadSet.mem_ids_iff.mp lives
  obtain ⟨new, now⟩ := (course.steady (moment + 1)).stacked found
  rw [← course.script moment] at encloses
  obtain ⟨later, around, breaks⟩ := (course.goes moment).encloses (fun _ _ => trivial)
    (fun _ _ _ => Routine.honest_of_forall (fun _ => trivial) _) (course.steady moment) stacked encloses
    apart (undisturbed.stays moment lasts) going now
  rw [course.script] at around
  exact ⟨later, ⟨owned, kept, hidden, new, now, around⟩, breaks⟩

/-- When the frame executes again it is right after the call, or one instruction further on. -/
theorem stands (executes : (course.machine moment).ExecutesIn loop.thread loop.frame) :
    course.Stands loop held.block moment
      (if broken then held.position + 1 else held.position) held.stack := by
  obtain ⟨_, _, _, stack, stacked, encloses⟩ := away
  have ⟨_, _, thread, found, current⟩ := executes
  obtain ⟨frame, outer, rfl, shown, _⟩ := stacked.current found
  have distinct := stacked.nodup (course.steady moment)
  rw [current] at encloses shown distinct
  obtain ⟨result, rfl⟩ := encloses.left_of_head distinct
  obtain ⟨now, live, alike⟩ := FrameArena.control?_eq_some_iff.mp shown
  refine ⟨executes, now, live, ?_, ?_, ?_⟩
  · rw [show now.block = now.control.block from rfl, alike]
    cases broken <;> rfl
  · rw [show now.position = now.control.position from rfl, alike]
    cases broken <;> rfl
  · rw [show now.stack = now.control.stack from rfl, alike]
    cases broken <;> rfl

end

/-- The frame waits until it executes again. -/
theorem comes (undisturbed : course.Undisturbed loop)
    (away : course.Away loop child held secret moment false)
    (sofar : course.Sofar loop moment rounds false)
    (returns : ∃ later, moment ≤ later ∧ (course.machine later).ExecutesIn loop.thread loop.frame) :
    ∃ later broken, course.Away loop child held secret later broken ∧
      course.Sofar loop later rounds broken ∧
      (course.machine later).ExecutesIn loop.thread loop.frame := by
  classical
  let last := Nat.find returns
  obtain ⟨upto, executes⟩ := Nat.find_spec returns
  have waits : ∀ time, moment ≤ time → time < last →
      ¬ (course.machine time).ExecutesIn loop.thread loop.frame := fun time after before executes =>
    Nat.find_min returns before ⟨after, executes⟩
  have old : loop.thread.number < (course.machine moment).threads.next.number := by
    obtain ⟨_, _, _, _, ⟨thread, found, _⟩, _⟩ := away
    exact (course.steady moment).balanced.ids_lt _ (ThreadSet.mem_ids_iff.mpr ⟨thread, found⟩)
  have alive : loop.thread ∈ (course.machine last).threads.ids := by
    obtain ⟨_, _, thread, found, _⟩ := executes
    exact ThreadSet.mem_ids_iff.mpr ⟨thread, found⟩
  have reaches (time : Nat) (after : moment ≤ time) : time ≤ last → ∃ broken,
      course.Away loop child held secret time broken ∧ course.Sofar loop time rounds broken := by
    induction time, after using Nat.le_induction with
    | base => exact fun _ => ⟨false, away, sofar⟩
    | succ time after hypothesis =>
        intro within
        obtain ⟨broken, away, sofar⟩ := hypothesis (by omega)
        have apart := waits time after within
        have lasts : ¬ course.Passes loop time := fun passes => apart passes.1
        obtain ⟨later, next, breaks⟩ := away.next undisturbed (sofar.lasts_of lasts) apart
          (course.lives (after.trans time.le_succ) within old alive)
        exact ⟨later, next, sofar.next lasts (fun enters => apart enters.1) breaks⟩
  obtain ⟨broken, away, sofar⟩ := reaches last upto le_rfl
  exact ⟨last, broken, away, sofar, executes⟩

end Away

/-! Rounds. -/

/-- The thread is at the beginning of the loop after so many rounds, none of which was left by a break. -/
structure Turns (course : Course program limits) (loop : Loop) (block : BlockId) (below : List Value)
    (moment rounds : Nat) : Prop where
  sofar : course.Sofar loop moment rounds false
  stands : ∃ counter,
    course.Stands loop block moment loop.start (counter :: loop.range.under ++ below) ∧
    ((course.machine moment).heap.surface counter).toReal = .ok (Float.ofNat (loop.range.tally rounds))

/-- The thread is at the pops after the last round. -/
structure Spends (course : Course program limits) (loop : Loop) (block : BlockId) (below : List Value)
    (moment rounds : Nat) (broken : Bool) : Prop where
  sofar : course.Sofar loop moment rounds broken
  stands : ∃ counter,
    course.Stands loop block moment (loop.start + 4) (counter :: loop.range.under ++ below)

/-- At any time the code of the frame has the instructions of the loop from its beginning on. -/
theorem next (coded : loop.code <+: ((course.machine 0).code block).drop loop.start) {place : Nat}
    {instruction : Instruction} (there : loop.code[place]? = some instruction) (moment : Nat) :
    ((course.machine moment).code block)[loop.start + place]? = some instruction := by
  have same : (course.machine moment).code block = (course.machine 0).code block := by
    rw [Machine.code, Machine.code, course.script, course.script]
  obtain ⟨tail, split⟩ := coded
  have inside : place < loop.code.length := (List.getElem?_eq_some_iff.mp there).1
  rw [same, ← List.getElem?_drop, ← split, List.getElem?_append_left inside, there]

section Rounds

variable (faithful : program.natives.Faithful) (undisturbed : course.Undisturbed loop)
  (small : loop.range.size < 2 ^ 53)
  (coded : loop.code <+: ((course.machine 0).code block).drop loop.start)
  (looped : ∃ body, program.script.block? loop.body = some body ∧ body.kind = .loop)

include undisturbed coded

/-- The jump goes by the flag that was made before it. -/
theorem Steps.jump {holds : Bool} {others : List Value}
    (steps : course.Steps loop block moment (loop.start + 1)
      ((Heap.build (.boolean holds) heap).1 :: others) (Heap.build (.boolean holds) heap).2)
    (sofar : course.Sofar loop (moment + 1) rounds broken) :
    course.Steps loop block (moment + 1) (if holds then loop.start + 2 else loop.start + 4) others
      (course.machine (moment + 1)).heap := by
  have next := course.next coded loop.code_getElem?.2.1 (moment + 1)
  have shows : ((course.machine (moment + 1)).heap.surface (Heap.build (.boolean holds) heap).1).toBoolean =
      .ok holds := by
    rw [steps.heap]
    exact congrArg Datum.toBoolean (Heap.surface_build ..)
  have passes : ¬ course.Passes loop (moment + 1) :=
    steps.stands.not_passes (loop.lt_finish (by decide))
  exact steps.stands.jumpIfNot (undisturbed.going (moment + 1) (sofar.lasts_of passes)) rfl shows next

include faithful small in
/-- From the beginning of the loop the thread comes to the call, with a counter that has been moved on
and that nothing else has named. -/
theorem Stands.counts {counter : Value}
    (stands : course.Stands loop block moment loop.start (counter :: loop.range.under ++ below))
    (sofar : course.Sofar loop moment rounds false) (more : rounds < loop.range.size)
    (counts : ((course.machine moment).heap.surface counter).toReal =
      .ok (Float.ofNat (loop.range.tally rounds))) :
    ∃ secret : Secret, secret.owner = loop.frame ∧
      secret.body = ⟨.real, .scalar (.real (Float.ofNat (loop.range.tally (rounds + 1))))⟩ ∧
      course.Stands loop block (moment + 2) (loop.start + 2)
        (loop.range.arguments rounds ++ secret.handle :: loop.range.under ++ below) ∧
      course.Sofar loop (moment + 2) rounds false ∧ course.Concealed secret (moment + 2) := by
  have start : loop.start < loop.finish := loop.lt_finish (show 0 < 5 by decide)
  have early : loop.start + 1 < loop.finish := loop.lt_finish (by decide)
  have lasts := sofar.lasts_of (stands.not_passes start)
  have head := course.next coded loop.code_getElem?.1 moment
  have counted := stands.head (undisturbed.going moment lasts) rfl rfl head counts more.le small
    (undisturbed.intact moment lasts)
  rw [if_pos more] at counted
  have sofar := sofar.steps stands start counted
  have jumped := counted.jump undisturbed coded sofar
  obtain ⟨ready, built, held, live, left⟩ := counted
  obtain ⟨stands, still, now, there, moved⟩ := id jumped
  let secret : Secret := ⟨loop.frame, ⟨(course.machine moment).heap.size⟩,
    ⟨.real, .scalar (.real (Float.ofNat (loop.range.tally (rounds + 1))))⟩⟩
  have made : course.Concealed secret (moment + 1) :=
    .make (fun known => Nat.lt_irrefl _ (known _ rfl))
      (((course.faithful moment).grounded faithful).conceals live built left)
  have kept := made.next (made.conceals.restack there still moved)
  exact ⟨secret, rfl, rfl, stands, sofar.steps ready early jumped, kept⟩

include looped in
/-- The call enters the block with the arguments of this round. The frame waits with the other operands,
and the counter among them is still private. -/
theorem Stands.enters {counter : Value}
    (stands : course.Stands loop block moment (loop.start + 2)
      (loop.range.arguments rounds ++ counter :: loop.range.under ++ below))
    (sofar : course.Sofar loop moment rounds false) (more : rounds < loop.range.size)
    (owned : secret.owner = loop.frame) (counted : secret.handle = counter)
    (concealed : course.Concealed secret moment) :
    course.Enters loop moment ∧ course.Hands loop moment ∧ ∃ callee waiting,
      course.Away loop callee waiting secret (moment + 1) false ∧ waiting.block = block ∧
      waiting.position = loop.start + 3 ∧ waiting.stack = counter :: loop.range.under ++ below := by
  obtain ⟨_, _, ⟨count, there, few⟩, _⟩ := loop.code_getElem?
  have next := course.next coded there moment
  have lasts := sofar.lasts_of (stands.not_passes (loop.lt_finish (by decide)))
  have going := undisturbed.going moment lasts
  obtain ⟨executes, held, live, named, located, stacked⟩ := stands
  have ⟨_, turn, entry, found, current⟩ := executes
  have moves := course.moves turn
  -- The arguments lie on the counter.
  have split : held.stack = loop.range.arguments rounds ++ (counter :: loop.range.under ++ below) := by
    rw [stacked, List.append_assoc]
  have length : (loop.range.arguments rounds).length = count :=
    (LoopRange.length_arguments more).trans few.symm
  have taken : held.stack.take count = loop.range.arguments rounds := by
    rw [split, ← length, List.take_left]
  have operands : held.stack.drop count = counter :: loop.range.under ++ below := by
    rw [split, ← length, List.drop_left]
  have others : secret.handle ∉ held.stack.take count := by
    rw [taken]
    intro inside
    obtain ⟨array, holds⟩ := LoopRange.holds_of_mem_arguments (undisturbed.intact moment lasts) inside
    exact concealed.conceals.heap.apart array holds
  rw [← named, ← located] at next
  have called : (Instruction.call (.block loop.body) count).call? =
    some (.block loop.body, count, false) := rfl
  have kept : (course.machine (moment + 1)).Conceals secret := by
    rw [moves] at going ⊢
    exact concealed.conceals.calls turn found (current.trans owned.symm) (owned ▸ live) next called
      others going
  obtain ⟨codeAt, fetched, same⟩ := Machine.code?_of_code next
  obtain ⟨body, blocked, kind⟩ := looped
  rw [← course.script moment] at blocked
  obtain ⟨enough, few, callee, serial, outer, vacant, begun, entered⟩ :=
    Machine.Steady.enters ⟨course.steady moment, turn, found⟩ (current ▸ live) fetched (same ▸ called)
      blocked (by simp [kind]) (moves ▸ going)
  rw [← moves, current] at begun entered
  obtain ⟨thread, inside, whole⟩ := id entered
  obtain ⟨_, _, first, _⟩ := whole.cases_head
  have here : callee = thread.current := congrArg Prod.fst (List.cons.inj first).1
  refine ⟨⟨executes, thread, inside, here ▸ vacant, _, here ▸ begun, rfl, rfl⟩, ?_, callee,
    { held.control.passed with stack := held.stack.drop count }, ?_, named,
    congrArg (· + 1) located, operands⟩
  · refine ⟨sofar.entries.symm ▸ more, thread, _, inside, here ▸ begun, ?_⟩
    have bound : (held.stack.take count).reverse.length = body.arguments := by
      rw [List.length_reverse, List.length_take, few, min_eq_left enough]
    rw [sofar.entries, Machine.slots_activate _ _ bound, taken, LoopRange.reverse_arguments]
    exact List.prefix_append ..
  · refine ⟨owned, ?_, concealed.next kept, _, entered, @Encloses.inside _ _ _ _ [] _ _ _ kind rfl⟩
    rw [counted]
    exact operands ▸ List.mem_cons_self

include looped in
/-- The call of the block comes back with the same operands under the arguments, and the counter among
them is still private. -/
theorem Stands.call {counter : Value}
    (stands : course.Stands loop block moment (loop.start + 2)
      (loop.range.arguments rounds ++ counter :: loop.range.under ++ below))
    (sofar : course.Sofar loop moment rounds false) (more : rounds < loop.range.size)
    (owned : secret.owner = loop.frame) (counted : secret.handle = counter)
    (concealed : course.Concealed secret moment) :
    ∃ later broken, course.Stands loop block later
        (if broken then loop.start + 4 else loop.start + 3) (counter :: loop.range.under ++ below) ∧
      course.Sofar loop later (rounds + 1) broken ∧ (course.machine later).Conceals secret := by
  have passes : ¬ course.Passes loop moment := stands.not_passes (loop.lt_finish (by decide))
  obtain ⟨enters, hands, callee, waiting, away, named, located, operands⟩ :=
    stands.enters undisturbed coded looped sofar more owned counted concealed
  have returns := undisturbed.returns moment (sofar.lasts_of passes) enters
  obtain ⟨later, broken, away, sofar, executes⟩ :=
    away.comes undisturbed (sofar.enter passes enters stands.not_breaks hands) returns
  have again := away.stands executes
  rw [named, located, operands] at again
  exact ⟨later, broken, again, sofar, away.concealed.conceals⟩

include faithful small looped in
/-- A round comes back to the beginning unless it is left by a break. -/
theorem Turns.round (turns : course.Turns loop block below moment rounds)
    (more : rounds < loop.range.size) :
    ∃ later, course.Turns loop block below later (rounds + 1) ∨
      course.Spends loop block below later (rounds + 1) true := by
  obtain ⟨sofar, counter, stands, counts⟩ := turns
  obtain ⟨secret, owned, body, ready, sofar, concealed⟩ :=
    stands.counts faithful undisturbed small coded sofar more counts
  obtain ⟨later, broken, again, sofar, kept⟩ :=
    ready.call undisturbed coded looped sofar more owned rfl concealed
  cases broken with
  | true => exact ⟨later, .inr ⟨sofar, _, again⟩⟩
  | false =>
      have next := course.next coded loop.code_getElem?.2.2.2.1 later
      have early : loop.start + 3 < loop.finish := loop.lt_finish (by decide)
      have going := undisturbed.going later (sofar.lasts_of (again.not_passes early))
      have back := again.loopBack going next
      refine ⟨later + 1, .inl ⟨sofar.steps again early back, _, back.stands, ?_⟩⟩
      rw [back.heap, Heap.surface, Heap.viewWithin, kept.heap.there, body]
      rfl

include small in
/-- After the last round the thread comes to the pops. -/
theorem Turns.spends (turns : course.Turns loop block below moment loop.range.size) :
    course.Spends loop block below (moment + 2) loop.range.size false := by
  obtain ⟨sofar, counter, stands, counts⟩ := turns
  have start : loop.start < loop.finish := loop.lt_finish (show 0 < 5 by decide)
  have early : loop.start + 1 < loop.finish := loop.lt_finish (by decide)
  have lasts := sofar.lasts_of (stands.not_passes start)
  have head := course.next coded loop.code_getElem?.1 moment
  have counted := stands.head (undisturbed.going moment lasts) rfl rfl head counts le_rfl small
    (undisturbed.intact moment lasts)
  rw [if_neg (Nat.lt_irrefl _)] at counted
  have sofar := sofar.steps stands start counted
  have jumped := counted.jump undisturbed coded sofar
  exact ⟨sofar.steps counted.stands early jumped, counter, jumped.stands⟩

/-- The pops take what the loop has left on the operands. -/
theorem Stands.pops {extra : List Value}
    (stands : course.Stands loop block moment position (extra ++ below))
    (within : loop.start + 4 ≤ position) (enough : position + extra.length = loop.finish)
    (sofar : course.Sofar loop moment rounds broken) :
    ∃ last, course.Sofar loop last rounds broken ∧ course.Stands loop block last loop.finish below := by
  induction extra generalizing moment position with
  | nil => exact ⟨moment, sofar, enough ▸ stands⟩
  | cons first rest hypothesis =>
      rw [List.length_cons] at enough
      have early : position < loop.finish := by omega
      have going := undisturbed.going moment (sofar.lasts_of (stands.not_passes early))
      have next : ((course.machine moment).code block)[position]? = some .pop := by
        obtain ⟨place, rfl⟩ := Nat.exists_eq_add_of_le (Nat.le_of_add_right_le within)
        rw [Loop.finish] at early
        exact course.next coded (loop.code_getElem?.2.2.2.2 place (by omega) (by omega)) moment
      have popped := stands.pop going rfl next
      exact hypothesis popped.stands (by omega) (by omega) (sofar.steps stands early popped)

theorem Spends.passes (spends : course.Spends loop block below moment rounds broken) :
    ∃ last, course.Sofar loop last rounds broken ∧ course.Stands loop block last loop.finish below := by
  obtain ⟨sofar, counter, stands⟩ := spends
  refine Stands.pops undisturbed coded stands le_rfl ?_ sofar
  rw [Loop.finish, Loop.length_code, List.length_cons]
  omega

include faithful small looped in
/-- From any round on the loop comes to its end, with as many rounds as it has to make unless one is left
by a break. -/
theorem Turns.passes (turns : course.Turns loop block below moment rounds)
    (within : rounds ≤ loop.range.size) :
    ∃ last total broken, course.Sofar loop last total broken ∧
      (broken = false → total = loop.range.size) ∧ course.Stands loop block last loop.finish below := by
  induction left : loop.range.size - rounds generalizing moment rounds with
  | zero =>
      obtain rfl : rounds = loop.range.size := by omega
      obtain ⟨last, sofar, stands⟩ := (turns.spends undisturbed small coded).passes undisturbed coded
      exact ⟨last, _, false, sofar, fun _ => rfl, stands⟩
  | succ more hypothesis =>
      obtain ⟨later, next | broken⟩ := turns.round faithful undisturbed small coded looped (by omega)
      · exact hypothesis next (by omega) (by omega)
      · obtain ⟨last, sofar, stands⟩ := broken.passes undisturbed coded
        exact ⟨last, _, true, sofar, nofun, stands⟩

end Rounds

/-- A loop that is disturbed by nothing but breaks comes to its end, with the operands that were below
it. Unless a round is left by a break, the block is entered as often as the number says, or once for each
element of the array. Else that round is the last one. In its first slot the block finds the elements,
one after another. -/
theorem loop_iterates (course : Course program limits) (faithful : program.natives.Faithful)
    (small : loop.range.size < 2 ^ 53) (begins : loop.Begins below (course.machine 0))
    (undisturbed : course.Undisturbed loop) :
    ∃ last, course.Passes loop last ∧ (∀ moment < last, ¬ course.Passes loop moment) ∧
      (∃ frame, (course.machine last).frames.frame? loop.frame = some frame ∧ frame.stack = below) ∧
      ((∀ moment < last, ¬ course.Breaks loop moment) →
        course.entries loop last = loop.range.size) ∧
      (∀ moment < last, course.Breaks loop moment →
        course.entries loop last = course.entries loop moment) ∧
      ∀ array items, loop.range = .elements array items →
        ∀ moment < last, course.Enters loop moment → ∃ thread child element,
          (course.machine (moment + 1)).threads.find? loop.thread = some thread ∧
          (course.machine (moment + 1)).frames.frame? thread.current = some child ∧
          child.slots[0]? = some element ∧ items[course.entries loop moment]? = some element := by
  obtain ⟨executes, ⟨body, blocked, kind⟩, held, counter, live, located, coded, operands, shows⟩ :=
    begins
  have initial : ((course.machine 0).heap.surface counter).toReal =
      .ok (Float.ofNat (loop.range.tally 0)) := by
    rw [Datum.toReal, Heap.payload_surface, shows, LoopRange.initial_eq]
    rfl
  have turns : course.Turns loop held.block below 0 0 :=
    ⟨⟨by simp, Nat.count_zero _, by simp, by simp, by simp⟩, counter,
      ⟨executes, held, live, rfl, located, operands⟩, initial⟩
  rw [course.script] at blocked
  obtain ⟨last, total, broken, sofar, whole, executes, frame, there, _, finished, rest⟩ :=
    turns.passes faithful undisturbed small coded ⟨body, blocked, kind⟩ (Nat.zero_le _)
  refine ⟨last, ⟨executes, frame, there, finished⟩, sofar.lasts, ⟨frame, there, rest⟩, ?_, ?_, ?_⟩
  · intro unbroken
    rw [sofar.entries]
    refine whole (Bool.eq_false_iff.mpr fun breaks => ?_)
    obtain ⟨moment, before, breaks⟩ := sofar.left.mp breaks
    exact unbroken moment before breaks
  · intro moment before breaks
    rw [sofar.entries, sofar.breaks moment before breaks]
  · intro array items ranged moment before enters
    obtain ⟨more, thread, child, found, begun, given⟩ := sofar.hands moment before enters
    rw [ranged] at more given
    have element := Array.getElem?_eq_getElem (show course.entries loop moment < items.size from more)
    rw [LoopRange.arguments, element, Option.toList_some] at given
    refine ⟨thread, child, _, found, begun, ?_, element⟩
    obtain ⟨rest, split⟩ := given
    rw [← Array.getElem?_toList, ← split]
    rfl

end Course

/-! A loop that goes through an array. -/

/-- Where the script has no such instruction, no call stack comes to it. -/
theorem CallStack.mem_of_instruction? {script : Script} {stack : CallStack} {instruction : Instruction}
    (next : stack.instruction? script = some instruction) :
    ∃ block ∈ script.blocks, ∃ code ∈ block.codes, code.instruction = instruction := by
  cases stack with
  | nil => cases next
  | cons first rest =>
      obtain ⟨code, there, same⟩ := Option.map_eq_some_iff.mp next
      obtain ⟨block, named, coded⟩ := Option.bind_eq_some_iff.mp there
      exact ⟨block, Array.mem_of_getElem? named, code, Array.mem_of_getElem? coded, same⟩

def visiting : Program where
  script := {
    blocks := #[
      { kind := .sub, level := 0
        codes := #[
          ⟨1, .pushValue (.array (.array .boolean) [.boolean true, .boolean false])⟩,
          ⟨1, .pushValue (.real 0.0)⟩, ⟨2, .loopForEach⟩, ⟨2, .jumpIfNot 6⟩,
          ⟨2, .call (.block ⟨1⟩) 1⟩, ⟨2, .loopBack 2⟩, ⟨2, .pop⟩, ⟨2, .pop⟩] },
      { kind := .loop, level := 1, arguments := 1, slots := 1
        codes := #[⟨3, .pushVariable ⟨1, 0⟩⟩, ⟨3, .pop⟩] }]
    main := some ⟨0⟩ }

/-- The machine as it begins its first tick. -/
def visitingBegun : Machine := ((visiting.machine {}).started ⟨0⟩ visiting.script.blocks[0]).begin

/-- The machine at the loop. -/
def visitingReady : Machine := (Machine.move visiting.natives)^[3] visitingBegun

theorem faithful_visitingReady : visitingReady.Faithful visiting {} := by
  have begun : visitingBegun.Faithful visiting {} := .step .initial (.start rfl) fun _ inside =>
    absurd inside List.not_mem_nil
  exact begun.iterate 3 (by decide +kernel)

/-- The machine moves on until its tick is over. -/
def visitingCourse : Course visiting {} :=
  .ofMoves faithful_visitingReady 20 (by decide +kernel) (by decide +kernel)

def visitingLoop : Loop where
  thread := ⟨0⟩
  frame := ⟨0⟩
  range := .elements (some ⟨2⟩) #[some ⟨0⟩, some ⟨1⟩]
  body := ⟨1⟩
  start := 2

theorem begins_visitingLoop : visitingLoop.Begins [] (visitingCourse.machine 0) where
  executes := by decide +kernel
  body := ⟨_, rfl, rfl⟩
  frame := by
    have live : visitingReady.frames.frame? ⟨0⟩ =
        some { Frame.activate none ⟨0⟩ visiting.script.blocks[0] [] with
          position := 2
          stack := [some ⟨3⟩, some ⟨2⟩]
          pins := 1 } := by decide +kernel
    exact ⟨_, some ⟨3⟩, live, rfl, ⟨[], rfl⟩, rfl, rfl⟩

theorem visiting_unbroken : ∀ block ∈ visiting.script.blocks, ∀ code ∈ block.codes,
    code.instruction ≠ .breakLoop ∧ code.instruction ≠ .breakRoutine := by
  simp [visiting]

theorem undisturbed_visitingLoop : visitingCourse.Undisturbed visitingLoop := by
  have passes : visitingCourse.Passes visitingLoop 18 := by decide +kernel
  have before {moment : Nat} (lasts : visitingCourse.Lasts visitingLoop moment) : moment < 18 :=
    Nat.lt_of_not_le fun late => lasts 18 late passes
  constructor
  · have going : ∀ moment < 18, (visitingCourse.machine (moment + 1)).stopped = false := by
      decide +kernel
    exact fun moment lasts => going moment (before lasts)
  · exact fun moment lasts _ => ⟨18, before lasts, passes.1⟩
  · rintro moment _ ⟨_, _, stack, _, breaks, _⟩
    rw [visitingCourse.script] at breaks
    obtain ⟨block, named, code, there, same⟩ := CallStack.mem_of_instruction? breaks
    exact (visiting_unbroken block named code there).2 same
  · have intact : ∀ moment < 18, (visitingCourse.machine moment).heap.elements (some ⟨2⟩) =
        .ok #[some ⟨0⟩, some ⟨1⟩] := by decide +kernel
    exact fun moment lasts => intact moment (before lasts)
  · refine fun moment _ secret _ _ => ⟨List.not_mem_nil, ?_⟩
    rintro _ _ ⟨_, _, _, _, _, prepares⟩
    cases prepares

theorem loop_iterates_visiting : visiting.natives.Faithful ∧
    visitingLoop.Begins [] (visitingCourse.machine 0) ∧ visitingCourse.Undisturbed visitingLoop ∧
    ∃ last, visitingCourse.Passes visitingLoop last ∧
      (∀ moment < last, ¬ visitingCourse.Passes visitingLoop moment) ∧
      visitingCourse.entries visitingLoop last = 2 := by
  have faithful : visiting.natives.Faithful := fun native inside =>
    absurd inside (Array.not_mem_empty native)
  obtain ⟨last, passes, first, _, whole, _⟩ := visitingCourse.loop_iterates faithful (by decide)
    begins_visitingLoop undisturbed_visitingLoop
  refine ⟨faithful, begins_visitingLoop, undisturbed_visitingLoop, last, passes, first, whole ?_⟩
  rintro moment _ ⟨_, _, stack, _, breaks, _⟩
  rw [visitingCourse.script] at breaks
  obtain ⟨block, named, code, there, same⟩ := CallStack.mem_of_instruction? breaks
  exact (visiting_unbroken block named code there).1 same

end CoopScript
