import CoopScript.Proofs.Actions.Unwinding
import CoopScript.Proofs.Machine.Session

/-!
What a machine does for one thread spares the others: their call stacks stay as they are for as long
as they live, and the queue only grows at its end.
-/

namespace CoopScript

open FrameArena MachineError

namespace FrameArena

variable {arena : FrameArena} {other : FrameId} {held : Frame}

/-- An executing frame is about the same when others retire. -/
theorem control?_foldl_retire {gone : List FrameId} (absent : other ∉ gone)
    (live : arena.control? other = some held) (running : held.retired = false) :
    (gone.foldl retire arena).control? other = some held := by
  induction gone generalizing arena with
  | nil => exact live
  | cons first rest hypothesis =>
      obtain ⟨different, later⟩ : other ≠ first ∧ other ∉ rest := by simpa using absent
      refine hypothesis later ?_
      cases found : arena.frame? first with
      | some frame => exact control?_retire found different live running
      | none =>
          rw [retire, found]
          exact live

end FrameArena

/-- A routine that is played comes to its result. -/
theorem Routine.comes_play {α : Type} (routine : Routine α) (machine : Machine) :
    routine.Comes machine (.done (routine.play machine).1) (routine.play machine).2 := by
  induction routine generalizing machine with
  | done result => exact .here
  | ask request next hypothesis => exact .later (hypothesis _ _)

namespace Machine

variable {allowed : MachineError → Prop} {machine after : Machine} {number : ThreadId}
  {entry : Thread} {stack new : CallStack} {besides : Option ThreadId}

/-- A thread has the given call stack. -/
def Stacked (machine : Machine) (number : ThreadId) (stack : CallStack) : Prop :=
  ∃ thread, machine.threads.find? number = some thread ∧
    machine.frames.Stack thread.root thread.current stack

theorem Stacked.unique (first : machine.Stacked number stack) (second : machine.Stacked number new) :
    stack = new := by
  obtain ⟨thread, found, whole⟩ := first
  obtain ⟨_, again, other⟩ := second
  cases found.symm.trans again
  exact whole.unique other

/-- The call stack begins with the current frame of the thread. -/
theorem Stacked.current (stacked : machine.Stacked number stack)
    (found : machine.threads.find? number = some entry) :
    ∃ frame outer, stack = (entry.current, frame) :: outer ∧
      machine.frames.control? entry.current = some frame ∧
      machine.frames.Stack entry.root entry.current stack := by
  obtain ⟨_, again, whole⟩ := stacked
  cases found.symm.trans again
  obtain ⟨frame, outer, same, shown⟩ := whole.cases_head
  exact ⟨frame, outer, same, shown, whole⟩

theorem Stacked.whole {id : FrameId} {frame : Frame} {outer : CallStack}
    (stacked : machine.Stacked number ((id, frame) :: outer)) :
    ∃ root, machine.frames.Stack root id ((id, frame) :: outer) := by
  obtain ⟨thread, _, whole⟩ := stacked
  obtain ⟨_, _, same, _⟩ := whole.cases_head
  obtain rfl : id = thread.current := congrArg Prod.fst (List.cons.inj same).1
  exact ⟨thread.root, whole⟩

theorem Stacked.nodup (stacked : machine.Stacked number stack) (steady : machine.Steady allowed) :
    (stack.map (·.1)).Nodup := by
  obtain ⟨_, _, whole⟩ := stacked
  exact whole.nodup steady.coherent.counted

theorem Steady.stacked (steady : machine.Steady allowed)
    (found : machine.threads.find? number = some entry) : ∃ stack, machine.Stacked number stack := by
  obtain ⟨chain, whole, _⟩ := steady.coherent.chain number entry found
  obtain ⟨stack, shown, _⟩ := whole.stack
  exact ⟨stack, entry, found, shown⟩

/-- No frame is on the stacks of two threads. -/
theorem Steady.apart (steady : machine.Steady allowed) {other : ThreadId} (different : other ≠ number)
    (own : machine.Stacked number stack) (others : machine.Stacked other new)
    {held : FrameId × Frame} (inside : held ∈ new) : ∀ entry ∈ stack, entry.1 ≠ held.1 := by
  have occupies {number : ThreadId} {stack : CallStack} (stacked : machine.Stacked number stack)
      {entry : FrameId × Frame} (inside : entry ∈ stack) :
      Occupies machine.frames machine.threads.find? number entry.1 := by
    obtain ⟨thread, found, whole⟩ := stacked
    exact ⟨thread, _, found, whole.chain, List.mem_map.mpr ⟨entry, inside, rfl⟩⟩
  intro entry within same
  exact different (steady.coherent.apart _ _ _ (occupies others inside) (same ▸ occupies own within))

/-- The threads but one have the call stacks that they had, as far as they live on, and new threads
are in their first frame. The line stays, and the queue may be longer. -/
structure Spares (besides : Option ThreadId) (before after : Machine) : Prop where
  line : after.currentLine = before.currentLine
  next : before.threads.next.number ≤ after.threads.next.number
  queue : before.threads.ready <+: after.threads.ready
  others : ∀ id stack, some id ≠ besides → after.Stacked id stack → before.Stacked id stack ∨
    before.threads.next.number ≤ id.number ∧ ∃ entry, stack = [entry]

namespace Spares

theorem of_eq (line : after.currentLine = machine.currentLine)
    (threads : after.threads = machine.threads) (frames : after.frames = machine.frames) :
    Spares besides machine after where
  line := line
  next := threads ▸ le_rfl
  queue := threads ▸ List.prefix_rfl
  others := by
    intro id stack _ stacked
    unfold Stacked at stacked ⊢
    rw [threads, frames] at stacked
    exact .inl stacked

theorem refl (machine : Machine) : Spares besides machine machine := .of_eq rfl rfl rfl

theorem trans {last : Machine} (early : Spares besides machine after)
    (late : Spares besides after last) : Spares besides machine last where
  line := late.line.trans early.line
  next := early.next.trans late.next
  queue := early.queue.trans late.queue
  others := by
    intro id stack different stacked
    rcases late.others id stack different stacked with old | ⟨new, single⟩
    · exact early.others id stack different old
    · exact .inr ⟨early.next.trans new, single⟩

theorem weaken (spares : Spares none machine after) (besides : Option ThreadId) :
    Spares besides machine after where
  line := spares.line
  next := spares.next
  queue := spares.queue
  others := fun id stack _ => spares.others id stack nofun

/-- A thread that is spared has its stack as long as it lives. -/
theorem keeps (spares : Spares besides machine after) (steady : machine.Steady allowed)
    (later : after.Steady allowed) (different : some number ≠ besides)
    (stacked : machine.Stacked number stack) {thread : Thread}
    (live : after.threads.find? number = some thread) : after.Stacked number stack := by
  obtain ⟨now, shown⟩ := later.stacked live
  rcases spares.others number now different shown with old | ⟨new, _⟩
  · exact stacked.unique old ▸ shown
  · obtain ⟨_, found, _⟩ := stacked
    have older := steady.balanced.ids_lt number (ThreadSet.mem_ids_iff.mpr ⟨_, found⟩)
    omega

end Spares

/-- Threads stay or go, and the frames of those that are spared stay. -/
theorem Steady.spares (steady : machine.Steady allowed)
    (line : after.currentLine = machine.currentLine)
    (next : after.threads.next = machine.threads.next)
    (queue : after.threads.ready = machine.threads.ready)
    (threads : ∀ id, some id ≠ besides → after.threads.find? id = machine.threads.find? id ∨
      after.threads.find? id = none)
    (kept : ∀ id stack, some id ≠ besides → after.threads.find? id ≠ none →
      machine.Stacked id stack → ∀ entry ∈ stack, after.frames.control? entry.1 = some entry.2) :
    Spares besides machine after where
  line := line
  next := next ▸ le_rfl
  queue := queue ▸ List.prefix_rfl
  others := by
    intro id stack different stacked
    obtain ⟨thread, live, whole⟩ := stacked
    rcases threads id different with same | gone
    · rw [live] at same
      obtain ⟨old, thread, found, before⟩ := steady.stacked same.symm
      cases same.trans found
      have still := before.transport (kept id old different (by simp [live]) ⟨_, found, before⟩)
      exact .inl ⟨_, found, whole.unique still ▸ before⟩
    · rw [live] at gone
      cases gone

/-- Only frames on the stack of the one thread change. -/
theorem Steady.spares_own (steady : machine.Steady allowed)
    (stacked : machine.Stacked number stack) (line : after.currentLine = machine.currentLine)
    (threads : after.threads = machine.threads)
    (others : ∀ other, (∀ entry ∈ stack, entry.1 ≠ other) →
      after.frames.control? other = machine.frames.control? other) :
    Spares (some number) machine after := by
  refine steady.spares line (by rw [threads]) (by rw [threads]) (fun id _ => .inl (by rw [threads]))
    fun id old different _ held entry inside => ?_
  have apart := steady.apart (fun same => different (congrArg some same)) stacked held inside
  obtain ⟨_, _, whole⟩ := held
  exact (others entry.1 apart).trans (whole.shown inside)

/-! Frames and threads come in and go. -/

section Operations

variable (steady : machine.Steady allowed)

include steady

omit steady in
/-- No frame on a stack is in a vacant place. -/
theorem Stacked.ne_of_vacant (stacked : machine.Stacked number stack) {place : FrameId}
    (vacant : machine.frames.frame? place = none) {held : FrameId × Frame} (inside : held ∈ stack) :
    held.1 ≠ place := by
  intro same
  obtain ⟨_, _, whole⟩ := stacked
  have shown := whole.shown inside
  rw [control?, same, vacant] at shown
  cases shown

theorem Steady.spares_spawn {frame : Frame}
    (fits : Coherent.Fits machine.script machine.frames frame) :
    Spares none machine { machine with
      frames := (machine.frames.allocate frame).2
      threads := (machine.threads.spawn (machine.frames.allocate frame).1).2 } where
  line := rfl
  next := Nat.le_succ _
  queue := List.prefix_append ..
  others := by
    intro id stack _ stacked
    have grown := steady.coherent.counted.grown fits.outside
    obtain ⟨thread, live, whole⟩ := stacked
    simp only [ThreadSet.find?_spawn steady.balanced.find?_next] at live
    by_cases same : id = machine.threads.next
    · subst same
      rw [Function.update_self] at live
      cases live
      refine .inr ⟨le_rfl, _, whole.unique (.root grown.control?_new fits.running)⟩
    · rw [Function.update_of_ne same] at live
      obtain ⟨old, _, again, before⟩ := steady.stacked live
      cases live.symm.trans again
      have still := before.transport fun entry inside =>
        (grown.control? (Stacked.ne_of_vacant ⟨_, live, before⟩ grown.vacant inside)).trans (before.shown inside)
      exact .inl ⟨thread, live, whole.unique still ▸ before⟩

theorem Steady.spares_refuse {frame : Frame}
    (fits : Coherent.Fits machine.script machine.frames frame) :
    Spares none machine { machine with
      frames := (machine.frames.allocate frame).2.retire (machine.frames.allocate frame).1 } := by
  have grown := steady.coherent.counted.grown fits.outside
  refine steady.spares rfl rfl rfl (fun _ _ => .inl rfl) fun id stack _ _ stacked held inside => ?_
  have different := stacked.ne_of_vacant grown.vacant inside
  obtain ⟨_, _, whole⟩ := stacked
  exact control?_retire grown.new different ((grown.control? different).trans (whole.shown inside))
    (whole.running inside)

theorem Steady.spares_close (id : ThreadId) : Spares none machine (machine.closeThread id).2 := by
  cases found : machine.threads.find? id with
  | none =>
      simp only [closeThread, found]
      exact .refl machine
  | some thread =>
      obtain ⟨chain, outward, closed⟩ := closeThread_eq steady found
      obtain ⟨own, whole, names⟩ := outward.stack
      rw [closed]
      refine steady.spares rfl rfl rfl (fun other _ => ?_) fun other stack _ live held entry inside => ?_
      · simp only [log, ThreadSet.find?_remove]
        by_cases same : other = id
        · exact .inr (same ▸ Function.update_self ..)
        · exact .inl (Function.update_of_ne same ..)
      · have different : other ≠ id := by
          intro same
          simp [log, ThreadSet.find?_remove, same] at live
        have apart := steady.apart different ⟨thread, found, whole⟩ held inside
        obtain ⟨_, _, shown⟩ := held
        refine control?_foldl_retire ?_ (shown.shown inside) (shown.running inside)
        rw [← names]
        intro within
        obtain ⟨first, there, same⟩ := List.mem_map.mp within
        exact apart first there same

/-- A thread goes into a new frame. -/
theorem Steady.spares_descend {child : FrameId} {frames : FrameArena}
    (vacant : machine.frames.frame? child = none)
    (kept : ∀ other, other ≠ child → frames.control? other = machine.frames.control? other)
    (found : machine.threads.find? number = some entry) (change : Thread → Thread) :
    Spares (some number) machine { machine with
      frames
      threads := machine.threads.update number change } := by
  refine steady.spares rfl rfl rfl (fun id different => .inl ?_)
    fun id stack _ _ stacked held inside => ?_
  · simp only [ThreadSet.find?_update found]
    exact Function.update_of_ne (fun same => different (congrArg some same)) ..
  · have different := stacked.ne_of_vacant vacant inside
    obtain ⟨_, _, whole⟩ := stacked
    exact (kept _ different).trans (whole.shown inside)

/-- The current frame of a thread retires, and the thread goes or goes on. -/
theorem Steady.spares_retire (found : machine.threads.find? number = some entry)
    {threads : ThreadSet} (next : threads.next = machine.threads.next)
    (queue : threads.ready = machine.threads.ready)
    (others : ∀ id, id ≠ number → threads.find? id = machine.threads.find? id) :
    Spares (some number) machine { machine with
      frames := machine.frames.retire entry.current
      threads } := by
  obtain ⟨own, stacked⟩ := steady.stacked found
  obtain ⟨frame, outer, rfl, shown, _⟩ := stacked.current found
  obtain ⟨live, there, _⟩ := control?_eq_some_iff.mp shown
  refine steady.spares rfl next queue
    (fun id different => .inl (others id fun same => different (congrArg some same)))
    fun id stack different _ held entry inside => ?_
  have apart := steady.apart (fun same => different (congrArg some same)) stacked held inside
  obtain ⟨_, _, whole⟩ := held
  exact control?_retire there (apart _ List.mem_cons_self).symm (whole.shown inside)
    (whole.running inside)

/-- A new thread for a block stands at the end of the queue, or there are too many. -/
theorem Steady.spares_launch {parent : Option FrameId} (outside : machine.Holds parent) (id : BlockId)
    (arguments : List Value) :
    (Action.launch parent id arguments).Ensures (machine = ·) (fun _ => Spares none machine)
      fun _ => Spares none machine := by
  intro _ equal
  subst equal
  rcases Action.launch_cases outside id arguments with
    missing | ⟨frame, fits, ⟨limit, maximum, many, run⟩ | ⟨few, run⟩⟩
  · rw [missing]
    exact .refl machine
  · rw [run]
    exact steady.spares_refuse fits
  · rw [run]
    exact steady.spares_spawn fits

theorem Steady.spares_spawnHandler (event : String) (id : BlockId) (arguments : List Value) :
    (Action.spawnHandler event id arguments).Ensures (machine = ·) (fun _ => Spares none machine)
      fun _ => Spares none machine := by
  intro _ equal
  subst equal
  have launched := steady.spares_launch steady.holds_globals id arguments machine rfl
  rw [run_spawnHandler]
  cases ran : (Action.launch machine.globals id arguments).run machine with
  | ok thread after =>
      rw [ran] at launched
      exact launched.trans (.of_eq rfl rfl rfl)
  | error error after =>
      rw [ran] at launched
      exact launched

end Operations

/-! Native functions. -/

theorem Steady.spares_perform (steady : machine.Steady allowed) (request : Request) :
    Spares none machine (request.perform machine).2 := by
  cases request with
  | call event arguments =>
      simp only [Request.perform, enqueue]
      split
      · exact .refl machine
      · next id handled =>
          have spawned := steady.spares_spawnHandler event id arguments machine rfl
          split
          · next ran =>
              rw [ran] at spawned
              exact spawned
          · next ran =>
              rw [ran] at spawned
              exact spawned
  | raise text => exact .of_eq (currentLine_fail ..) (threads_fail ..) (frames_fail ..)
  | terminate text => exact .of_eq (currentLine_fail ..) (threads_fail ..) (frames_fail ..)
  | close id => exact steady.spares_close id
  | overwrite target source =>
      simp only [Request.perform]
      split
      · exact .of_eq rfl rfl rfl
      · exact .refl machine
  | _ => exact .of_eq rfl rfl rfl

section Routines

variable {α : Type} (own : ∀ error : MachineError, ¬ error.IsInternal → allowed error)
  (steady : machine.Steady allowed) (running : machine.state = .running)
  {routine rest : Routine (Except MachineError α)} (honest : routine.Honest allowed)

include own steady running honest

theorem Steady.spares_comes {seen : Machine} (comes : routine.Comes machine rest seen) :
    Spares none machine seen := by
  induction comes with
  | here => exact .refl _
  | @later request _ _ _ _ _ hypothesis =>
      obtain ⟨served, allows⟩ := request.perform_served own steady running
      exact (steady.spares_perform request).trans (hypothesis (steady.changes served.changes)
        (served.state.trans running) (honest _ allows))

theorem Steady.spares_play : Spares none machine (routine.play machine).2 :=
  steady.spares_comes own running honest (routine.comes_play machine)

end Routines

end Machine

end CoopScript
