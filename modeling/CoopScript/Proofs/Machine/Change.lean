import Mathlib.Logic.Relation
import CoopScript.Machine.Entry
import CoopScript.Proofs.Machine.Coherent
import CoopScript.Proofs.Threads.Balanced

/-!
Everything that a machine can do to its frames, its threads and its own state, one kind of change at
a time, and what all changes keep: frames and threads that fit together, and a scheduler whose books
are in order. What instructions, native functions and the host do is made of these changes.
-/

namespace CoopScript.Machine

open Coherent (Fits)

/-- Only the contents of frames, the values, and the reports of the machine differ. -/
structure Quiet (before after : Machine) : Prop where
  script : after.script = before.script
  limits : after.limits = before.limits
  frames : after.frames.skeleton = before.frames.skeleton
  threads : after.threads = before.threads
  globals : after.globals = before.globals
  current : after.current = before.current
  state : after.state = before.state
  stopped : after.stopped = before.stopped
  terminated : after.terminated = before.terminated
  error : after.error = before.error
  errorLine : after.errorLine = before.errorLine
  ticks : after.ticks = before.ticks

theorem Quiet.refl (machine : Machine) : machine.Quiet machine := by
  constructor <;> rfl

theorem Quiet.trans {first second third : Machine} (early : first.Quiet second)
    (late : second.Quiet third) : first.Quiet third where
  script := late.script.trans early.script
  limits := late.limits.trans early.limits
  frames := late.frames.trans early.frames
  threads := late.threads.trans early.threads
  globals := late.globals.trans early.globals
  current := late.current.trans early.current
  state := late.state.trans early.state
  stopped := late.stopped.trans early.stopped
  terminated := late.terminated.trans early.terminated
  error := late.error.trans early.error
  errorLine := late.errorLine.trans early.errorLine
  ticks := late.ticks.trans early.ticks

/-- One change of a machine that records only allowed errors. -/
inductive Change (allowed : MachineError → Prop) : Machine → Machine → Prop
  | quiet {before after : Machine} : before.Quiet after → Change allowed before after
  /-- The entry block begins on the main thread. -/
  | start {machine : Machine} {frame : Frame} : machine.state = .idle → machine.stopped = false →
      Fits machine.script machine.frames frame → frame.parent = none →
      Change allowed machine { machine with
        frames := (machine.frames.allocate frame).2.pin (machine.frames.allocate frame).1
        globals := some (machine.frames.allocate frame).1
        threads := (machine.threads.spawn (machine.frames.allocate frame).1).2
        ticks := 1
        instructions := 0
        state := .running }
  /-- The ready threads begin to run. -/
  | begin {machine : Machine} : machine.state = .suspended ∨ machine.state = .finished →
      machine.stopped = false → Change allowed machine machine.begin
  /-- The next tick begins. -/
  | tick {machine : Machine} : machine.state = .suspended ∨ machine.state = .finished →
      machine.stopped = false → Change allowed machine machine.tick.begin
  /-- The current thread goes into a new frame. -/
  | descend {machine : Machine} {id : ThreadId} {thread : Thread} {frame : Frame} :
      machine.current = some id → machine.threads.find? id = some thread →
      Fits machine.script machine.frames frame → frame.parent = some thread.current →
      thread.depth + 1 < machine.limits.maxCallDepth →
      Change allowed machine { machine with
        frames := (machine.frames.allocate frame).2
        threads := machine.threads.update id fun entry => { entry with
          current := (machine.frames.allocate frame).1
          depth := thread.depth + 1 } }
  /-- A new thread begins with a new frame. -/
  | spawn {machine : Machine} {frame : Frame} : machine.state = .running →
      Fits machine.script machine.frames frame →
      (∀ limit, machine.limits.maxThreads = some limit → machine.threads.size < limit) →
      Change allowed machine { machine with
        frames := (machine.frames.allocate frame).2
        threads := (machine.threads.spawn (machine.frames.allocate frame).1).2 }
  /-- There are too many threads for another one. -/
  | refuse {machine : Machine} {frame : Frame} {limit : Nat} :
      Fits machine.script machine.frames frame →
      machine.limits.maxThreads = some limit → limit ≤ machine.threads.size →
      Change allowed machine { machine with
        frames := (machine.frames.allocate frame).2.retire (machine.frames.allocate frame).1 }
  /-- The current thread returns to the frame around its current one. -/
  | ascend {machine : Machine} {id : ThreadId} {thread : Thread} {frame : Frame}
      {parent : FrameId} :
      machine.current = some id → machine.threads.find? id = some thread →
      thread.current ≠ thread.root → machine.frames.frame? thread.current = some frame →
      frame.parent = some parent →
      Change allowed machine { machine with
        frames := machine.frames.retire thread.current
        threads := machine.threads.update id fun entry => { entry with
          current := parent
          depth := entry.depth - 1 } }
  /-- The current thread ends. -/
  | finish {machine : Machine} {id : ThreadId} {thread : Thread} :
      machine.current = some id → machine.threads.find? id = some thread →
      thread.current = thread.root →
      Change allowed machine { machine with
        frames := machine.frames.retire thread.current
        threads := machine.threads.remove id }
  /-- A thread is closed. -/
  | close {machine : Machine} {id : ThreadId} {thread : Thread} {chain : List FrameId} :
      machine.threads.find? id = some thread →
      machine.frames.Chain thread.root thread.current chain →
      Change allowed machine { machine with
        frames := chain.foldl FrameArena.retire machine.frames
        threads := machine.threads.remove id }
  | fail {machine : Machine} {error : MachineError} : allowed error →
      Change allowed machine (machine.fail error)
  | stop {machine : Machine} : Change allowed machine machine.stop
  | terminate {machine : Machine} (text : String) :
      allowed (.terminated text) → Change allowed machine (machine.terminate text)
  /-- The next thread has its turn. -/
  | take {machine : Machine} {id : ThreadId} : machine.state = .running → machine.current = none →
      machine.stopped = false → machine.threads.takeReady.1 = some id →
      Change allowed machine { machine with
        current := some id
        threads := machine.threads.takeReady.2 }
  /-- No thread is ready any more. -/
  | rest {machine : Machine} : machine.state = .running → machine.current = none →
      machine.stopped = false → machine.threads.takeReady.1 = none →
      Change allowed machine { machine with threads := machine.threads.takeReady.2 }.settle
  /-- A stopped machine settles. -/
  | halt {machine : Machine} : machine.state = .running → machine.stopped = true →
      Change allowed machine machine.settle
  | yield {machine : Machine} {id : ThreadId} : machine.current = some id →
      id ∈ machine.threads.ids →
      Change allowed machine { machine with
        current := none
        threads := machine.threads.requeue id }
  | wait {machine : Machine} {id : ThreadId} {ticks : Nat} : machine.current = some id →
      id ∈ machine.threads.ids → 1 ≤ ticks →
      Change allowed machine { machine with
        current := none
        threads := machine.threads.park id ticks }
  /-- The turn of a thread that is gone ends. -/
  | relinquish {machine : Machine} {id : ThreadId} : machine.current = some id →
      id ∉ machine.threads.ids → Change allowed machine { machine with current := none }

/-- Frames and threads fit together, the books of the scheduler are in order, and a machine that
does not run has no thread that is ready. -/
structure Steady (allowed : MachineError → Prop) (machine : Machine) : Prop where
  coherent : Coherent machine.script machine.frames machine.globals machine.threads.find?
  balanced : machine.threads.Balanced machine.current
  placed : machine.stopped = false → machine.threads.Placed machine.current
  resting : machine.state ≠ .running → machine.current = none ∧
    (machine.stopped = false → machine.threads.ready = [])
  begun : machine.state = .idle ↔ machine.globals = none
  blameless : ∀ error, machine.error = some error → allowed error

variable {allowed : MachineError → Prop} {machine after : Machine}

theorem Steady.quiet (steady : machine.Steady allowed) (quiet : machine.Quiet after) :
    after.Steady allowed where
  coherent := by
    rw [quiet.script, quiet.globals, quiet.threads]
    exact steady.coherent.of_skeleton quiet.frames
  balanced := by
    rw [quiet.threads, quiet.current]
    exact steady.balanced
  placed := by
    rw [quiet.stopped, quiet.threads, quiet.current]
    exact steady.placed
  resting := by
    rw [quiet.state, quiet.current, quiet.stopped, quiet.threads]
    exact steady.resting
  begun := by
    rw [quiet.state, quiet.globals]
    exact steady.begun
  blameless := by
    rw [quiet.error]
    exact steady.blameless

/-- The changes of threads and frames in a machine that goes on as it does. -/
theorem Steady.replace (steady : machine.Steady allowed) {frames : FrameArena}
    {threads : ThreadSet}
    (coherent : Coherent machine.script frames machine.globals threads.find?)
    (balanced : threads.Balanced machine.current)
    (placed : machine.stopped = false → threads.Placed machine.current)
    (queue : machine.state = .running ∨ threads.ready = machine.threads.ready) :
    { machine with frames, threads }.Steady allowed where
  coherent := coherent
  balanced := balanced
  placed := placed
  resting := by
    intro resting
    obtain ⟨none, empty⟩ := steady.resting resting
    refine ⟨none, fun going => ?_⟩
    rcases queue with running | same
    · exact (resting running).elim
    · exact same.trans (empty going)
  begun := steady.begun
  blameless := steady.blameless

/-! What becomes of a machine that fails or stops. -/

section Fail

variable (machine : Machine) (error : MachineError)

@[simp] theorem script_fail : (machine.fail error).script = machine.script := by
  unfold fail
  split <;> rfl

@[simp] theorem limits_fail : (machine.fail error).limits = machine.limits := by
  unfold fail
  split <;> rfl

@[simp] theorem heap_fail : (machine.fail error).heap = machine.heap := by
  unfold fail
  split <;> rfl

@[simp] theorem frames_fail : (machine.fail error).frames = machine.frames := by
  unfold fail
  split <;> rfl

@[simp] theorem threads_fail : (machine.fail error).threads = machine.threads := by
  unfold fail
  split <;> rfl

@[simp] theorem globals_fail : (machine.fail error).globals = machine.globals := by
  unfold fail
  split <;> rfl

@[simp] theorem current_fail : (machine.fail error).current = machine.current := by
  unfold fail
  split <;> rfl

@[simp] theorem state_fail : (machine.fail error).state = machine.state := by
  unfold fail
  split <;> rfl

@[simp] theorem stopped_fail : (machine.fail error).stopped = true := by
  unfold fail
  split <;> rfl

@[simp] theorem ticks_fail : (machine.fail error).ticks = machine.ticks := by
  unfold fail
  split <;> rfl

@[simp] theorem currentLine_fail : (machine.fail error).currentLine = machine.currentLine := by
  unfold fail
  split <;> rfl

/-- The first error stays. -/
theorem error_fail : (machine.fail error).error = some (machine.error.getD error) := by
  unfold fail
  split <;> simp_all

end Fail

theorem Steady.stopping (steady : machine.Steady allowed) (script : after.script = machine.script)
    (frames : after.frames = machine.frames) (globals : after.globals = machine.globals)
    (threads : after.threads = machine.threads) (current : after.current = machine.current)
    (stopped : after.stopped = true)
    (state : after.state = machine.state ∨
      after.state = .finished ∧ machine.state ≠ .running ∧ machine.state ≠ .idle)
    (error : ∀ error, after.error = some error → allowed error) : after.Steady allowed where
  coherent := by
    rw [script, frames, globals, threads]
    exact steady.coherent
  balanced := by
    rw [threads, current]
    exact steady.balanced
  placed := by simp [stopped]
  resting := by
    intro resting
    refine ⟨?_, by simp [stopped]⟩
    rw [current]
    rcases state with same | ⟨_, quiet, _⟩
    · exact (steady.resting (same ▸ resting)).1
    · exact (steady.resting quiet).1
  begun := by
    rw [globals, ← steady.begun]
    rcases state with same | ⟨finished, _, begun⟩
    · rw [same]
    · simp [finished, begun]
  blameless := error

theorem Steady.fail (steady : machine.Steady allowed) {error : MachineError}
    (blame : allowed error) : (machine.fail error).Steady allowed := by
  refine steady.stopping (by simp) (by simp) (by simp) (by simp) (by simp) (by simp) (by simp) ?_
  intro recorded same
  rw [error_fail] at same
  cases same
  cases first : machine.error with
  | none => exact blame
  | some error => exact steady.blameless error first

theorem Steady.stop (steady : machine.Steady allowed) : machine.stop.Steady allowed := by
  refine steady.stopping rfl rfl rfl rfl rfl rfl ?_ steady.blameless
  by_cases going : machine.state = .running ∨ machine.state = .idle
  · exact .inl (if_pos going)
  · exact .inr ⟨if_neg going, fun running => going (.inl running), fun idle => going (.inr idle)⟩

/-! Entries and turns. -/

theorem Steady.start (steady : machine.Steady allowed) {frame : Frame}
    (idle : machine.state = .idle) (going : machine.stopped = false)
    (fits : Fits machine.script machine.frames frame) (outermost : frame.parent = none) :
    { machine with
      frames := (machine.frames.allocate frame).2.pin (machine.frames.allocate frame).1
      globals := some (machine.frames.allocate frame).1
      threads := (machine.threads.spawn (machine.frames.allocate frame).1).2
      ticks := 1
      instructions := 0
      state := .running }.Steady allowed := by
  have fresh := steady.balanced.find?_next
  have coherent := steady.coherent
  rw [steady.begun.mp idle] at coherent
  have grown := coherent.counted.grown fits.outside
  constructor
  case coherent =>
    rw [ThreadSet.find?_spawn fresh]
    exact (coherent.launch fits fresh).adopt grown.new outermost
  case balanced => exact steady.balanced.spawn _
  case placed => exact fun _ => (steady.placed going).spawn _
  case resting => exact fun resting => (resting rfl).elim
  case begun => simp
  case blameless => exact steady.blameless

/-- A machine that has begun runs its ready threads, with the waiting ones counted or not. -/
theorem Steady.running (steady : machine.Steady allowed)
    (begun : machine.state = .suspended ∨ machine.state = .finished)
    {threads : ThreadSet} {ticks : Nat} {events : Array Event}
    (same : threads.find? = machine.threads.find?) (balanced : threads.Balanced machine.current)
    (placed : machine.stopped = false → threads.Placed machine.current) :
    { machine with threads, ticks, events, instructions := 0, state := .running }.Steady allowed where
  coherent := by
    rw [same]
    exact steady.coherent
  balanced := balanced
  placed := placed
  resting := fun resting => (resting rfl).elim
  begun := by
    have globals : machine.globals ≠ none := by
      rw [Ne, ← steady.begun]
      rcases begun with suspended | finished <;> simp_all
    simp [globals]
  blameless := steady.blameless

/-- The machine has no current thread and goes on with other books. -/
theorem Steady.turn (steady : machine.Steady allowed) (running : machine.state = .running)
    {threads : ThreadSet} {current : Option ThreadId}
    (same : threads.find? = machine.threads.find?) (balanced : threads.Balanced current)
    (placed : machine.stopped = false → threads.Placed current) :
    { machine with threads, current }.Steady allowed where
  coherent := by
    rw [same]
    exact steady.coherent
  balanced := balanced
  placed := placed
  resting := fun resting => (resting running).elim
  begun := steady.begun
  blameless := steady.blameless

theorem Steady.settle (steady : machine.Steady allowed) (begun : machine.state ≠ .idle)
    (empty : machine.stopped = false → machine.current = none ∧ machine.threads.ready = []) :
    machine.settle.Steady allowed where
  coherent := steady.coherent
  balanced := steady.balanced.relinquish
  placed := by
    intro going
    have placed := steady.placed going
    rwa [(empty going).1] at placed
  resting := fun _ => ⟨rfl, fun going => (empty going).2⟩
  begun := by
    rw [Ne, steady.begun] at begun
    simp only [Machine.settle]
    split <;> simp [begun]
  blameless := steady.blameless

theorem Steady.current_running (steady : machine.Steady allowed) {id : ThreadId}
    (current : machine.current = some id) : machine.state = .running := by
  by_contra resting
  rw [(steady.resting resting).1] at current
  cases current

theorem find?_takeReady (set : ThreadSet) : set.takeReady.2.find? = set.find? := by
  unfold ThreadSet.takeReady
  split <;> rfl

/-- Every change keeps a machine steady. -/
theorem Steady.change (steady : machine.Steady allowed) (change : Change allowed machine after) :
    after.Steady allowed := by
  cases change with
  | quiet quiet => exact steady.quiet quiet
  | start idle going fits outermost => exact steady.start idle going fits outermost
  | begin begun going => exact steady.running begun rfl steady.balanced steady.placed
  | tick begun going =>
      exact steady.running begun rfl steady.balanced.wake fun going => (steady.placed going).wake
  | descend current found fits parent _ =>
      refine steady.replace ?_ (steady.balanced.update _ _)
        (fun going => (steady.placed going).update _ _) (.inr rfl)
      rw [ThreadSet.find?_update found]
      exact steady.coherent.descend fits found parent
  | spawn running fits _ =>
      have fresh := steady.balanced.find?_next
      refine steady.replace ?_ (steady.balanced.spawn _)
        (fun going => (steady.placed going).spawn _) (.inl running)
      rw [ThreadSet.find?_spawn fresh]
      exact steady.coherent.launch fits fresh
  | refuse fits _ _ =>
      exact steady.replace (steady.coherent.abandon fits steady.balanced.find?_next)
        steady.balanced steady.placed (.inr rfl)
  | ascend current found inner live named =>
      obtain ⟨parent, names, _, _, ascended⟩ := steady.coherent.ascend found inner live
      rw [named] at names
      cases names
      refine steady.replace ?_ (steady.balanced.update _ _)
        (fun going => (steady.placed going).update _ _) (.inr rfl)
      rw [ThreadSet.find?_update found]
      exact ascended
  | finish current found last =>
      refine steady.replace ?_ (steady.balanced.remove _)
        (fun going => (steady.placed going).remove _) (.inr rfl)
      rw [ThreadSet.find?_remove]
      exact steady.coherent.finish found last
  | close found whole =>
      refine steady.replace ?_ (steady.balanced.remove _)
        (fun going => (steady.placed going).remove _) (.inr rfl)
      rw [ThreadSet.find?_remove]
      exact steady.coherent.close found whole
  | fail blame => exact steady.fail blame
  | stop => exact steady.stop
  | terminate text blame =>
      have marked : { machine with terminated := true }.Steady allowed :=
        ⟨steady.coherent, steady.balanced, steady.placed, steady.resting, steady.begun,
          steady.blameless⟩
      exact (marked.fail blame).stop
  | take running idle going taken =>
      have balanced := idle ▸ steady.balanced
      refine steady.turn running (find?_takeReady _) ?_ fun _ => ?_
      · exact taken ▸ balanced.takeReady
      · exact taken ▸ (idle ▸ steady.placed going).takeReady
  | rest running idle going taken =>
      have balanced := idle ▸ steady.balanced
      have turned := steady.turn running (find?_takeReady _) balanced.takeReady
        fun _ => (idle ▸ steady.placed going).takeReady
      rw [taken, ← idle] at turned
      refine turned.settle (by simp [running]) fun _ => ⟨idle, ?_⟩
      rcases machine.threads.takeReady_cases with ⟨same, _⟩ | ⟨_, _, _, _, _, _, same⟩
      · simp [same]
      · simp [same] at taken
  | halt running stopped => exact steady.settle (by simp [running]) (by simp [stopped])
  | yield current live =>
      have balanced := current ▸ steady.balanced
      exact steady.turn (steady.current_running current) rfl balanced.requeue
        fun going => (current ▸ steady.placed going).requeue
  | wait current live positive =>
      have balanced := current ▸ steady.balanced
      exact steady.turn (steady.current_running current) rfl (balanced.park live positive)
        fun going => (current ▸ steady.placed going).park balanced _
  | relinquish current gone =>
      exact steady.turn (steady.current_running current) rfl steady.balanced.relinquish
        fun going => (current ▸ steady.placed going).relinquish gone

/-- The script and the limits stay, and a machine that has begun never goes back. -/
theorem Change.keeps (change : Change allowed machine after) :
    after.script = machine.script ∧ after.limits = machine.limits ∧
      (machine.state ≠ .idle → after.state ≠ .idle) := by
  have stop (machine : Machine) (begun : machine.state ≠ .idle) : machine.stop.state ≠ .idle := by
    simp only [Machine.stop]
    split <;> simp [begun]
  have settle (machine : Machine) : machine.settle.state ≠ .idle := by
    simp only [Machine.settle]
    split <;> simp
  cases change with
  | quiet quiet => exact ⟨quiet.script, quiet.limits, quiet.state ▸ id⟩
  | start => exact ⟨rfl, rfl, fun _ => nofun⟩
  | begin => exact ⟨rfl, rfl, fun _ => nofun⟩
  | tick => exact ⟨rfl, rfl, fun _ => nofun⟩
  | fail => exact ⟨by simp, by simp, by simp⟩
  | stop => exact ⟨rfl, rfl, stop machine⟩
  | terminate =>
      exact ⟨script_fail .., limits_fail .., fun begun => stop _ (by simpa using begun)⟩
  | rest => exact ⟨rfl, rfl, fun _ => settle _⟩
  | halt => exact ⟨rfl, rfl, fun _ => settle _⟩
  | _ => exact ⟨rfl, rfl, id⟩

/-- One change after another keeps a machine steady. -/
theorem Steady.changes (steady : machine.Steady allowed)
    (changes : Relation.ReflTransGen (Change allowed) machine after) : after.Steady allowed := by
  induction changes with
  | refl => exact steady
  | tail _ change hypothesis => exact hypothesis.change change

end CoopScript.Machine
