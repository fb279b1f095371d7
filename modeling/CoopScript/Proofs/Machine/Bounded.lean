import CoopScript.Proofs.Machine.Addressing
import CoopScript.Proofs.Machine.Counting

/-!
The limits on calls and threads. Whatever a machine does, the depth that it keeps of a thread is that
of the chain of its frames, and neither the chains nor the number of the threads exceed the limits by
more than what the main thread needs to begin.
-/

namespace CoopScript

namespace ThreadSet

variable {set : ThreadSet} {id : ThreadId}

theorem size_eq (set : ThreadSet) : set.size = set.ids.length := by
  simp [size, ids]

@[simp] theorem size_spawn (set : ThreadSet) (root : FrameId) :
    (set.spawn root).2.size = set.size + 1 := by
  simp [size_eq, ids_spawn]

@[simp] theorem size_update (set : ThreadSet) (id : ThreadId) (change : Thread → Thread) :
    (set.update id change).size = set.size := by
  simp only [size_eq, ids_update]

theorem size_remove_le (set : ThreadSet) (id : ThreadId) : (set.remove id).size ≤ set.size := by
  rw [size_eq, size_eq, ids_remove]
  exact List.length_filter_le _ _

@[simp] theorem size_takeReady (set : ThreadSet) : set.takeReady.2.size = set.size := by
  unfold takeReady
  split <;> rfl

end ThreadSet

namespace Machine

open ThreadSet

variable {allowed : MachineError → Prop} {machine after : Machine} {program : Program}
  {limits : Limits}

/-- The main thread may always begin, and everything else keeps to the limits. -/
structure Bounded (machine : Machine) : Prop where
  unbegun : machine.state = .idle → machine.threads.size = 0
  shallow : ∀ id thread, machine.threads.find? id = some thread →
    thread.depth < max 1 machine.limits.maxCallDepth
  few : ∀ limit, machine.limits.maxThreads = some limit → machine.threads.size ≤ max 1 limit

theorem Bounded.initial (program : Program) (limits : Limits) :
    (program.machine limits).Bounded where
  unbegun := fun _ => rfl
  shallow := fun _ _ found => nomatch found
  few := fun _ _ => Nat.zero_le _

/-- A change that brings in no thread and takes none deeper keeps to the limits. -/
theorem Bounded.shrink (bounded : machine.Bounded) (change : Change allowed machine after)
    (size : after.threads.size ≤ machine.threads.size)
    (threads : ∀ id thread, after.threads.find? id = some thread →
      ∃ before, machine.threads.find? id = some before ∧ thread.depth ≤ before.depth) :
    after.Bounded where
  unbegun := by
    intro idle
    have early : machine.state = .idle := by
      by_contra begun
      exact change.keeps.2.2 begun idle
    exact Nat.le_zero.mp (bounded.unbegun early ▸ size)
  shallow := by
    intro id thread found
    obtain ⟨before, held, less⟩ := threads id thread found
    rw [change.keeps.2.1]
    exact less.trans_lt (bounded.shallow id before held)
  few := by
    intro limit limited
    rw [change.keeps.2.1] at limited
    exact size.trans (bounded.few limit limited)

/-- A change that leaves every thread where it is keeps to the limits. -/
theorem Bounded.same (bounded : machine.Bounded) (change : Change allowed machine after)
    (size : after.threads.size = machine.threads.size)
    (threads : after.threads.find? = machine.threads.find?) : after.Bounded :=
  bounded.shrink change size.le fun _ thread found => ⟨thread, threads ▸ found, le_rfl⟩

theorem Bounded.remove (bounded : machine.Bounded) (change : Change allowed machine after)
    {id : ThreadId} (threads : after.threads = machine.threads.remove id) : after.Bounded := by
  refine bounded.shrink change (threads ▸ size_remove_le _ _) fun other thread found => ?_
  rw [threads, find?_remove] at found
  by_cases same : other = id
  · subst same
    rw [Function.update_self] at found
    cases found
  · rw [Function.update_of_ne same] at found
    exact ⟨thread, found, le_rfl⟩

/-- With a new thread in its root frame a machine keeps to the limits if these let it begin. -/
theorem shallow_spawn {set : ThreadSet} (fresh : set.find? set.next = none) {bound : Nat}
    (shallow : ∀ id thread, set.find? id = some thread → thread.depth < max 1 bound)
    (root : FrameId) (id : ThreadId) (thread : Thread)
    (found : (set.spawn root).2.find? id = some thread) : thread.depth < max 1 bound := by
  rw [find?_spawn fresh] at found
  by_cases same : id = set.next
  · subst same
    rw [Function.update_self] at found
    cases found
    exact Nat.lt_of_lt_of_le Nat.zero_lt_one (Nat.le_max_left _ _)
  · rw [Function.update_of_ne same] at found
    exact shallow id thread found

/-- Every change keeps to the limits. -/
theorem Bounded.change (bounded : machine.Bounded) (steady : machine.Steady allowed)
    (change : Change allowed machine after) : after.Bounded := by
  have fresh := steady.balanced.find?_next
  have step := change
  cases change with
  | quiet quiet =>
      exact bounded.same step (congrArg ThreadSet.size quiet.threads)
        (congrArg ThreadSet.find? quiet.threads)
  | start idle _ _ _ =>
      constructor
      case unbegun => nofun
      case shallow => exact shallow_spawn fresh bounded.shallow _
      case few =>
        intro limit _
        simp only [size_spawn, bounded.unbegun idle]
        exact Nat.le_max_left _ _
  | @descend number thread frame current found _ _ room =>
      constructor
      case unbegun =>
        intro idle
        rw [size_update]
        exact bounded.unbegun idle
      case shallow =>
        intro id entry entered
        rw [find?_update found] at entered
        by_cases same : id = number
        · subst same
          rw [Function.update_self] at entered
          cases entered
          exact Nat.lt_of_lt_of_le room (Nat.le_max_right _ _)
        · rw [Function.update_of_ne same] at entered
          exact bounded.shallow id entry entered
      case few =>
        intro limit limited
        rw [size_update]
        exact bounded.few limit limited
  | spawn running _ room =>
      constructor
      case unbegun => simp [running]
      case shallow => exact shallow_spawn fresh bounded.shallow _
      case few =>
        intro limit limited
        have below := room limit limited
        rw [size_spawn]
        omega
  | @ascend number thread _ parent _ found _ _ _ =>
      refine bounded.shrink step (size_update _ _ _).le fun id entry entered => ?_
      rw [find?_update found] at entered
      by_cases same : id = number
      · subst same
        rw [Function.update_self] at entered
        cases entered
        exact ⟨thread, found, Nat.sub_le _ _⟩
      · rw [Function.update_of_ne same] at entered
        exact ⟨entry, entered, le_rfl⟩
  | finish _ _ _ => exact bounded.remove step rfl
  | close _ _ => exact bounded.remove step rfl
  | fail _ => exact bounded.same step (by simp) (by simp)
  | terminate text _ =>
      have same : (machine.terminate text).threads = machine.threads := threads_fail ..
      exact bounded.same step (congrArg ThreadSet.size same) (congrArg ThreadSet.find? same)
  | take _ _ _ _ => exact bounded.same step (size_takeReady _) (find?_takeReady _)
  | rest _ _ _ _ => exact bounded.same step (size_takeReady _) (find?_takeReady _)
  | _ => exact bounded.same step rfl rfl

theorem Bounded.changes (bounded : machine.Bounded) (steady : machine.Steady allowed)
    (changes : Changes allowed machine after) : after.Bounded := by
  induction changes with
  | refl => exact bounded
  | tail before change hypothesis => exact hypothesis.change (steady.changes before) change

/-- What the host or a native function sees came by changes from the machine that the program
began with. -/
theorem Visible.changes (own : ∀ error : MachineError, ¬ error.IsInternal → allowed error)
    (honest : program.natives.Honest allowed) (visible : Visible program limits machine) :
    Changes allowed (program.machine limits) machine := by
  have reached {machine : Machine} (reachable : Reachable program limits machine) :
      Changes allowed (program.machine limits) machine := by
    induction reachable with
    | initial => exact .refl
    | step before transition hypothesis =>
        exact hypothesis.trans (transition.changes own honest (before.steady own honest))
  cases visible with
  | host reachable => exact reached reachable
  | native reachable invokes comes =>
      have steady := reachable.steady own honest
      obtain ⟨running, quiet, honest⟩ := invokes.quiet honest steady
      have served :=
        (Comes.served own (steady.quiet quiet) (quiet.state.trans running) honest comes).1
      exact ((reached reachable).tail (.quiet quiet)).trans served.changes

/-- At any time, also while native functions run, the frames of a thread go out from its current one
to its root, one more than its depth and no more than the limit of calls or one. No frame belongs to
two threads, and there are no more threads than their limit or one. -/
theorem Visible.threads_bounded (visible : Visible program limits machine) :
    (∀ id thread, machine.threads.find? id = some thread →
      ∃ chain, machine.frames.Chain thread.root thread.current chain ∧
        chain.length = thread.depth + 1 ∧ chain.length ≤ max 1 limits.maxCallDepth) ∧
    (∀ first second one other inner outer, first ≠ second →
      machine.threads.find? first = some one → machine.threads.find? second = some other →
      machine.frames.Chain one.root one.current inner →
      machine.frames.Chain other.root other.current outer → inner.Disjoint outer) ∧
    ∀ limit, limits.maxThreads = some limit → machine.threads.size ≤ max 1 limit := by
  have own : ∀ error : MachineError, ¬ error.IsInternal → True := fun _ _ => trivial
  have honest : program.natives.Honest fun _ => True :=
    fun _ _ _ => Routine.honest_of_forall (fun _ => trivial) _
  have changes := visible.changes own honest
  have coherent := (visible.steady own honest).coherent
  have same : machine.limits = limits := changes.limits
  have bounded := (Bounded.initial program limits).changes (Steady.initial program limits) changes
  refine ⟨fun id thread found => ?_, ?_, fun limit limited => ?_⟩
  · obtain ⟨chain, whole, length⟩ := coherent.chain id thread found
    have shallow := bounded.shallow id thread found
    rw [same] at shallow
    exact ⟨chain, whole, length, length ▸ shallow⟩
  · intro first second one other inner outer different found held whole chain member
      inside again
    exact different (coherent.apart member first second ⟨one, inner, found, whole, inside⟩
      ⟨other, outer, held, chain, again⟩)
  · exact bounded.few limit (same.symm ▸ limited)

/-! A main thread in a routine, beside a microthread: all that these limits leave room for. -/

def narrow : Limits where
  maxCallDepth := 2
  maxThreads := some 2

/-- The machine as the microthread has been spawned. -/
def lendingNarrowed : Machine :=
  (move lending.natives)^[5] { lendingBegun with limits := narrow }

theorem threads_bounded_lendingNarrowed : Visible lending narrow lendingNarrowed ∧
    lendingNarrowed.threads.find? ⟨0⟩ = some { root := ⟨0⟩, current := ⟨1⟩, depth := 1 } ∧
    lendingNarrowed.threads.find? ⟨1⟩ = some { root := ⟨2⟩, current := ⟨2⟩ } ∧
    (∃ inner outer, lendingNarrowed.frames.Chain ⟨0⟩ ⟨1⟩ inner ∧
      lendingNarrowed.frames.Chain ⟨2⟩ ⟨2⟩ outer ∧ inner.length = 2 ∧ inner.Disjoint outer) ∧
    lendingNarrowed.threads.size ≤ 2 := by
  have begun : Reachable lending narrow { lendingBegun with limits := narrow } := by
    show Reachable _ _ ((lending.machine narrow).started ⟨0⟩ lending.script.blocks[0]).begin
    exact .step .initial (.start rfl)
  have running : ∀ count < 5, ((move lending.natives)^[count]
      { lendingBegun with limits := narrow }).state = .running := by decide +kernel
  have visible : Visible lending narrow lendingNarrowed := .host (begun.iterate 5 running)
  have main : lendingNarrowed.threads.find? ⟨0⟩ =
      some { root := ⟨0⟩, current := ⟨1⟩, depth := 1 } := by decide +kernel
  have spawned : lendingNarrowed.threads.find? ⟨1⟩ = some { root := ⟨2⟩, current := ⟨2⟩ } := by
    decide +kernel
  obtain ⟨chains, apart, few⟩ := Visible.threads_bounded visible
  obtain ⟨inner, whole, length, _⟩ := chains _ _ main
  obtain ⟨outer, chain, _⟩ := chains _ _ spawned
  exact ⟨visible, main, spawned, ⟨inner, outer, whole, chain, length,
    apart _ _ _ _ _ _ (by decide) main spawned whole chain⟩, few 2 rfl⟩

end Machine

end CoopScript
