import CoopScript.Proofs.Actions.Runs
import CoopScript.Proofs.Machine.Turns

/-!
How a thread that is not at work comes to an end: only by a native function that closes it.
-/

namespace CoopScript

open MachineError

theorem ThreadSet.ids_takeReady (set : ThreadSet) : set.takeReady.2.ids = set.ids := by
  unfold takeReady
  split <;> rfl

namespace Machine

variable {allowed : MachineError → Prop} {machine after start seen : Machine} {number other : ThreadId}
  {entry : Thread} {natives : Natives}

/-- With its next move the machine calls a native function that closes the thread. -/
def Closes (natives : Natives) (machine : Machine) (id : ThreadId) : Prop :=
  ∃ routine start next seen, Invokes natives machine routine start ∧
    routine.Comes start (.ask (.close id) next) seen ∧ id ∈ seen.threads.ids

/-! Native functions. -/

/-- A new thread leaves the old ones alone. -/
theorem mem_ids_launch {parent : Option FrameId} {block : BlockId} {arguments : List Value} :
    (Action.launch parent block arguments).Ensures (other ∈ ·.threads.ids)
      (fun _ after => other ∈ after.threads.ids) fun _ after => other ∈ after.threads.ids := by
  intro machine inside
  rw [Action.run_launch]
  have spawned (root : FrameId) : other ∈ (machine.threads.spawn root).2.ids := by
    rw [ThreadSet.ids_spawn]
    exact List.mem_append_left _ inside
  cases machine.script.block? block with
  | none => exact inside
  | some found =>
      cases machine.limits.maxThreads with
      | none => exact spawned _
      | some limit =>
          by_cases many : limit ≤ machine.threads.size
          · simp only [if_pos many]
            exact inside
          · simp only [if_neg many]
            exact spawned _

/-- The only request that ends a thread is to close it. -/
theorem mem_ids_perform {request : Request} (inside : other ∈ machine.threads.ids)
    (spares : request ≠ .close other) : other ∈ (request.perform machine).2.threads.ids := by
  cases request with
  | call event arguments =>
      simp only [Request.perform, enqueue]
      split
      · exact inside
      · next id _ =>
          have launched := @mem_ids_launch other machine.globals id arguments machine inside
          rw [run_spawnHandler]
          cases ran : (Action.launch machine.globals id arguments).run machine <;> rw [ran] at launched <;>
            exact launched
  | raise text => exact (threads_fail ..).symm ▸ inside
  | terminate text => exact (threads_fail ..).symm ▸ inside
  | close id =>
      have different : id ≠ other := fun same => spares (same ▸ rfl)
      simp only [Request.perform, closeThread]
      split
      · exact inside
      · simp only [log, ThreadSet.ids_remove]
        exact List.mem_filter.mpr ⟨inside, by simpa using different.symm⟩
  | overwrite target source =>
      simp only [Request.perform]
      split <;> exact inside
  | _ => exact inside

/-- A routine leaves a thread alone or comes to close it. -/
theorem mem_ids_play {α : Type} (routine : Routine α) (inside : other ∈ machine.threads.ids) :
    other ∈ (routine.play machine).2.threads.ids ∨
      ∃ next seen, routine.Comes machine (.ask (.close other) next) seen ∧
        other ∈ seen.threads.ids := by
  induction routine generalizing machine with
  | done result => exact .inl inside
  | ask request next hypothesis =>
      by_cases closes : request = .close other
      · subst closes
        exact .inr ⟨next, machine, .here, inside⟩
      · rcases hypothesis _ (mem_ids_perform inside closes) with stays | ⟨rest, seen, comes, live⟩
        · exact .inl stays
        · exact .inr ⟨rest, seen, .later comes, live⟩

/-! Instructions. -/

/-- An instruction that does not call leaves all threads alone. -/
theorem threads_execute (executing : machine.Executing allowed number entry)
    {instruction : Instruction} (simple : instruction.call? = none) {slice : Option Slice}
    (ran : (Action.execute natives number entry.current instruction).run machine = .ok slice after) :
    after.threads = machine.threads := by
  obtain ⟨stack, stacked⟩ := executing.steady.stacked executing.found
  obtain ⟨frame, outer, rfl, _, whole⟩ := stacked.current executing.found
  have distinct := whole.nodup executing.steady.coherent.counted
  have looks : (Action.thread number).run machine = .ok entry machine := by
    simp only [Action.thread, EStateM.run_bind, EStateM.run_get, executing.found]
    rfl
  cases plain : instruction.unwinds with
  | false => exact ((Action.execute_alters natives number simple plain machine).ok (.refl machine) ran).threads
  | true =>
      cases instruction with
      | breakLoop =>
          simp only [Action.execute, EStateM.run_bind, looks] at ran
          cases broke : (Action.breakLoop entry.root (entry.depth + 1) entry.current).run machine with
          | error error last =>
              rw [broke] at ran
              cases ran
          | ok result last =>
              obtain ⟨frames, new, rfl, _, _⟩ := Action.run_breakLoop whole distinct broke
              rw [broke] at ran
              cases ran
              rfl
      | breakRoutine =>
          obtain ⟨chain, outward, length⟩ :=
            executing.steady.coherent.chain number entry executing.found
          have depth : ((entry.current, frame) :: outer).length ≤ entry.depth + 1 := by
            rw [← length, outward.unique whole.chain, List.length_map]
          obtain ⟨frames, broke, _⟩ := Action.run_breakRoutine whole distinct depth
          simp only [Action.execute, EStateM.run_bind, looks, broke] at ran
          cases ran
          rfl
      | setResult =>
          rcases Action.setResult_cases natives executing.found whole distinct with
            ⟨_, _, _, frames, _, _, sets, _⟩ | ⟨error, last, fails, _⟩
          · rw [sets] at ran
            cases ran
            rfl
          · rw [fails] at ran
            cases ran
      | _ => cases plain

/-- A call of a block leaves the threads that there are. -/
theorem mem_ids_callBlock (executing : machine.Executing allowed number entry) {block : BlockId}
    {count : Nat} {pushesResult : Bool} {slice : Option Slice}
    (ran : (Action.callBlock number entry.current block count pushesResult).run machine =
      .ok slice after) (inside : other ∈ machine.threads.ids) : other ∈ after.threads.ids := by
  obtain ⟨held, live, _⟩ := executing.steady.coherent.live_current executing.found
  rcases Action.run_callBlock live number block count pushesResult with
    ⟨error, _, failed⟩ | ⟨callee, _, _, _, _, same⟩
  · rw [failed] at ran
    cases ran
  · have ready : { machine with
        frames := machine.frames.set entry.current { held with stack := held.stack.drop count }
        }.Executing allowed number entry :=
      executing.quiet { Machine.Quiet.refl machine with frames := FrameArena.skeleton_set live rfl }
    rw [same] at ran
    split at ran
    · obtain ⟨spawned, middle, launched, ran⟩ := Action.run_bind_eq_ok ran
      cases ran
      have stays : other ∈ middle.threads.ids := by
        refine mem_ids_launch.ok ?_ launched
        exact inside
      exact stays
    · obtain ⟨_, middle, descends, ran⟩ := Action.run_bind_eq_ok ran
      cases ran
      rcases Action.run_descend ready block _ pushesResult with
        ⟨error, _, failed⟩ | ⟨_, _, _, _, _, _, done⟩
      · rw [failed] at descends
        cases descends
      · rw [done] at descends
        cases descends
        exact (ThreadSet.ids_update ..).symm ▸ inside

/-- Whenever the action goes through, the thread is there after it if it was before. -/
def Leaves {α : Type} (action : Action α) (id : ThreadId) : Prop :=
  action.Ensures (id ∈ ·.threads.ids) (fun _ after => id ∈ after.threads.ids) fun _ _ => True

theorem Leaves.bind {α β : Type} {action : Action α} {next : α → Action β}
    (first : Leaves action other) (rest : ∀ result, Leaves (next result) other) :
    Leaves (action >>= next) other :=
  Action.Ensures.bind first rest

theorem leaves_of_modest {α : Type} {action : Action α} (id : FrameId)
    (modest : Action.Modest id action) (other : ThreadId) : Leaves action other := by
  intro machine inside
  have altered := modest.ensures machine machine (.refl _)
  cases ran : action.run machine with
  | error error after => trivial
  | ok result after =>
      rw [ran] at altered
      show other ∈ after.threads.ids
      rw [altered.threads]
      exact inside

theorem leaves_modify {change : Machine → Machine}
    (keeps : ∀ machine, other ∈ machine.threads.ids → other ∈ (change machine).threads.ids) :
    Leaves (modify change : Action PUnit) other := .modify keeps

theorem leaves_thread (id other : ThreadId) : Leaves (Action.thread id) other := by
  intro machine inside
  simp only [Action.thread, EStateM.run_bind, EStateM.run_get]
  cases machine.threads.find? id with
  | none => trivial
  | some thread => exact inside

/-- A thread that returns or ends leaves the others alone. -/
theorem leaves_leave (different : other ≠ number) : Leaves (Action.leave number) other := by
  have sets (id : FrameId) (frame : Frame) : Leaves (Action.setFrame id frame) other :=
    leaves_modify fun _ inside => inside
  have retires (id : FrameId) : Leaves (Action.retire id) other :=
    leaves_modify fun _ inside => inside
  have pushes (id : FrameId) (value : Value) : Leaves (Action.push id value) other :=
    leaves_of_modest id inferInstance other
  unfold Action.leave
  refine (leaves_thread number other).bind fun thread => ?_
  split
  · refine .bind (leaves_modify fun machine inside => ?_) fun _ =>
      .bind (leaves_modify fun _ => id) fun _ => .pure fun _ => id
    rw [ThreadSet.ids_remove]
    exact List.mem_filter.mpr ⟨inside, by simpa using different⟩
  · refine (leaves_of_modest thread.current inferInstance other).bind fun frame => ?_
    split
    · exact .throw fun _ _ => trivial
    · next parent _ =>
        have ends : Leaves (do
            Action.updateThread number fun thread =>
              { thread with current := parent, depth := thread.depth - 1 }
            return false : Action Bool) other :=
          .bind (leaves_modify fun machine inside => (ThreadSet.ids_update ..).symm ▸ inside)
            fun _ => .pure fun _ => id
        split
        · exact (sets _ _).bind fun _ => (retires _).bind fun _ => (pushes _ _).bind fun _ => ends
        · exact (retires _).bind fun _ => ends

/-! Moves. -/

/-- A step that goes through leaves the other threads alone, or it calls a native function that closes
one. -/
theorem mem_ids_advance (executing : machine.Executing allowed number entry)
    (alive : machine.stopped = false) (different : other ≠ number) {slice : Option Slice}
    (ran : (Action.advance natives number).run machine = .ok slice after)
    (inside : other ∈ machine.threads.ids) :
    other ∈ after.threads.ids ∨ machine.Closes natives other := by
  obtain ⟨stack, stacked⟩ := executing.steady.stacked executing.found
  obtain ⟨frame, outer, rfl, _⟩ := stacked.current executing.found
  have fetches := Action.fetch_strides executing stacked
  simp only [Action.advance, EStateM.run_bind, EStateM.run_get, alive, Bool.false_eq_true, if_false,
    executing.found] at ran
  cases coded : frame.code? machine.script with
  | none =>
      rw [coded] at fetches
      simp only [fetches] at ran
      obtain ⟨ended, middle, leaves, done⟩ := Action.run_bind_eq_ok ran
      cases done
      exact .inl ((leaves_leave different).ok inside leaves)
  | some code =>
      rw [coded] at fetches
      rcases fetches with ⟨limit, _, _, failed⟩ | ⟨_, fetched, passes, _, quiet, _⟩
      · simp only [failed] at ran
        cases ran
      · simp only [passes] at ran
        have ready := executing.quiet quiet
        have still : other ∈ fetched.threads.ids := quiet.threads.symm ▸ inside
        cases simple : code.instruction.call? with
        | none => exact .inl ((threads_execute ready simple ran).symm ▸ still)
        | some called =>
            obtain ⟨callee, count, pushesResult⟩ := called
            rw [Action.execute_call simple] at ran
            cases callee with
            | block block => exact .inl (mem_ids_callBlock ready ran still)
            | native native =>
                obtain ⟨routine, start, prepares, ran⟩ := Action.run_bind_eq_ok ran
                have invokes : machine.Invokes natives routine start :=
                  .intro executing.current alive executing.found passes simple prepares
                have prepared : other ∈ start.threads.ids :=
                  (leaves_of_modest entry.current inferInstance other).ok still prepares
                obtain ⟨result, played, plays, ran⟩ := Action.run_bind_eq_ok ran
                cases plays
                rcases mem_ids_play routine prepared with stays | ⟨next, seen, comes, live⟩
                · have modest : Action.Modest entry.current (Action.concludeNative number
                      entry.current pushesResult (routine.play start).1) := inferInstance
                  exact .inl ((leaves_of_modest entry.current modest other).ok stays ran)
                · exact .inr ⟨routine, start, next, seen, invokes, comes, live⟩

/-- A thread that is not at work stays through a move of a machine that goes on, or it is closed. -/
theorem mem_ids_move (steady : machine.Steady allowed) (going : (machine.move natives).stopped = false)
    (idle : machine.current ≠ some other) (inside : other ∈ machine.threads.ids) :
    other ∈ (machine.move natives).threads.ids ∨ machine.Closes natives other := by
  have alive : machine.stopped = false := going_of_iterate 1 going
  cases turn : machine.current with
  | none =>
      have same := machine.threads.ids_takeReady
      refine .inl ?_
      simp only [move, turn, alive, Bool.false_eq_true, if_false]
      split <;> next taken =>
        rw [taken] at same
        exact (congrArg (other ∈ ·) same).mpr inside
  | some number =>
      obtain ⟨slice, last, ran, moves⟩ := advance_of_move turn going
      have different : other ≠ number := fun same => idle (same ▸ turn)
      have stays : other ∈ last.threads.ids ∨ machine.Closes natives other := by
        cases found : machine.threads.find? number with
        | none =>
            simp only [Action.advance, EStateM.run_bind, EStateM.run_get, alive, Bool.false_eq_true,
              if_false, found] at ran
            cases ran
            exact .inl inside
        | some entry => exact mem_ids_advance ⟨steady, turn, found⟩ alive different ran inside
      refine stays.imp_left fun live => ?_
      rw [moves]
      cases slice with
      | none => exact live
      | some slice => cases slice <;> exact live

/-! Native functions on the way. -/

theorem Comes.trans {α : Type} {routine middle rest : Routine α} {last : Machine}
    (early : routine.Comes machine middle seen) (late : middle.Comes seen rest last) :
    routine.Comes machine rest last := by
  induction early with
  | here => exact late
  | later _ hypothesis => exact .later (hypothesis late)

/-- A move that calls a native function and does not stop the machine ends as the call does. -/
theorem Invokes.move {routine : Routine (Except MachineError Value)}
    (invokes : Invokes natives machine routine start)
    (going : (machine.move natives).stopped = false) :
    ∃ number entry pushesResult slice last,
      machine.current = some number ∧ machine.threads.find? number = some entry ∧
      (Action.concludeNative number entry.current pushesResult (routine.play start).1).run
        (routine.play start).2 = .ok slice last ∧
      machine.move natives = afterStep number (.ok slice last) := by
  cases invokes with
  | @intro number entry instruction native count pushesResult fetched _ _ turn alive found passes called
      prepares =>
      obtain ⟨slice, last, ran, moves⟩ := advance_of_move turn going
      simp only [Action.advance, EStateM.run_bind, EStateM.run_get, alive, Bool.false_eq_true,
        if_false, found, passes, Action.execute_call called, Action.call, Action.callNative,
        prepares] at ran
      exact ⟨number, entry, pushesResult, slice, last, turn, found, ran, moves⟩

/-- What a native function finds of the threads is there after the move, but for those that it closes
later. -/
theorem stays_of_comes (own : ∀ error : MachineError, ¬ error.IsInternal → allowed error)
    (honest : natives.Honest allowed) (steady : machine.Steady allowed)
    {routine rest : Routine (Except MachineError Value)}
    (invokes : Invokes natives machine routine start) (comes : routine.Comes start rest seen)
    (going : (machine.move natives).stopped = false) (other : ThreadId) :
    seen.threads.ready <+: (machine.move natives).threads.ready ∧
      (other ∈ seen.threads.ids →
        other ∈ (machine.move natives).threads.ids ∨ machine.Closes natives other) := by
  obtain ⟨running, quiet, blameless⟩ := invokes.quiet honest steady
  have begun := steady.quiet quiet
  obtain ⟨served, allows⟩ := Comes.served own begun (quiet.state.trans running) blameless comes
  have now := begun.changes served.changes
  have alive : seen.state = .running := served.state.trans (quiet.state.trans running)
  obtain ⟨number, entry, pushesResult, slice, last, _, _, ran, moves⟩ := invokes.move going
  rw [Comes.play comes] at ran
  have modest : Action.Modest entry.current
    (Action.concludeNative number entry.current pushesResult (rest.play seen).1) := inferInstance
  have altered := (modest.ensures _).ok (.refl _) ran
  have queued : (rest.play seen).2.threads.ready <+: (machine.move natives).threads.ready := by
    rw [moves, ← altered.threads]
    cases slice with
    | none => exact List.prefix_rfl
    | some slice =>
        cases slice with
        | yielded => exact List.prefix_append ..
        | _ => exact List.prefix_rfl
  refine ⟨(now.spares_play own alive allows).queue.trans queued, fun live => ?_⟩
  rcases mem_ids_play rest live with stays | ⟨next, closed, further, there⟩
  · refine .inl ?_
    rw [← altered.threads] at stays
    rw [moves]
    cases slice with
    | none => exact stays
    | some slice => cases slice <;> exact stays
  · exact .inr ⟨routine, start, next, closed, invokes, Comes.trans comes further, there⟩

end Machine

end CoopScript
