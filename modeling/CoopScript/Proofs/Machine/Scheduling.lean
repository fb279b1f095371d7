import CoopScript.Proofs.Machine.Session

/-!
What the books of the scheduler say of every machine in a session: no thread is lost or queued
twice, and numbers of threads are given out in ascending order, each to one thread.
-/

namespace CoopScript

open MachineError

namespace ThreadSet

/-- Numbers are given out in ascending order, and none comes back. -/
structure Advances (before after : ThreadSet) : Prop where
  next_le : before.next.number ≤ after.next.number
  older : ∀ id ∈ after.ids, id ∈ before.ids ∨ before.next.number ≤ id.number

namespace Advances

variable {first second third : ThreadSet}

theorem of_subset (next : second.next = first.next) (ids : second.ids ⊆ first.ids) :
    Advances first second :=
  ⟨next ▸ le_rfl, fun _ inside => .inl (ids inside)⟩

theorem trans (early : Advances first second) (late : Advances second third) :
    Advances first third where
  next_le := early.next_le.trans late.next_le
  older := by
    intro id inside
    rcases late.older id inside with old | new
    · exact early.older id old
    · exact .inr (early.next_le.trans new)

theorem spawn (set : ThreadSet) (root : FrameId) : Advances set (set.spawn root).2 where
  next_le := Nat.le_succ _
  older := by
    intro id inside
    rw [ids_spawn, List.mem_append, List.mem_singleton] at inside
    exact inside.imp_right fun new => (congrArg ThreadId.number new).ge

theorem update (set : ThreadSet) (id : ThreadId) (change : Thread → Thread) :
    Advances set (set.update id change) :=
  .of_subset rfl fun _ inside => ids_update set id change ▸ inside

theorem remove (set : ThreadSet) (id : ThreadId) : Advances set (set.remove id) := by
  refine .of_subset rfl ?_
  rw [ids_remove]
  exact List.filter_subset_self _

theorem takeReady (set : ThreadSet) : Advances set set.takeReady.2 := by
  rcases set.takeReady_cases with ⟨taken, _⟩ | ⟨_, _, _, _, _, _, taken⟩ <;>
    rw [taken] <;> exact .of_subset rfl (List.Subset.refl _)

end Advances

end ThreadSet

open ThreadSet (Advances)

namespace Machine

variable {allowed : MachineError → Prop} {machine after : Machine} {program : Program}
  {limits : Limits}

theorem Change.advances (change : Change allowed machine after) :
    Advances machine.threads after.threads := by
  have kept : Advances machine.threads machine.threads := .of_subset rfl (List.Subset.refl _)
  cases change with
  | quiet quiet =>
      rw [quiet.threads]
      exact kept
  | start => exact .spawn ..
  | descend => simpa only using Advances.update machine.threads _ _
  | spawn => exact .spawn ..
  | ascend => simpa only using Advances.update machine.threads _ _
  | finish => exact .remove ..
  | close => exact .remove ..
  | fail =>
      rw [threads_fail]
      exact kept
  | terminate text =>
      rw [Machine.terminate, Machine.stop, threads_fail]
      exact kept
  | take => exact .takeReady _
  | rest => exact .takeReady _
  | _ => exact .of_subset rfl (List.Subset.refl _)

theorem Changes.advances (changes : Changes allowed machine after) :
    Advances machine.threads after.threads := by
  induction changes with
  | refl => exact .of_subset rfl (List.Subset.refl _)
  | tail _ change hypothesis => exact hypothesis.trans change.advances

/-- One of three, and only one. -/
def ExactlyOne (first second third : Prop) : Prop :=
  first ∧ ¬ second ∧ ¬ third ∨ ¬ first ∧ second ∧ ¬ third ∨ ¬ first ∧ ¬ second ∧ third

theorem Steady.exactlyOne (steady : machine.Steady allowed) (going : machine.stopped = false)
    {id : ThreadId} (live : id ∈ machine.threads.ids) :
    ExactlyOne (id ∈ machine.threads.ready) (id ∈ machine.threads.waitingIds)
      (machine.current = some id) := by
  have apart := steady.balanced.ready_apart id live
  have current := steady.balanced.current_apart id
  rcases steady.placed going id live with queued | waits | named
  · exact .inl ⟨queued, apart queued, fun named => (current named).1 queued⟩
  · exact .inr (.inl ⟨fun queued => apart queued waits, waits, fun named => (current named).2 waits⟩)
  · exact .inr (.inr ⟨(current named).1, (current named).2, named⟩)

/-- The threads of every machine that the host or a native function sees: waiting threads are alive
and wait for a tick or more, live threads are queued once at most and not beside waiting, and as
long as the machine has not stopped each is in one place. What is seen later has the older threads
left, and others whose numbers are greater than all before. When an entry from outside a tick comes
back without having stopped, every live thread waits and the queue is empty. -/
theorem Visible.threads_scheduled (visible : Visible program limits machine) :
    (∀ entry ∈ machine.threads.waiting, entry.1 ∈ machine.threads.ids ∧ 1 ≤ entry.2) ∧
    (∀ id ∈ machine.threads.ids, machine.threads.ready.count id ≤ 1 ∧
      ¬ (id ∈ machine.threads.ready ∧ id ∈ machine.threads.waitingIds)) ∧
    (machine.stopped = false → ∀ id ∈ machine.threads.ids,
      ExactlyOne (id ∈ machine.threads.ready) (id ∈ machine.threads.waitingIds)
        (machine.current = some id)) ∧
    (machine.threads.ids.Pairwise fun first second => first.number < second.number) ∧
    (∀ id ∈ machine.threads.ids, id.number < machine.threads.next.number) ∧
    (∀ later, Relation.ReflTransGen (Follows program limits) machine later →
      Advances machine.threads later.threads) ∧
    (Reachable program limits machine → machine.state ≠ .running →
      ∀ fuel event arguments result after,
        machine.run program.natives fuel = some (result, after) ∨
        machine.resume program.natives fuel = some (result, after) ∨
        machine.call program.natives fuel event arguments = some (result, after) →
        after.stopped = false →
        (∀ id ∈ after.threads.ids, id ∈ after.threads.waitingIds) ∧ after.threads.ready = []) := by
  have own : ∀ error : MachineError, ¬ error.IsInternal → True := fun _ _ => trivial
  have honest : program.natives.Honest fun _ => True :=
    fun _ _ _ => Routine.honest_of_forall (fun _ => trivial) _
  have steady := visible.steady own honest
  refine ⟨steady.balanced.waiting_live, fun id live => ⟨steady.balanced.ready_once id live, ?_⟩,
    fun going id live => steady.exactlyOne going live, steady.balanced.ids_sorted,
    steady.balanced.ids_lt, fun later path => ?_, ?_⟩
  · intro given
    obtain ⟨queued, waits⟩ := given
    exact steady.balanced.ready_apart id live queued waits
  · induction path with
    | refl => exact .of_subset rfl (List.Subset.refl _)
    | tail _ follows hypothesis => exact hypothesis.trans (follows.changes own honest).advances
  · intro reachable resting fuel event arguments result after ended going
    obtain ⟨path, rested⟩ : Path program.natives machine after ∧ after.state ≠ .running := by
      rcases ended with ran | resumed | called
      · exact run_path resting ran
      · exact resume_path resting resumed
      · exact call_path own honest steady resting called
    have calm := steady.changes (path.changes own honest steady)
    obtain ⟨turn, queue⟩ := calm.resting rested
    have empty := queue going
    refine ⟨fun id live => ?_, empty⟩
    rcases calm.placed going id live with queued | waits | named
    · rw [empty] at queued
      cases queued
    · exact waits
    · rw [turn] at named
      cases named

/-- The main thread stands in the queue and nowhere else. -/
theorem exactlyOne_closingBegun : Visible closing {} closingBegun ∧
    ExactlyOne (⟨0⟩ ∈ closingBegun.threads.ready) (⟨0⟩ ∈ closingBegun.threads.waitingIds)
      (closingBegun.current = some ⟨0⟩) :=
  ⟨.host reachable_closingBegun, (Visible.threads_scheduled (.host reachable_closingBegun)).2.2.1
    rfl ⟨0⟩ List.mem_cons_self⟩

end Machine

end CoopScript
