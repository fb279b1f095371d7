import CoopScript.Proofs.Machine.Closing

/-!
The queue in rounds. A thread that yields stands behind all that are ready, and no thread that is ready
is left out as long as the machine goes on.
-/

namespace CoopScript

open MachineError

namespace Machine

variable {allowed : MachineError → Prop} {machine after last : Machine} {number other : ThreadId}
  {natives : Natives} {count fuel : Nat}

/-- Some of so many moves closes the thread. -/
def ClosesWithin (natives : Natives) (count : Nat) (machine : Machine) (id : ThreadId) : Prop :=
  ∃ further < count, (machine.moved natives further).Closes natives id

theorem ClosesWithin.later (running : machine.state = .running)
    (closes : ClosesWithin natives count (machine.move natives) other) :
    ClosesWithin natives (count + 1) machine other := by
  obtain ⟨further, early, closes⟩ := closes
  refine ⟨further + 1, Nat.succ_lt_succ early, ?_⟩
  rw [moved, if_pos running]
  exact closes

theorem moved_succ (natives : Natives) (count : Nat) (machine : Machine) :
    machine.moved natives (count + 1) =
      if (machine.moved natives count).state = .running then
        (machine.moved natives count).move natives
      else machine.moved natives count := by
  induction count generalizing machine with
  | zero => rfl
  | succ count hypothesis =>
      rw [moved]
      conv_rhs => rw [moved]
      split
      · exact hypothesis _
      · rfl

theorem turns_succ (natives : Natives) (count : Nat) (machine : Machine) :
    machine.turns natives (count + 1) =
      machine.turns natives count ++ (machine.moved natives count).turn?.toList := by
  induction count generalizing machine with
  | zero =>
      simp only [turns, moved, List.nil_append, List.append_nil]
      split
      · rfl
      · next resting => simp [turn?, resting]
  | succ count hypothesis =>
      rw [turns, hypothesis]
      conv_rhs => rw [turns, moved]
      split
      · rw [List.append_assoc]
      · next resting => simp [turn?, resting]

/-- The move with which a turn begins. -/
theorem move_of_turn (natives : Natives) (next : machine.turn? = some number) :
    machine.state = .running ∧ machine.stopped = false ∧ machine.move natives =
      { machine with current := some number, threads := machine.threads.takeReady.2 } := by
  unfold turn? at next
  split at next
  · next ready =>
      obtain ⟨running, turn, alive⟩ := ready
      refine ⟨running, alive, ?_⟩
      simp only [move, turn, alive, Bool.false_eq_true, if_false]
      split
      · next taken =>
          rw [taken] at next
          cases next
          rw [taken]
      · next taken =>
          rw [taken] at next
          cases next
  · cases next

section Sessions

variable (own : ∀ error : MachineError, ¬ error.IsInternal → allowed error)
  (honest : natives.Honest allowed)

include own honest

/-- A move brings a thread to work only by giving it its turn. -/
theorem current_of_move (steady : machine.Steady allowed) (running : machine.state = .running)
    (current : (machine.move natives).current = some other) :
    machine.current = some other ∨ machine.turn? = some other := by
  cases turn : machine.current with
  | none =>
      simp only [move, turn] at current
      split at current
      · cases current
      · next alive =>
          rw [turn?, if_pos ⟨running, turn, Bool.not_eq_true _ ▸ alive⟩]
          split at current
          · next taken =>
              rw [taken]
              exact .inr current
          · cases current
  | some number =>
      have ended := Action.advance_achieves own honest steady turn machine rfl
      simp only [move, turn] at current
      cases ran : (Action.advance natives number).run machine with
      | error error after =>
          rw [ran] at current
          cases current
      | ok slice after =>
          rw [ran] at current ended
          obtain ⟨_, _, same, _⟩ := ended
          cases slice with
          | none => exact .inl (turn.symm.trans (same.symm.trans current))
          | some slice => cases slice <;> cases current

/-- A thread is at work after some moves only if it was before or has had a turn. -/
theorem current_moved (steady : machine.Steady allowed)
    (current : (machine.moved natives count).current = some other) :
    machine.current = some other ∨ other ∈ machine.turns natives count := by
  induction count generalizing machine with
  | zero => exact .inl current
  | succ count hypothesis =>
      rw [moved] at current
      rw [turns]
      split
      · next running =>
          rw [if_pos running] at current
          have steadily := steady.changes (move_changes own honest steady running)
          rcases hypothesis steadily current with begun | later
          · rcases current_of_move own honest steady running begun with before | begins
            · exact .inl before
            · exact .inr (List.mem_append_left _ (by simp [begins]))
          · exact .inr (List.mem_append_right _ later)
      · next resting =>
          rw [if_neg resting] at current
          exact .inl current

/-- A thread that is not at work has a turn, or it lives on or is closed. -/
theorem mem_ids_moved (steady : machine.Steady allowed) (idle : machine.current ≠ some other)
    (going : (machine.moved natives count).stopped = false) (inside : other ∈ machine.threads.ids) :
    other ∈ machine.turns natives count ∨ other ∈ (machine.moved natives count).threads.ids ∨
      ClosesWithin natives count machine other := by
  induction count generalizing machine with
  | zero => exact .inr (.inl inside)
  | succ count hypothesis =>
      rw [turns]
      rw [moved] at going ⊢
      split
      · next running =>
          rw [if_pos running] at going
          have steadily := steady.changes (move_changes own honest steady running)
          have goes : (machine.move natives).stopped = false := by
            by_contra stops
            obtain ⟨_, still⟩ := turns_of_stopped natives count (Bool.not_eq_false _ ▸ stops)
            exact Bool.false_ne_true (going.symm.trans still)
          by_cases begins : machine.turn? = some other
          · exact .inl (List.mem_append_left _ (by simp [begins]))
          have still : (machine.move natives).current ≠ some other := fun begun =>
            (current_of_move own honest steady running begun).elim idle begins
          rcases mem_ids_move steady goes idle inside with stays | closes
          · rcases hypothesis steadily still going stays with turn | lives | closes
            · exact .inl (List.mem_append_right _ turn)
            · exact .inr (.inl lives)
            · exact .inr (.inr (closes.later running))
          · exact .inr (.inr ⟨0, Nat.succ_pos _, closes⟩)
      · exact .inr (.inl inside)

/-- A drain that ends without a stop leaves out no thread of the queue that it does not close. -/
theorem turn_of_ready (steady : machine.Steady allowed) (ended : moves natives fuel machine = some after)
    (going : after.stopped = false) (ready : other ∈ machine.threads.ready)
    (inside : other ∈ machine.threads.ids) :
    other ∈ machine.turns natives fuel ∨ ClosesWithin natives fuel machine other := by
  obtain ⟨reached, pending, first, others, serves⟩ :=
    serves_of_prefix own honest steady fuel (List.prefix_rfl (l := machine.threads.ready))
  have last := moved_of_moves ended
  have rests := (moves_path ended).2
  have none : pending = [] := serves.all (.inr (last ▸ ⟨rests, going⟩))
  by_cases turn : other ∈ machine.turns natives fuel
  · exact .inl turn
  have missing : other ∉ first := fun had => turn (serves.turns ▸ List.mem_append_left _ had)
  have gone := (serves.gone other (by simpa [serves.queue, none] using ready) missing).2
  have idle : machine.current ≠ some other := fun turn =>
    (steady.balanced.current_apart other turn).1 ready
  rcases mem_ids_moved own honest steady idle (last ▸ going) inside with had | lives | closes
  · exact absurd had turn
  · exact absurd lives gone
  · exact .inr closes

/-- Before a thread has its next turn, all have theirs that were ready in its last one and are not
closed. -/
theorem turn_before (steady : machine.Steady allowed) (turn : machine.current = some number)
    (ready : other ∈ machine.threads.ready) (inside : other ∈ machine.threads.ids)
    (next : (machine.moved natives count).turn? = some number) :
    other ∈ machine.turns natives count ∨ ClosesWithin natives count machine other := by
  obtain ⟨running, alive, moves⟩ := move_of_turn natives next
  obtain ⟨reached, pending, first, others, serves⟩ :=
    serves_of_prefix own honest steady (count + 1) (List.prefix_rfl (l := machine.threads.ready))
  have later : machine.moved natives (count + 1) = (machine.moved natives count).move natives := by
    rw [moved_succ, if_pos running]
  have turns : machine.turns natives count ++ [number] = first ++ others := by
    rw [← serves.turns, turns_succ, next]
    rfl
  have apart := (steady.balanced.current_apart number turn).1
  have different : other ≠ number := fun same => apart (same ▸ ready)
  -- The turn of the thread itself is none of those that the queue gets.
  have more : others ≠ [] := by
    rintro rfl
    have last : number ∈ first := by
      rw [List.append_nil] at turns
      exact turns ▸ List.mem_append_right _ (List.mem_singleton_self _)
    exact apart (serves.queue ▸ List.mem_append_left _ (serves.order.subset last))
  have none : pending = [] := serves.all (.inl more)
  by_cases had : other ∈ machine.turns natives count
  · exact .inl had
  have missing : other ∉ first := by
    intro early
    have within : other ∈ machine.turns natives count ++ [number] :=
      turns ▸ List.mem_append_left _ early
    exact (List.mem_append.mp within).elim had fun last => different (List.mem_singleton.mp last)
  have gone := (serves.gone other (by simpa [serves.queue, none] using ready) missing).2
  rw [later, moves] at gone
  have idle : machine.current ≠ some other := fun same => different (Option.some.inj (same.symm.trans turn))
  rcases mem_ids_moved own honest steady idle alive inside with turn | lives | closes
  · exact absurd turn had
  · exact absurd ((ThreadSet.ids_takeReady _).symm ▸ lives) gone
  · exact .inr closes

omit own honest in
/-- While threads are at work no turn begins. -/
theorem turns_of_busy (natives : Natives)
    (busy : ∀ further < count, (machine.moved natives further).current ≠ none) :
    machine.turns natives count = [] := by
  induction count with
  | zero => rfl
  | succ count hypothesis =>
      have none : (machine.moved natives count).turn? = none :=
        if_neg fun next => busy count (Nat.lt_succ_self _) next.2.1
      rw [turns_succ, none, hypothesis fun further early => busy further (early.trans (Nat.lt_succ_self _))]
      rfl

omit own honest in
/-- The call of a handler that succeeds puts a new thread at the end of the queue. -/
theorem queued_of_call {event : String} {arguments : List Value} {outcome : TickOutcome}
    (called : Request.perform (.call event arguments) machine = (.ok outcome, after)) :
    after.threads.ready = machine.threads.ready ++ [machine.threads.next] ∧
      machine.threads.next ∈ after.threads.ids := by
  have spawned (root : FrameId) : machine.threads.next ∈ (machine.threads.spawn root).2.ids := by
    rw [ThreadSet.ids_spawn]
    exact List.mem_append_right _ (List.mem_singleton_self _)
  simp only [Request.perform, enqueue] at called
  split at called
  · cases called
  · next id _ =>
      rw [run_spawnHandler, Action.run_launch] at called
      cases found : machine.script.block? id with
      | none =>
          simp only [found] at called
          cases called
      | some block =>
          cases maximum : machine.limits.maxThreads with
          | none =>
              simp only [found, maximum] at called
              cases called
              exact ⟨rfl, spawned _⟩
          | some limit =>
              by_cases many : limit ≤ machine.threads.size
              · simp only [found, maximum, if_pos many] at called
                cases called
              · simp only [found, maximum, if_neg many] at called
                cases called
                exact ⟨rfl, spawned _⟩

/-- What a native function finds in the queue has a turn before a drain ends without a stop, unless it
is closed. -/
theorem turn_of_seen (steady : machine.Steady allowed) {routine rest : Routine (Except MachineError Value)}
    {start seen : Machine} (invokes : Invokes natives machine routine start)
    (comes : routine.Comes start rest seen) (ended : moves natives fuel machine = some after)
    (going : after.stopped = false) (ready : other ∈ seen.threads.ready)
    (inside : other ∈ seen.threads.ids) :
    other ∈ machine.turns natives fuel ∨ ClosesWithin natives fuel machine other := by
  obtain ⟨running, _, _⟩ := invokes.quiet honest steady
  have steadily := steady.changes (move_changes own honest steady running)
  cases fuel with
  | zero => cases ended
  | succ fuel =>
      rw [moves, if_pos running] at ended
      have last := moved_of_moves ended
      have goes : (machine.move natives).stopped = false := by
        by_contra stops
        obtain ⟨_, still⟩ := turns_of_stopped natives fuel (Bool.not_eq_false _ ▸ stops)
        rw [last] at still
        exact Bool.false_ne_true (going.symm.trans still)
      obtain ⟨queue, stays⟩ := stays_of_comes own honest steady invokes comes goes other
      rcases stays inside with lives | closes
      · rw [turns, if_pos running]
        rcases turn_of_ready own honest steadily ended going (queue.subset ready) lives with had | closes
        · exact .inl (List.mem_append_right _ had)
        · exact .inr (closes.later running)
      · exact .inr ⟨0, Nat.succ_pos _, closes⟩

end Sessions

variable {program : Program} {limits : Limits}

/-- The ready threads have their turns in rounds, at any moment of a drain. When a thread that is at
work has its next turn, say because it yields now, then each thread that is ready now has had one
before, or a native function has closed it. When the drain ends and the machine is not stopped, all
threads that are ready now, or that a native function finds ready in the next move, have had a turn
or were closed. So has the handler of every event that a native function calls. Its thread stands at
the end of the queue, and it is at work only in a turn of its own, after the turn of the caller. -/
theorem Reachable.rounds (reachable : Reachable program limits machine) :
    (∀ number, machine.current = some number → ∀ other ∈ machine.threads.ready,
      other ∈ machine.threads.ids → ∀ count,
      (machine.moved program.natives count).turn? = some number →
      other ∈ machine.turns program.natives count ∨
        ClosesWithin program.natives count machine other) ∧
    (∀ fuel after, moves program.natives fuel machine = some after → after.stopped = false →
      ∀ other,
        (other ∈ machine.threads.ready ∧ other ∈ machine.threads.ids ∨
          ∃ routine start rest seen, Invokes program.natives machine routine start ∧
            routine.Comes start rest seen ∧ other ∈ seen.threads.ready ∧ other ∈ seen.threads.ids) →
        other ∈ machine.turns program.natives fuel ∨
          ClosesWithin program.natives fuel machine other) ∧
    ∀ routine start event arguments next seen outcome called,
      Invokes program.natives machine routine start →
      routine.Comes start (.ask (.call event arguments) next) seen →
      Request.perform (.call event arguments) seen = (.ok outcome, called) →
      called.threads.ready = seen.threads.ready ++ [seen.threads.next] ∧
      seen.threads.next ∈ called.threads.ids ∧
      (∀ fuel after, moves program.natives fuel machine = some after → after.stopped = false →
        seen.threads.next ∈ machine.turns program.natives fuel ∨
          ClosesWithin program.natives fuel machine seen.threads.next) ∧
      ∀ count, (machine.moved program.natives count).current = some seen.threads.next →
        seen.threads.next ∈ machine.turns program.natives count ∧
        ∃ further < count, (machine.moved program.natives further).current = none := by
  have own : ∀ error : MachineError, ¬ error.IsInternal → True := fun _ _ => trivial
  have honest : program.natives.Honest fun _ => True :=
    fun _ _ _ => Routine.honest_of_forall (fun _ => trivial) _
  have steady := reachable.steady own honest
  refine ⟨fun number turn other ready inside count next =>
    turn_before own honest steady turn ready inside next, ?_, ?_⟩
  · intro fuel after ended going other queued
    rcases queued with ⟨ready, inside⟩ | ⟨routine, start, rest, seen, invokes, comes, ready, inside⟩
    · exact turn_of_ready own honest steady ended going ready inside
    · exact turn_of_seen own honest steady invokes comes ended going ready inside
  · intro routine start event arguments next seen outcome called invokes comes performed
    obtain ⟨queue, lives⟩ := queued_of_call performed
    have later : routine.Comes start (next (.ok outcome)) called := by
      refine Comes.trans comes (.later ?_)
      rw [performed]
      exact .here
    refine ⟨queue, lives, ?_, ?_⟩
    · intro fuel after ended going
      exact turn_of_seen own honest steady invokes later ended going (queue ▸ by simp) lives
    · intro count current
      have new : machine.current ≠ some seen.threads.next := by
        intro same
        obtain ⟨running, quiet, blameless⟩ := invokes.quiet honest steady
        have served := (Comes.served own (steady.quiet quiet) (quiet.state.trans running) blameless
          comes).1.next
        rw [quiet.threads] at served
        exact Nat.not_lt.mpr served (steady.balanced.current_lt _ same)
      have begun := (current_moved own honest steady current).resolve_left new
      refine ⟨begun, ?_⟩
      by_contra busy
      have none := turns_of_busy program.natives fun further early idle =>
        busy ⟨further, early, idle⟩
      rw [none] at begun
      cases begun

/-! A native function that calls an event. -/

def hailing : Program where
  script := {
    blocks := #[
      { kind := .sub, level := 0, codes := #[⟨1, .call (.native ⟨0⟩) 0⟩, ⟨2, .yield⟩] },
      { kind := .sub, level := 1, codes := #[⟨3, .nop⟩] }]
    main := some ⟨0⟩
    events := [("hail", ⟨1⟩)] }
  natives := #[{
    name := "hail"
    arity := none
    body := fun _ => .ask (.call "hail" []) fun _ => .done (.ok none) }]

/-- The machine as the main thread is about to call the function. -/
def hailingReady : Machine :=
  (((hailing.machine {}).started ⟨0⟩ hailing.script.blocks[0]).begin).move hailing.natives

/-- The handler has its turn between those of the main thread. -/
theorem rounds_hailing : Reachable hailing {} hailingReady ∧
    hailingReady.turns hailing.natives 9 = [⟨1⟩, ⟨0⟩] ∧
    (⟨1⟩ ∈ hailingReady.turns hailing.natives 9 ∨
      ClosesWithin hailing.natives 9 hailingReady ⟨1⟩) := by
  have reachable : Reachable hailing {} hailingReady := .step (.step .initial (.start rfl)) (.move rfl)
  have ends : (moves hailing.natives 9 hailingReady).map Machine.stopped = some false := by
    decide +kernel
  obtain ⟨after, ended, going⟩ := Option.map_eq_some_iff.mp ends
  have invokes : Invokes hailing.natives hailingReady
      (.ask (.call "hail" []) fun _ => .done (.ok none)) _ := .intro rfl rfl rfl rfl rfl rfl
  obtain ⟨_, _, turn, _⟩ := reachable.rounds.2.2 _ _ "hail" [] _ _ .suspended _ invokes .here rfl
  exact ⟨reachable, by decide +kernel, turn 9 after ended going⟩

end Machine

end CoopScript
