import CoopScript.Proofs.Machine.Lineage
import CoopScript.Proofs.Machine.Scheduling

/-!
Which threads have a turn in an entry of the host, and in which order. Those that stand in the queue
as the entry begins come first, each as long as it lives, whatever else joins the queue meanwhile.
-/

namespace CoopScript

open MachineError

namespace ThreadSet

/-- What the next turn leaves of the threads at the head of the queue. -/
theorem takeReady_head {set : ThreadSet} {queue : List ThreadId} (head : queue <+: set.ready) :
    (∀ id ∈ queue, id ∉ set.ids) ∨
      ∃ gone id later rest, queue = gone ++ id :: later ∧ (∀ other ∈ gone, other ∉ set.ids) ∧
        later <+: rest ∧ set.takeReady = (some id, { set with ready := rest }) := by
  have dead {id : ThreadId} (missing : set.contains id = false) : id ∉ set.ids := fun live => by
    rw [contains_iff_mem_ids.mpr live] at missing
    cases missing
  rcases set.takeReady_cases with ⟨_, lost⟩ | ⟨gone, id, rest, same, live, lost, taken⟩
  · exact .inl fun id inside => dead (lost id (head.subset inside))
  · have within : gone ++ [id] <+: set.ready := ⟨rest, by simp [same]⟩
    have parts : queue <+: gone ∨ gone ++ [id] <+: queue := by
      rcases List.prefix_or_prefix_of_prefix head within with short | long
      · rcases List.prefix_concat_iff.mp short with equal | shorter
        · exact .inr (equal ▸ List.prefix_rfl)
        · exact .inl shorter
      · exact .inr long
    rcases parts with short | ⟨later, rfl⟩
    · exact .inl fun other inside => dead (lost other (short.subset inside))
    · rw [List.append_assoc, List.singleton_append] at head ⊢
      rw [same, List.prefix_append_right_inj, List.cons_prefix_cons] at head
      exact .inr ⟨gone, id, later, rest, rfl, fun other inside => dead (lost other inside), head.2, taken⟩

end ThreadSet

namespace Machine

variable {allowed : MachineError → Prop} {machine after : Machine} {number : ThreadId}
  {natives : Natives} {fuel count : Nat}

/-- The thread whose turn begins with the next move. -/
def turn? (machine : Machine) : Option ThreadId :=
  if machine.state = .running ∧ machine.current = none ∧ machine.stopped = false then
    machine.threads.takeReady.1
  else none

/-- The threads whose turns begin within so many moves, in their order. A machine that does not run
does not move. -/
def turns (natives : Natives) : Nat → Machine → List ThreadId
  | 0, _ => []
  | count + 1, machine =>
    if machine.state = .running then
      machine.turn?.toList ++ turns natives count (machine.move natives)
    else []

/-- The machine after so many moves, or as it came to rest before. -/
def moved (natives : Natives) : Nat → Machine → Machine
  | 0, machine => machine
  | count + 1, machine =>
    if machine.state = .running then moved natives count (machine.move natives) else machine

/-- What the threads at the head of a queue get in some moves of a machine: those that it came to
had their turns one after another, or they were gone before. It came to all of them before anything
else had a turn, and before it went to rest without a stop. -/
structure Serves (natives : Natives) (count : Nat) (machine : Machine)
    (queue reached pending first others : List ThreadId) : Prop where
  queue : queue = reached ++ pending
  turns : machine.turns natives count = first ++ others
  order : first.Sublist reached
  gone : ∀ id ∈ reached, id ∉ first →
    id ∉ others ∧ id ∉ (machine.moved natives count).threads.ids
  all : others ≠ [] ∨ (machine.moved natives count).state ≠ .running ∧
    (machine.moved natives count).stopped = false → pending = []

/-! Machines that do not go on. -/

theorem turns_of_rests (natives : Natives) (count : Nat) (resting : machine.state ≠ .running) :
    machine.turns natives count = [] ∧ machine.moved natives count = machine := by
  cases count with
  | zero => exact ⟨rfl, rfl⟩
  | succ count => exact ⟨if_neg resting, if_neg resting⟩

theorem turns_of_stopped (natives : Natives) (count : Nat) (stopped : machine.stopped = true) :
    machine.turns natives count = [] ∧ (machine.moved natives count).stopped = true := by
  induction count generalizing machine with
  | zero => exact ⟨rfl, stopped⟩
  | succ count hypothesis =>
      have none : machine.turn? = none := if_neg fun turn => by simp [stopped] at turn
      obtain ⟨still, later⟩ := hypothesis (stopped_move natives stopped)
      simp only [turns, moved, none, still]
      split
      · exact ⟨rfl, later⟩
      · exact ⟨rfl, stopped⟩

section Sessions

variable (own : ∀ error : MachineError, ¬ error.IsInternal → allowed error)
  (honest : natives.Honest allowed)

include own honest

/-- A thread that is gone has no turn any more and does not come back. -/
theorem absent_of_gone (steady : machine.Steady allowed) (count : Nat) {id : ThreadId}
    (old : id.number < machine.threads.next.number) (gone : id ∉ machine.threads.ids) :
    id ∉ machine.turns natives count ∧ id ∉ (machine.moved natives count).threads.ids := by
  induction count generalizing machine with
  | zero => exact ⟨List.not_mem_nil, gone⟩
  | succ count hypothesis =>
      unfold turns moved
      split
      · next running =>
          have moves := move_changes own honest steady running
          have still : id ∉ (machine.move natives).threads.ids := fun live =>
            (moves.advances.older id live).elim gone (Nat.not_le.mpr old)
          obtain ⟨later, lost⟩ := hypothesis (steady.changes moves)
            (old.trans_le moves.advances.next_le) still
          refine ⟨fun turn => (List.mem_append.mp turn).elim (fun next => ?_) later, lost⟩
          have taken : machine.threads.takeReady.1 = some id := by
            simp only [turn?, Option.mem_toList] at next
            split at next
            · exact next
            · cases next
          rcases machine.threads.takeReady_cases with ⟨same, _⟩ | ⟨_, _, _, _, live, _, same⟩
          · rw [same] at taken
            cases taken
          · rw [same] at taken
            cases taken
            exact gone (ThreadSet.contains_iff_mem_ids.mp live)
      · exact ⟨List.not_mem_nil, gone⟩

/-- While a thread has its turn, others join the queue at its end only. -/
theorem queue_of_move (steady : machine.Steady allowed) {id : ThreadId}
    (turn : machine.current = some id) (going : (machine.move natives).stopped = false) :
    machine.threads.ready <+: (machine.move natives).threads.ready := by
  have alive : machine.stopped = false := going_of_iterate 1 going
  obtain ⟨slice, last, ran, moved⟩ := advance_of_move turn going
  have grown : machine.threads.ready <+: last.threads.ready := by
    cases found : machine.threads.find? id with
    | none =>
        simp only [Action.advance, EStateM.run_bind, EStateM.run_get, alive, Bool.false_eq_true,
          if_false, found] at ran
        cases ran
        exact List.prefix_rfl
    | some entry =>
        obtain ⟨stack, stacked⟩ := steady.stacked found
        obtain ⟨frame, outer, rfl, _⟩ := stacked.current found
        obtain ⟨⟨line, spares⟩, _⟩ := Action.advance_strides own honest
          ⟨steady, turn, found⟩ alive stacked ran
        exact spares.queue
  rw [moved]
  cases slice with
  | none => exact grown
  | some slice =>
      cases slice with
      | yielded => exact grown.trans (List.prefix_append ..)
      | _ => exact grown

variable {queue reached pending first others : List ThreadId}

omit own honest in
/-- Nothing has a turn, and the machine does not rest without a stop. -/
theorem Serves.nothing (turns : machine.turns natives count = [])
    (rest : (machine.moved natives count).state ≠ .running →
      (machine.moved natives count).stopped = false → queue = []) :
    Serves natives count machine queue [] queue [] [] where
  queue := rfl
  turns := turns
  order := .refl []
  gone := nofun
  all := fun ended => ended.elim (fun some => (some rfl).elim) fun ended => rest ended.1 ended.2

/-- Threads that are gone are reached at once. -/
theorem Serves.of_gone (steady : machine.Steady allowed) (count : Nat)
    (old : ∀ id ∈ queue, id.number < machine.threads.next.number)
    (gone : ∀ id ∈ queue, id ∉ machine.threads.ids) :
    Serves natives count machine queue queue [] [] (machine.turns natives count) where
  queue := (List.append_nil queue).symm
  turns := rfl
  order := List.nil_sublist queue
  gone := fun id inside _ => absent_of_gone own honest steady count (old id inside) (gone id inside)
  all := fun _ => rfl

omit own honest in
/-- A move with which no turn begins. -/
theorem Serves.move (running : machine.state = .running) (none : machine.turn? = none)
    (serves : Serves natives count (machine.move natives) queue reached pending first others) :
    Serves natives (count + 1) machine queue reached pending first others := by
  have same : machine.turns natives (count + 1) = (machine.move natives).turns natives count := by
    rw [Machine.turns, if_pos running, none]
    rfl
  have moves : machine.moved natives (count + 1) = (machine.move natives).moved natives count :=
    if_pos running
  exact ⟨serves.queue, same.trans serves.turns, serves.order, moves ▸ serves.gone,
    moves ▸ serves.all⟩

/-- A move with which a turn begins, after threads that are gone. -/
theorem Serves.take (steady : machine.Steady allowed) (running : machine.state = .running)
    {gone : List ThreadId} (lost : ∀ other ∈ gone,
      other.number < machine.threads.next.number ∧ other ∉ machine.threads.ids)
    (taken : machine.turn? = some number)
    (serves : Serves natives count (machine.move natives) queue reached pending first others) :
    Serves natives (count + 1) machine (gone ++ number :: queue) (gone ++ number :: reached) pending
      (number :: first) others := by
  have same : machine.turns natives (count + 1) =
      number :: (machine.move natives).turns natives count := by
    rw [Machine.turns, if_pos running, taken]
    rfl
  have moves : machine.moved natives (count + 1) = (machine.move natives).moved natives count :=
    if_pos running
  constructor
  case queue => rw [serves.queue, List.append_assoc, List.cons_append]
  case turns => rw [same, serves.turns, List.cons_append]
  case order => exact (serves.order.cons_cons number).trans (List.sublist_append_right ..)
  case gone =>
    intro id inside missing
    obtain ⟨different, missing⟩ := not_or.mp (mt List.mem_cons.mpr missing)
    rw [moves]
    rcases List.mem_append.mp inside with early | later
    · obtain ⟨absent, away⟩ := absent_of_gone own honest steady (count + 1) (lost id early).1
        (lost id early).2
      rw [same, serves.turns] at absent
      exact ⟨fun turn => absent (List.mem_cons_of_mem _ (List.mem_append_right _ turn)), moves ▸ away⟩
    · exact serves.gone id ((List.mem_cons.mp later).resolve_left different) missing
  case all => exact moves ▸ serves.all

/-- The threads at the head of the queue are served first. -/
theorem serves_of_prefix (steady : machine.Steady allowed) (count : Nat)
    (head : queue <+: machine.threads.ready) :
    ∃ reached pending first others,
      Serves natives count machine queue reached pending first others := by
  -- Only where a turn begins does the queue lose its head; in all other moves it stays a prefix.
  induction count generalizing machine queue with
  | zero =>
      refine ⟨_, _, _, _, .nothing rfl fun resting going => List.prefix_nil.mp ?_⟩
      exact (steady.resting resting).2 going ▸ head
  | succ count hypothesis =>
      by_cases running : machine.state = .running
      · have steadily := steady.changes (move_changes own honest steady running)
        cases turn : machine.current with
        | some id =>
            have none : machine.turn? = none := if_neg fun next => by simp [turn] at next
            by_cases stops : (machine.move natives).stopped = true
            · obtain ⟨nothing, stopped⟩ := turns_of_stopped natives count stops
              exact ⟨_, _, _, _, .move running none (.nothing nothing (by simp [stopped]))⟩
            · have behind := queue_of_move own honest steady turn (Bool.not_eq_true _ ▸ stops)
              obtain ⟨_, _, _, _, serves⟩ := hypothesis steadily (head.trans behind)
              exact ⟨_, _, _, _, serves.move running none⟩
        | none =>
            by_cases stops : machine.stopped = true
            · obtain ⟨nothing, stopped⟩ := turns_of_stopped natives (count + 1) stops
              exact ⟨_, _, _, _, .nothing nothing (by simp [stopped])⟩
            · have old : ∀ id ∈ queue, id.number < machine.threads.next.number :=
                fun id inside => steady.balanced.ready_lt id (head.subset inside)
              rcases ThreadSet.takeReady_head head with
                lost | ⟨gone, id, later, rest, rfl, lost, behind, taken⟩
              · exact ⟨_, _, _, _, .of_gone own honest steady _ old lost⟩
              · have next : machine.turn? = some id := by
                  rw [turn?, if_pos ⟨running, turn, Bool.not_eq_true _ ▸ stops⟩, taken]
                have moves : (machine.move natives).threads.ready = rest := by
                  simp only [move, turn, stops, taken, Bool.false_eq_true, if_false]
                obtain ⟨_, _, _, _, serves⟩ := hypothesis steadily (moves ▸ behind)
                have early : ∀ other ∈ gone, other.number < machine.threads.next.number ∧
                    other ∉ machine.threads.ids :=
                  fun other inside => ⟨old other (List.mem_append_left _ inside), lost other inside⟩
                exact ⟨_, _, _, _, .take own honest steady running early next serves⟩
      · obtain ⟨none, same⟩ := turns_of_rests natives (count + 1) running
        refine ⟨_, _, _, _, .nothing none fun resting going => List.prefix_nil.mp ?_⟩
        rw [same] at resting going
        exact (steady.resting resting).2 going ▸ head

end Sessions

section Entries

variable {queue reached pending first others : List ThreadId}

/-- A thread of a queue in ascending order has had a turn, or it is gone, or only threads before it
have had turns and the machine still runs or has stopped. -/
theorem Serves.turn_of_mem (serves : Serves natives count machine queue reached pending first others)
    (sorted : queue.Pairwise fun first second => first.number < second.number)
    (inside : number ∈ queue) :
    number ∈ machine.turns natives count ∨ number ∉ (machine.moved natives count).threads.ids ∨
      ((machine.moved natives count).state = .running ∨
        (machine.moved natives count).stopped = true) ∧
      ∀ other ∈ machine.turns natives count, other ∈ queue ∧ other.number < number.number := by
  rw [serves.queue, List.pairwise_append] at sorted
  rcases List.mem_append.mp (serves.queue ▸ inside) with early | late
  · by_cases turn : number ∈ first
    · exact .inl (serves.turns ▸ List.mem_append_left _ turn)
    · exact .inr (.inl (serves.gone number early turn).2)
  · have left : pending ≠ [] := List.ne_nil_of_mem late
    obtain ⟨alone, going⟩ := not_or.mp (mt serves.all left)
    rw [serves.turns, not_not.mp alone, List.append_nil]
    refine .inr (.inr ⟨?_, fun other turn => ?_⟩)
    · by_contra rests
      obtain ⟨resting, alive⟩ := not_or.mp rests
      exact going ⟨resting, Bool.not_eq_true _ ▸ alive⟩
    · have before := serves.order.subset turn
      exact ⟨serves.queue ▸ List.mem_append_left _ before, sorted.2.2 other before number late⟩

theorem moved_of_moves (ended : moves natives fuel machine = some after) :
    machine.moved natives fuel = after := by
  induction fuel generalizing machine with
  | zero => cases ended
  | succ fuel hypothesis =>
      unfold moves at ended
      unfold moved
      split at ended
      · next running =>
          rw [if_pos running]
          exact hypothesis ended
      · next resting =>
          rw [if_neg resting]
          exact Option.some.inj ended

/-- An entry that counts a tick makes moves until the machine rests. -/
theorem moved_of_resume (begun : machine.state = .suspended ∨ machine.state = .finished)
    (going : machine.stopped = false) {result : Except MachineError TickOutcome}
    (ended : machine.resume natives fuel = some (result, after)) :
    machine.tick.begin.moved natives fuel = after ∧ after.state ≠ .running := by
  have drains : machine.resume natives fuel = machine.tick.drain natives fuel := by
    rcases begun with state | state <;> simp [resume, state, going]
  rw [drains] at ended
  obtain ⟨_, moved, same⟩ := Option.map_eq_some_iff.mp ended
  cases same
  exact ⟨moved_of_moves moved, (moves_path moved).2⟩

end Entries

end Machine

end CoopScript
