import Mathlib.Algebra.Group.Action.Defs
import CoopScript.Proofs.Machine.Draining
import CoopScript.Proofs.Machine.Scope

/-!
Entries under a limit of instructions. The count begins anew with each run of the ready threads. An
entry is one such run, except that the call of an event in a machine that has not started is two: its
first tick and the handler.
-/

namespace CoopScript

open MachineError

/-- A way for the host to make a machine run. -/
inductive Entry where
  | run
  | resume
  | call (event : String) (arguments : List Value)

namespace Entry

/-- What comes of an entry, if it takes fewer moves than the fuel in each run of the ready threads. -/
def enter (natives : Natives) (fuel : Nat) (machine : Machine) :
    Entry → Option (Except MachineError TickOutcome × Machine)
  | run => machine.run natives fuel
  | resume => machine.resume natives fuel
  | call event arguments => machine.call natives fuel event arguments

/-- The machine as it begins to run a handler. -/
def delivers (event : String) (id : BlockId) (arguments : List Value) (machine : Machine) :
    List Machine :=
  match (Action.spawnHandler event id arguments).run machine with
  | .ok _ spawned => [spawned.begin]
  | .error _ _ => []

/-- The machine as it begins its first tick. -/
def starts (machine : Machine) : List Machine :=
  match machine.start with
  | .ok started => [started.begin]
  | .error _ => []

/-- The machines that begin to run the ready threads in an entry. -/
def drains (natives : Natives) (fuel : Nat) (machine : Machine) : Entry → List Machine
  | run => starts machine
  | resume =>
    if machine.state ≠ .idle ∧ machine.stopped = false then [machine.tick.begin] else []
  | call event arguments =>
    match machine.handler event arguments.length with
    | .error _ => []
    | .ok id =>
      if machine.state = .idle then
        starts machine ++
          match machine.run natives fuel with
          | some (.ok _, between) =>
            if between.stopped then [] else delivers event id arguments between
          | _ => []
      else delivers event id arguments machine

/-- The instructions that are executed between the begin and the end of an entry. -/
def executed (natives : Natives) (fuel : Nat) (machine : Machine) (entry : Entry) : Nat :=
  ((entry.drains natives fuel machine).map (Machine.executed natives fuel)).sum

end Entry

namespace Machine

variable {allowed : MachineError → Prop} {program : Program} {limits : Limits}
  {machine after begun : Machine} {natives : Natives} {fuel limit : Nat}
  {result : Except MachineError TickOutcome}

/-- A run of the ready threads that keeps to a limit: it executes what it needs, and if that is too
much, the entry that it belongs to fails. -/
structure Within (natives : Natives) (fuel limit : Nat) (begun : Machine)
    (result : Except MachineError TickOutcome) (after : Machine) : Prop where
  instructions : begun.instructions = 0
  executed_le : begun.executed natives fuel ≤ limit
  executed_eq : begun.needed natives fuel ≤ limit →
    begun.executed natives fuel = begun.needed natives fuel
  fails : limit < begun.needed natives fuel →
    result = .error (.instructionLimitExceeded limit) ∧ after.state = .finished

/-- A run that succeeds keeps to the limit whatever the entry does later. -/
theorem Within.earlier {outcome : TickOutcome} {between : Machine}
    (within : Within natives fuel limit begun (.ok outcome) between) :
    Within natives fuel limit begun result after where
  instructions := within.instructions
  executed_le := within.executed_le
  executed_eq := within.executed_eq
  fails := fun beyond => nomatch (within.fails beyond).1

section Entries

variable (own : ∀ error : MachineError, ¬ error.IsInternal → allowed error)
  (honest : natives.Honest allowed)

include own honest

theorem drain_within (steady : machine.begin.Steady allowed) (candid : machine.begin.Candid)
    (limited : machine.limits.instructionLimit = some limit)
    (ended : machine.drain natives fuel = some (result, after)) :
    Within natives fuel limit machine.begin result after := by
  obtain ⟨last, moved, same⟩ := Option.map_eq_some_iff.mp ended
  have most : machine.begin.executed natives fuel ≤ limit - machine.begin.instructions :=
    executed_le own honest steady limited
  have cases := needed_cases own honest steady candid limited moved
  rw [show limit - machine.begin.instructions = limit from rfl] at most cases
  refine ⟨rfl, most, fun enough => ?_, fun beyond => ?_⟩
  · rcases cases with all | ⟨more, full, _⟩
    · exact all.symm
    · omega
  · rcases cases with all | ⟨_, _, met⟩
    · omega
    · cases same
      exact drain_fails own honest steady candid ended met

theorem run_within (steady : machine.Steady allowed) (candid : machine.Candid)
    (limited : machine.limits.instructionLimit = some limit)
    (ended : machine.run natives fuel = some (result, after)) :
    ∀ begun ∈ Entry.starts machine, Within natives fuel limit begun result after := by
  intro begun inside
  unfold Entry.starts at inside
  unfold run at ended
  split at inside
  · next started starts =>
      rw [starts] at ended
      obtain rfl := List.mem_singleton.mp inside
      have changes : Changes allowed machine started.begin := start_changes starts
      exact drain_within own honest (steady.changes changes) (changes.candid candid)
        ((congrArg Limits.instructionLimit changes.limits).trans limited) ended
  · cases inside

theorem resume_within (steady : machine.Steady allowed) (candid : machine.Candid)
    (limited : machine.limits.instructionLimit = some limit) (resting : machine.state ≠ .running)
    (ended : machine.resume natives fuel = some (result, after)) :
    ∀ begun ∈ Entry.drains natives fuel machine .resume,
      Within natives fuel limit begun result after := by
  intro begun inside
  simp only [Entry.drains] at inside
  split at inside
  · next going =>
      obtain ⟨started, going⟩ := going
      obtain rfl := List.mem_singleton.mp inside
      have state := begun_of_state resting started
      have drains : machine.resume natives fuel = machine.tick.drain natives fuel := by
        rcases state with state | state <;> simp [resume, state, going]
      have tick : Change allowed machine machine.tick.begin := .tick state going
      exact drain_within own honest (steady.change tick) (tick.candid.2 candid) limited
        (drains ▸ ended)
  · cases inside

theorem deliver_within (steady : machine.Steady allowed) (candid : machine.Candid)
    (limited : machine.limits.instructionLimit = some limit)
    (rested : machine.state = .suspended ∨ machine.state = .finished) {event : String}
    {arguments : List Value} {id : BlockId}
    (handled : machine.handler event arguments.length = .ok id)
    (ended : machine.deliver natives fuel event id arguments = some (result, after)) :
    ∀ begun ∈ Entry.delivers event id arguments machine,
      Within natives fuel limit begun result after := by
  intro begun inside
  have resting : machine.state ≠ .running := by
    rcases rested with state | state <;> simp [state]
  have keeps := keeps_spawnHandler event id arguments machine rfl
  unfold Entry.delivers at inside
  unfold deliver at ended
  split at inside
  · next spawned ran =>
      rw [ran] at keeps ended
      obtain rfl := List.mem_singleton.mp inside
      dsimp only at ended
      rw [if_neg (keeps.1 ▸ resting)] at ended
      have changes := deliver_changes steady rested (not_stopped_of_handler handled) ran
      exact drain_within own honest (steady.changes changes) (changes.candid candid)
        ((congrArg Limits.instructionLimit changes.limits).trans limited) ended
  · cases inside

theorem call_within (steady : machine.Steady allowed) (candid : machine.Candid)
    (limited : machine.limits.instructionLimit = some limit) (resting : machine.state ≠ .running)
    {event : String} {arguments : List Value}
    (ended : machine.call natives fuel event arguments = some (result, after)) :
    ∀ begun ∈ Entry.drains natives fuel machine (.call event arguments),
      Within natives fuel limit begun result after := by
  intro begun inside
  simp only [Entry.drains] at inside
  unfold call at ended
  cases handled : machine.handler event arguments.length with
  | error error =>
      rw [handled] at inside
      cases inside
  | ok id =>
      rw [handled] at inside ended
      dsimp only at inside ended
      split at inside
      · next idle =>
          rw [if_pos idle] at ended
          cases ran : machine.run natives fuel with
          | none =>
              rw [ran] at ended
              cases ended
          | some first =>
              obtain ⟨outcome, between⟩ := first
              rw [ran] at ended inside
              have within := run_within own honest steady candid limited ran
              cases outcome with
              | error error =>
                  cases ended
                  exact within begun (by simpa using inside)
              | ok outcome =>
                  dsimp only at ended inside
                  rcases List.mem_append.mp inside with early | late
                  · exact (within begun early).earlier
                  · split at late
                    · cases late
                    · next going =>
                        rw [if_neg going] at ended
                        obtain ⟨path, rested⟩ := run_path resting ran
                        have changes := path.changes own honest steady
                        exact deliver_within own honest (steady.changes changes)
                          (changes.candid candid)
                          ((congrArg Limits.instructionLimit changes.limits).trans limited)
                          (begun_of_state rested (run_begun own honest steady ran))
                          (handler_of_script handled changes.script (Bool.not_eq_true _ ▸ going))
                          ended begun late
      · next started =>
          rw [if_neg started] at ended
          exact deliver_within own honest steady candid limited (begun_of_state resting started)
            handled ended begun inside

/-- Every run of the ready threads in an entry keeps to the limit. -/
theorem enter_within (steady : machine.Steady allowed) (candid : machine.Candid)
    (limited : machine.limits.instructionLimit = some limit) (resting : machine.state ≠ .running)
    {entry : Entry} (ended : entry.enter natives fuel machine = some (result, after)) :
    ∀ begun ∈ entry.drains natives fuel machine, Within natives fuel limit begun result after := by
  cases entry with
  | run => exact run_within own honest steady candid limited ended
  | resume => exact resume_within own honest steady candid limited resting ended
  | call event arguments => exact call_within own honest steady candid limited resting ended

end Entries

/-! Entries end. -/

section Fuel

variable {more : Nat} (enough : fuel ≤ more)

include enough

theorem drain_of_le (ended : machine.drain natives fuel = some (result, after)) :
    machine.drain natives more = some (result, after) := by
  obtain ⟨last, moved, same⟩ := Option.map_eq_some_iff.mp ended
  exact Option.map_eq_some_iff.mpr ⟨last, moves_of_le moved enough, same⟩

theorem run_of_le (ended : machine.run natives fuel = some (result, after)) :
    machine.run natives more = some (result, after) := by
  unfold run at ended ⊢
  split at ended
  · exact ended
  · exact drain_of_le enough ended

theorem deliver_of_le {event : String} {id : BlockId} {arguments : List Value}
    (ended : machine.deliver natives fuel event id arguments = some (result, after)) :
    machine.deliver natives more event id arguments = some (result, after) := by
  unfold deliver at ended ⊢
  split at ended
  · split at ended
    · next running => rwa [if_pos running]
    · next resting =>
        rw [if_neg resting]
        exact drain_of_le enough ended
  · exact ended

end Fuel

section Returns

variable (own : ∀ error : MachineError, ¬ error.IsInternal → allowed error)
  (honest : natives.Honest allowed)

include own honest

theorem drain_returns (steady : machine.begin.Steady allowed)
    (limited : machine.limits.instructionLimit = some limit) :
    ∃ fuel ended, machine.drain natives fuel = some ended := by
  obtain ⟨fuel, last, moved⟩ := moves_return own honest steady limited
  exact ⟨fuel, (last.outcome, last), by rw [drain, moved, Option.map_some]⟩

theorem run_returns (steady : machine.Steady allowed)
    (limited : machine.limits.instructionLimit = some limit) :
    ∃ fuel ended, machine.run natives fuel = some ended := by
  cases starts : machine.start with
  | error error => exact ⟨0, (.error error, machine), by rw [run, starts]⟩
  | ok started =>
      have changes : Changes allowed machine started.begin := start_changes starts
      obtain ⟨fuel, ended, drained⟩ := drain_returns own honest (steady.changes changes)
        ((congrArg Limits.instructionLimit changes.limits).trans limited)
      refine ⟨fuel, ended, ?_⟩
      rw [run, starts]
      exact drained

theorem resume_returns (steady : machine.Steady allowed)
    (limited : machine.limits.instructionLimit = some limit) :
    ∃ fuel ended, machine.resume natives fuel = some ended := by
  have ticks (state : machine.state = .suspended ∨ machine.state = .finished) :
      ∃ fuel ended, (if machine.stopped then some (.ok .finished, machine)
        else machine.tick.drain natives fuel) = some ended := by
    cases stopped : machine.stopped with
    | true => exact ⟨0, _, rfl⟩
    | false => exact drain_returns own honest (steady.change (.tick state stopped)) limited
  unfold resume
  cases state : machine.state with
  | idle => exact ⟨0, _, rfl⟩
  | running => exact ⟨0, _, rfl⟩
  | suspended => exact ticks (.inl state)
  | finished => exact ticks (.inr state)

theorem deliver_returns (steady : machine.Steady allowed)
    (limited : machine.limits.instructionLimit = some limit)
    (rested : machine.state = .suspended ∨ machine.state = .finished) {event : String}
    {arguments : List Value} {id : BlockId}
    (handled : machine.handler event arguments.length = .ok id) :
    ∃ fuel ended, machine.deliver natives fuel event id arguments = some ended := by
  have resting : machine.state ≠ .running := by
    rcases rested with state | state <;> simp [state]
  have keeps := keeps_spawnHandler event id arguments machine rfl
  unfold deliver
  cases ran : (Action.spawnHandler event id arguments).run machine with
  | error error refused =>
      rw [ran] at keeps
      exact ⟨0, _, if_neg (keeps.1 ▸ resting)⟩
  | ok _ spawned =>
      rw [ran] at keeps
      have changes := deliver_changes steady rested (not_stopped_of_handler handled) ran
      obtain ⟨fuel, ended, drained⟩ := drain_returns own honest (steady.changes changes)
        ((congrArg Limits.instructionLimit changes.limits).trans limited)
      exact ⟨fuel, ended, (if_neg (keeps.1 ▸ resting)).trans drained⟩

theorem call_returns (steady : machine.Steady allowed)
    (limited : machine.limits.instructionLimit = some limit) (resting : machine.state ≠ .running)
    (event : String) (arguments : List Value) :
    ∃ fuel ended, machine.call natives fuel event arguments = some ended := by
  unfold call
  cases handled : machine.handler event arguments.length with
  | error error => exact ⟨0, _, rfl⟩
  | ok id =>
      by_cases idle : machine.state = .idle
      · obtain ⟨fuel, ⟨outcome, between⟩, ran⟩ := run_returns own honest steady limited
        cases outcome with
        | error error => exact ⟨fuel, (.error error, between), by simp only [if_pos idle, ran]⟩
        | ok outcome =>
            cases stopped : between.stopped with
            | true =>
                exact ⟨fuel, (.error .halted, between), by
                  simp only [if_pos idle, ran, stopped, if_true]⟩
            | false =>
                obtain ⟨path, rested⟩ := run_path resting ran
                have changes := path.changes own honest steady
                obtain ⟨further, ended, delivered⟩ := deliver_returns own honest
                  (steady.changes changes)
                  ((congrArg Limits.instructionLimit changes.limits).trans limited)
                  (begun_of_state rested (run_begun own honest steady ran))
                  (handler_of_script handled changes.script stopped)
                -- The larger fuel is enough for both runs.
                refine ⟨max fuel further, ended, ?_⟩
                simp only [if_pos idle, run_of_le (le_max_left ..) ran, stopped, Bool.false_eq_true,
                  if_false]
                exact deliver_of_le (le_max_right ..) delivered
      · obtain ⟨fuel, ended, delivered⟩ := deliver_returns own honest steady limited
          (begun_of_state resting idle) handled
        exact ⟨fuel, ended, by simp only [if_neg idle, delivered]⟩

/-- Under a limit, every entry returns. -/
theorem enter_returns (steady : machine.Steady allowed)
    (limited : machine.limits.instructionLimit = some limit) (resting : machine.state ≠ .running)
    (entry : Entry) : ∃ fuel ended, entry.enter natives fuel machine = some ended := by
  cases entry with
  | run => exact run_returns own honest steady limited
  | resume => exact resume_returns own honest steady limited
  | call event arguments => exact call_returns own honest steady limited resting event arguments

end Returns

/-! How many runs there are. -/

theorem length_starts (machine : Machine) : (Entry.starts machine).length ≤ 1 := by
  unfold Entry.starts
  split <;> simp

theorem length_delivers (event : String) (id : BlockId) (arguments : List Value)
    (machine : Machine) : (Entry.delivers event id arguments machine).length ≤ 1 := by
  unfold Entry.delivers
  split <;> simp

theorem length_drains (natives : Natives) (fuel : Nat) (machine : Machine) (entry : Entry) :
    (entry.drains natives fuel machine).length ≤ 2 ∧
      ((∀ event arguments, entry = .call event arguments → machine.state ≠ .idle) →
        (entry.drains natives fuel machine).length ≤ 1) := by
  cases entry with
  | run =>
      have one := machine.length_starts
      exact ⟨one.trans (by decide), fun _ => one⟩
  | resume =>
      simp only [Entry.drains]
      split <;> simp
  | call event arguments =>
      simp only [Entry.drains]
      split
      · simp
      · next id _ =>
          split
          · next idle =>
              refine ⟨?_, fun started => (started event arguments rfl idle).elim⟩
              rw [List.length_append]
              refine (Nat.add_le_add machine.length_starts (?_ : _ ≤ 1)).trans le_rfl
              split
              · split
                · simp
                · exact length_delivers ..
              · simp
          · have one := length_delivers event id arguments machine
            exact ⟨one.trans (by decide), fun _ => one⟩

theorem Reachable.limits_eq (reachable : Reachable program limits machine) :
    machine.limits = limits := by
  have own : ∀ error : MachineError, ¬ error.IsInternal → True := fun _ _ => trivial
  have honest : program.natives.Honest fun _ => True :=
    fun _ _ _ => Routine.honest_of_forall (fun _ => trivial) _
  induction reachable with
  | initial => rfl
  | step before transition hypothesis =>
      exact (transition.changes own honest (before.steady own honest)).limits.trans hypothesis

/-- Under a limit every entry returns. Every run of the ready threads that it makes executes at most
so many instructions, all that it needs if the limit allows for them, and if it needs more the entry
returns that the limit is exceeded. So an entry executes no more than the limit, except for the call
of an event in a machine that has not started, which makes two such runs and has twice the limit. -/
theorem Reachable.entry_limited (reachable : Reachable program limits machine)
    (resting : machine.state ≠ .running) (limited : limits.instructionLimit = some limit)
    (entry : Entry) :
    (∃ fuel ended, entry.enter program.natives fuel machine = some ended) ∧
    ∀ fuel result after, entry.enter program.natives fuel machine = some (result, after) →
      (∀ begun ∈ entry.drains program.natives fuel machine,
        begun.executed program.natives fuel ≤ limit ∧
        (begun.needed program.natives fuel ≤ limit →
          begun.executed program.natives fuel = begun.needed program.natives fuel) ∧
        (limit < begun.needed program.natives fuel →
          result = .error (.instructionLimitExceeded limit) ∧ after.state = .finished)) ∧
      ((∀ event arguments, entry = .call event arguments → machine.state ≠ .idle) →
        entry.executed program.natives fuel machine ≤ limit) ∧
      entry.executed program.natives fuel machine ≤ 2 * limit := by
  have own : ∀ error : MachineError, ¬ error.IsInternal → True := fun _ _ => trivial
  have honest : program.natives.Honest fun _ => True :=
    fun _ _ _ => Routine.honest_of_forall (fun _ => trivial) _
  have steady := reachable.steady own honest
  rw [← reachable.limits_eq] at limited
  refine ⟨enter_returns own honest steady limited resting entry, fun fuel result after ended => ?_⟩
  have within := enter_within own honest steady (reachable.candid own honest) limited resting ended
  have total : entry.executed program.natives fuel machine ≤
      (entry.drains program.natives fuel machine).length * limit := by
    have each : ∀ count ∈ (entry.drains program.natives fuel machine).map
        (Machine.executed program.natives fuel), count ≤ limit := by
      intro count inside
      obtain ⟨begun, member, rfl⟩ := List.mem_map.mp inside
      exact (within begun member).executed_le
    have sum := List.sum_le_card_nsmul _ limit each
    rwa [List.length_map, smul_eq_mul] at sum
  obtain ⟨two, one⟩ := length_drains program.natives fuel machine entry
  refine ⟨fun begun inside => ?_, fun started => ?_, ?_⟩
  · have kept := within begun inside
    exact ⟨kept.executed_le, kept.executed_eq, kept.fails⟩
  · exact total.trans ((Nat.mul_le_mul_right limit (one started)).trans (Nat.one_mul limit).le)
  · exact total.trans (Nat.mul_le_mul_right limit two)

/-! A call that starts the machine. -/

def hitting : Program where
  script := {
    blocks := #[
      { kind := .sub, level := 0, codes := #[⟨1, .nop⟩] },
      { kind := .sub, level := 1, codes := #[⟨2, .nop⟩] }]
    main := some ⟨0⟩
    events := [("hit", ⟨1⟩)] }

/-- The call executes two instructions under a limit of one, and finishes. -/
theorem calls_beyond_limit : Reachable hitting { instructionLimit := some 1 }
      (hitting.machine { instructionLimit := some 1 }) ∧
    (Entry.call "hit" []).executed hitting.natives 9
      (hitting.machine { instructionLimit := some 1 }) = 2 ∧
    ((Entry.call "hit" []).enter hitting.natives 9
      (hitting.machine { instructionLimit := some 1 })).map (fun ended => ended.1.toOption) =
        some (some .finished) :=
  ⟨.initial, by decide +kernel, by decide +kernel⟩

theorem entry_limited_hitting : ∃ fuel ended,
    (Entry.call "hit" []).enter hitting.natives fuel
      (hitting.machine { instructionLimit := some 1 }) = some ended ∧
    (Entry.call "hit" []).executed hitting.natives fuel
      (hitting.machine { instructionLimit := some 1 }) ≤ 2 * 1 := by
  obtain ⟨⟨fuel, ended, returned⟩, limited⟩ :=
    Reachable.entry_limited (.initial : Reachable hitting { instructionLimit := some 1 } _) nofun rfl
      (.call "hit" [])
  exact ⟨fuel, ended, returned, (limited fuel _ _ returned).2.2⟩

/-! Everything that a run does comes to an end. -/

end Machine

end CoopScript
