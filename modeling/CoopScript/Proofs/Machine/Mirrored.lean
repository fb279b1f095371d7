import CoopScript.Proofs.Actions.Mirroring
import CoopScript.Proofs.Machine.Company

/-!
Runs of a machine among others. Each operation of the host comes to the same as on the machine alone,
at the places of the heap.
-/

namespace CoopScript

open CoopScript.Action (Mirrors MirrorsFrom advanceAmong)

namespace Machine

/-- The machine has come that far and is grounded. -/
structure Evolves (machine after : Machine) : Prop where
  grows : machine.Grows after
  grounded : after.Grounded

namespace Evolves

variable {machine middle after : Machine}

theorem refl (grounded : machine.Grounded) : machine.Evolves machine := ⟨.refl machine, grounded⟩

theorem trans (early : machine.Evolves middle) (late : middle.Evolves after) :
    machine.Evolves after := ⟨early.grows.trans late.grows, late.grounded⟩

theorem of_eq (grounded : machine.Grounded) (script : after.script = machine.script)
    (heap : after.heap = machine.heap) (frames : after.frames = machine.frames) :
    machine.Evolves after := ⟨.of_eq script heap, grounded.of_eq heap frames⟩

end Evolves

end Machine

/-- What comes of an operation among others is what comes of it alone, and the machine evolves. -/
structure Lodging.Agrees {α : Type} (lodging : Lodging) (machine : Machine)
    (alone among : Option (α × Machine)) : Prop where
  same : among = alone.map (Prod.map (fun result => result) lodging.machine)
  evolves : ∀ result after, alone = some (result, after) → machine.Evolves after

/-- A grounded machine of the script that fills its places. -/
structure Lodging.Hosts (lodging : Lodging) (script : Script) (machine : Machine) : Prop where
  grounded : machine.Grounded
  script : machine.script = script
  fits : lodging.size ≤ machine.heap.size

variable {α β : Type} {lodging : Lodging} {natives : Natives} {around : Surroundings}
  {script : Script} {machine middle after : Machine} {alone among : Option (α × Machine)}

namespace Lodging

theorem Hosts.evolve (hosts : lodging.Hosts script machine) (evolves : machine.Evolves after) :
    lodging.Hosts script after where
  grounded := evolves.grounded
  script := evolves.grows.script.trans hosts.script
  fits := hosts.fits.trans evolves.grows.size

namespace Agrees

/-- Neither run comes to an end with so little fuel. -/
theorem unfinished : lodging.Agrees machine (none : Option (α × Machine)) none :=
  ⟨rfl, fun _ _ ended => absurd ended.symm (Option.some_ne_none _)⟩

theorem done (result : α) (evolves : machine.Evolves after) :
    lodging.Agrees machine (some (result, after)) (some (result, lodging.machine after)) := by
  refine ⟨rfl, ?_⟩
  rintro _ _ ⟨⟩
  exact evolves

theorem since (early : machine.Evolves middle) (agrees : lodging.Agrees middle alone among) :
    lodging.Agrees machine alone among :=
  ⟨agrees.same, fun result after ended => early.trans (agrees.evolves result after ended)⟩

theorem map (change : α → β) (agrees : lodging.Agrees machine alone among) :
    lodging.Agrees machine (alone.map (Prod.map change fun machine => machine))
      (among.map (Prod.map change fun machine => machine)) := by
  constructor
  · rw [agrees.same]
    simp only [Option.map_map]
    rfl
  · intro result after ended
    obtain ⟨⟨first, _⟩, held, same⟩ := Option.map_eq_some_iff.mp ended
    cases same
    exact agrees.evolves first _ held

end Agrees

end Lodging

namespace Machine

/-! Moves. -/

theorem afterStep_lodging {before : Machine → Prop} {step step' : Action (Option Slice)}
    (mirrors : MirrorsFrom lodging before (fun result => result) step step') (holds : before machine)
    (fits : lodging.size ≤ machine.heap.size) (id : ThreadId) :
    afterStep id (step'.run (lodging.machine machine)) =
        lodging.machine (afterStep id (step.run machine)) ∧
      machine.Grows (afterStep id (step.run machine)) := by
  have grown := mirrors.grows machine fits machine ⟨holds, .refl machine⟩
  rw [mirrors.run machine holds fits]
  cases ran : step.run machine with
  | error error after =>
      rw [ran] at grown
      refine ⟨?_, grown.trans ((grows_fail error).trans (.of_eq rfl rfl))⟩
      exact congrArg settle (fail_lodging lodging after error)
  | ok slice after =>
      rw [ran] at grown
      cases slice with
      | none => exact ⟨rfl, grown⟩
      | some slice =>
          refine ⟨endSlice_lodging lodging after id slice, grown.trans ?_⟩
          cases slice <;> exact .of_eq rfl rfl

section Among

variable (faithful : natives.Faithful) (uniform : natives.Uniform)
  (suits : lodging.Suits around script)

include faithful uniform suits

theorem move_lodging (hosts : lodging.Hosts script machine) :
    (lodging.machine machine).moveBy (advanceAmong natives around) =
        lodging.machine (machine.move natives) ∧
      machine.Evolves (machine.move natives) := by
  have grounded := hosts.grounded.move faithful
  cases turn : machine.current with
  | some id =>
      have moved : machine.move natives = afterStep id ((Action.advance natives id).run machine) := by
        rw [move, turn]
      obtain ⟨same, grown⟩ :=
        afterStep_lodging (Action.mirrorsFrom_advanceAmong faithful uniform suits id)
          ⟨hosts.grounded, hosts.script⟩ hosts.fits id
      rw [moved] at grounded ⊢
      rw [moveBy, Lodging.current_machine, turn]
      exact ⟨same, grown, grounded⟩
  | none =>
      simp only [moveBy, move, Lodging.current_machine, turn, Lodging.stopped_machine,
        Lodging.threads_machine]
      split
      · exact ⟨rfl, .of_eq hosts.grounded rfl rfl rfl⟩
      · cases machine.threads.takeReady with
        | mk next threads =>
            cases next <;> exact ⟨rfl, .of_eq hosts.grounded rfl rfl rfl⟩

theorem movesBy_lodging (fuel : Nat) (hosts : lodging.Hosts script machine) :
    movesBy (moveBy (advanceAmong natives around)) fuel (lodging.machine machine) =
        (movesBy (move natives) fuel machine).map lodging.machine ∧
      ∀ after, movesBy (move natives) fuel machine = some after → machine.Evolves after := by
  induction fuel generalizing machine with
  | zero => exact ⟨rfl, fun after ended => absurd ended.symm (Option.some_ne_none after)⟩
  | succ fuel hypothesis =>
      obtain ⟨same, evolves⟩ := move_lodging faithful uniform suits hosts
      rw [movesBy, movesBy, Lodging.state_machine, same]
      split
      · obtain ⟨rest, later⟩ := hypothesis (hosts.evolve evolves)
        exact ⟨rest, fun after ended => evolves.trans (later after ended)⟩
      · refine ⟨rfl, ?_⟩
        rintro _ ⟨⟩
        exact .refl hosts.grounded

theorem drainBy_lodging (fuel : Nat) (hosts : lodging.Hosts script machine) :
    lodging.Agrees machine (machine.drainBy (move natives) fuel)
      ((lodging.machine machine).drainBy (moveBy (advanceAmong natives around)) fuel) := by
  have begun : machine.Evolves machine.begin := .of_eq hosts.grounded rfl rfl rfl
  obtain ⟨same, evolves⟩ := movesBy_lodging faithful uniform suits fuel (hosts.evolve begun)
  constructor
  · show (movesBy _ fuel (lodging.machine machine.begin)).map _ = _
    rw [same, drainBy]
    cases movesBy (move natives) fuel machine.begin <;> rfl
  · intro result after ended
    obtain ⟨_, moved, same⟩ := Option.map_eq_some_iff.mp ended
    cases same
    exact begun.trans (evolves _ moved)

/-! Entries of the host. -/

omit uniform suits in
theorem start_evolves (grounded : machine.Grounded) (begun : machine.start = .ok after) :
    machine.Evolves after := by
  have started := grounded.transition faithful (.start begun) nofun
  obtain ⟨_, _, main, block, _, rfl⟩ := started_of_start begun
  exact ⟨.of_eq rfl rfl, started.of_eq rfl rfl⟩

theorem runBy_lodging (fuel : Nat) (hosts : lodging.Hosts script machine) :
    lodging.Agrees machine (machine.runBy (move natives) fuel)
      ((lodging.machine machine).runBy (moveBy (advanceAmong natives around)) fuel) := by
  unfold runBy
  rw [start_lodging]
  cases started : machine.start with
  | error error => exact .done _ (.refl hosts.grounded)
  | ok begun =>
      have evolves := start_evolves faithful hosts.grounded started
      exact (drainBy_lodging faithful uniform suits fuel (hosts.evolve evolves)).since evolves

theorem resumeBy_lodging (fuel : Nat) (hosts : lodging.Hosts script machine) :
    lodging.Agrees machine (machine.resumeBy (move natives) fuel)
      ((lodging.machine machine).resumeBy (moveBy (advanceAmong natives around)) fuel) := by
  have stays (result : Except MachineError TickOutcome) :
      lodging.Agrees machine (some (result, machine)) (some (result, lodging.machine machine)) :=
    .done result (.refl hosts.grounded)
  have ticked : machine.Evolves machine.tick := .of_eq hosts.grounded rfl rfl rfl
  have drained := (drainBy_lodging faithful uniform suits fuel (hosts.evolve ticked)).since ticked
  unfold resumeBy
  rw [Lodging.state_machine, Lodging.stopped_machine]
  split
  · exact stays _
  · exact stays _
  · split
    · exact stays _
    · exact drained

theorem deliverBy_lodging (fuel : Nat) (event : String) (id : BlockId) {arguments : List Value}
    (hosts : lodging.Hosts script machine) (has : ∀ value ∈ arguments, machine.heap.Has value) :
    lodging.Agrees machine (machine.deliverBy (move natives) fuel event id arguments)
      ((lodging.machine machine).deliverBy (moveBy (advanceAmong natives around)) fuel event id
        (arguments.map lodging.value)) := by
  have spawns : Mirrors lodging (fun result => result) (Action.spawnHandler event id arguments)
      (Action.spawnHandler event id (arguments.map lodging.value)) := inferInstance
  have grounds : (Action.spawnHandler event id arguments).Grounds {value | value ∈ arguments} :=
    Action.grounds_spawnHandler event id fun _ inside => inside
  have grown := spawns.always.grows machine hosts.fits
  unfold deliverBy
  rw [spawns.always.run machine trivial hosts.fits]
  cases ran : (Action.spawnHandler event id arguments).run machine with
  | ok result middle =>
      have evolves : machine.Evolves middle := ⟨grown.ok ⟨trivial, .refl machine⟩ ran,
        (grounds.ok ⟨hosts.grounded, has⟩ ran).grounded⟩
      dsimp only [Lodging.result]
      rw [Lodging.state_machine]
      split
      · exact .done _ evolves
      · exact (drainBy_lodging faithful uniform suits fuel (hosts.evolve evolves)).since evolves
  | error error middle =>
      have evolves : machine.Evolves middle := ⟨grown.error ⟨trivial, .refl machine⟩ ran,
        grounds.error ⟨hosts.grounded, has⟩ ran⟩
      have failed : middle.Evolves { middle.fail error with state := .finished } :=
        ⟨(grows_fail error).trans (.of_eq rfl rfl), (evolves.grounded.fail error).of_eq rfl rfl⟩
      dsimp only [Lodging.result]
      rw [Lodging.state_machine, fail_lodging]
      split
      · exact .done _ evolves
      · exact .done _ (evolves.trans failed)

theorem callBy_lodging (fuel : Nat) (event : String) {arguments : List Value}
    (hosts : lodging.Hosts script machine) (has : ∀ value ∈ arguments, machine.heap.Has value) :
    lodging.Agrees machine (machine.callBy (move natives) fuel event arguments)
      ((lodging.machine machine).callBy (moveBy (advanceAmong natives around)) fuel event
        (arguments.map lodging.value)) := by
  have ran := runBy_lodging faithful uniform suits fuel hosts
  unfold callBy
  rw [handler_lodging, List.length_map, Lodging.state_machine, ran.same]
  split
  · exact .done _ (.refl hosts.grounded)
  · next id _ =>
      split
      · cases first : machine.runBy (move natives) fuel with
        | none => exact .unfinished
        | some ended =>
            obtain ⟨result, middle⟩ := ended
            have evolves := ran.evolves result middle first
            cases result with
            | error error => exact .done _ evolves
            | ok outcome =>
                simp only [Option.map_some, Prod.map_apply]
                by_cases stopped : middle.stopped
                · have there : (lodging.machine middle).stopped := stopped
                  rw [if_pos stopped, if_pos there]
                  exact .done _ evolves
                · have there : ¬ (lodging.machine middle).stopped := stopped
                  rw [if_neg stopped, if_neg there]
                  refine (deliverBy_lodging faithful uniform suits fuel event id
                    (hosts.evolve evolves) ?_).since evolves
                  exact fun value inside => (has value inside).mono evolves.grows.size
      · exact deliverBy_lodging faithful uniform suits fuel event id hosts has

end Among

end Machine

/-! Operations. -/

theorem Machine.Grounded.has_global (grounded : machine.Grounded) (slot : Nat) :
    machine.heap.Has (machine.global? slot).join := by
  unfold global?
  cases machine.globals with
  | none => exact machine.heap.has_none
  | some id =>
      simp only [bind, Option.bind]
      cases live : machine.frames.frame? id with
      | none => exact machine.heap.has_none
      | some frame =>
          cases found : frame.slots[slot]? with
          | none => simp only [found]; exact machine.heap.has_none
          | some value =>
              have held := Frame.mem_values_iff.mpr (.inl (Array.mem_of_getElem? found))
              simp only [found]
              exact grounded.within id frame live value held

theorem Machine.join_global?_lodging (slot : Nat) :
    ((lodging.machine machine).global? slot).join = lodging.value (machine.global? slot).join := by
  rw [global?_lodging]
  cases machine.global? slot <;> rfl

/-- The handle that the host passes on names the same value, which is one of the machine's. -/
theorem Argument.pass_lodging (argument : Argument) (hosts : lodging.Hosts script machine) :
    argument.pass (lodging.machine machine) =
        Prod.map lodging.value lodging.machine (argument.pass machine) ∧
      machine.Evolves (argument.pass machine).2 ∧
      (argument.pass machine).2.heap.Has (argument.pass machine).1 := by
  cases argument with
  | fresh datum =>
      have built := Lodging.build_heap datum machine.heap hosts.fits
      have made := Heap.made_build datum machine.heap hosts.grounded.sound
      refine ⟨?_, ⟨⟨rfl, made.extended.size⟩, ?_⟩, made.has⟩
      · simp only [pass, Lodging.heap_machine, built]
        rfl
      · exact hosts.grounded.setHeap made.sound made.extended.size
  | global slot =>
      refine ⟨?_, .refl hosts.grounded, ?_⟩
      · exact Prod.ext (Machine.join_global?_lodging slot) rfl
      · exact hosts.grounded.has_global slot

theorem Machine.overwriteGlobal_lodging (slot : Nat) (source : Value)
    (hosts : lodging.Hosts script machine) :
    (lodging.machine machine).overwriteGlobal slot (lodging.value source) =
      Prod.map (fun result => result) lodging.machine (machine.overwriteGlobal slot source) := by
  unfold overwriteGlobal
  rw [join_global?_lodging]
  exact Request.overwrite_lodging _ source hosts.grounded hosts.fits

/-- What the machine is asked to do with values that it has. -/
theorem Lodging.Hosts.perform (hosts : lodging.Hosts script machine) (request : Request)
    (given : ∀ handle ∈ request.handles, machine.heap.Has handle) :
    machine.Evolves (request.perform machine).2 :=
  ⟨request.grows_perform hosts.fits, request.grounded_perform hosts.grounded given⟩

theorem Lodging.Hosts.overwriteGlobal (hosts : lodging.Hosts script machine) (slot : Nat)
    {source : Value} (has : machine.heap.Has source) :
    machine.Evolves (machine.overwriteGlobal slot source).2 := by
  apply hosts.perform (.overwrite (machine.global? slot).join source)
  intro handle inside
  rcases List.mem_pair.mp inside with rfl | rfl
  · exact hosts.grounded.has_global slot
  · exact has

theorem Argument.passAll_lodging (arguments : List Argument) (hosts : lodging.Hosts script machine) :
    passAll arguments (lodging.machine machine) =
        Prod.map (List.map lodging.value) lodging.machine (passAll arguments machine) ∧
      machine.Evolves (passAll arguments machine).2 ∧
      ∀ value ∈ (passAll arguments machine).1, (passAll arguments machine).2.heap.Has value := by
  induction arguments generalizing machine with
  | nil => exact ⟨rfl, .refl hosts.grounded, nofun⟩
  | cons argument rest hypothesis =>
      obtain ⟨same, evolves, has⟩ := argument.pass_lodging hosts
      obtain ⟨others, later, held⟩ := hypothesis (hosts.evolve evolves)
      refine ⟨?_, evolves.trans later, ?_⟩
      · simp only [passAll, same, Prod.map_fst, Prod.map_snd, others]
        rfl
      · intro value inside
        rcases List.mem_cons.mp inside with rfl | inside
        · exact has.mono later.grows.size
        · exact held value inside

/-- An operation of the host on a machine among others comes to what it comes to alone. -/
theorem Operation.perform_lodging (faithful : natives.Faithful) (uniform : natives.Uniform)
    (suits : lodging.Suits around script) (fuel : Nat) (operation : Operation)
    (hosts : lodging.Hosts script machine) :
    lodging.Agrees machine (operation.perform (Machine.move natives) fuel machine)
      (operation.perform (Machine.moveBy (advanceAmong natives around)) fuel
        (lodging.machine machine)) := by
  cases operation with
  | run => exact (Machine.runBy_lodging faithful uniform suits fuel hosts).map _
  | resume => exact (Machine.resumeBy_lodging faithful uniform suits fuel hosts).map _
  | call event arguments =>
      obtain ⟨same, evolves, has⟩ := Argument.passAll_lodging arguments hosts
      simp only [perform, same]
      exact ((Machine.callBy_lodging faithful uniform suits fuel event (hosts.evolve evolves)
        has).map _).since evolves
  | stop => exact .done _ (hosts.perform .stop nofun)
  | raise text =>
      simp only [perform, Machine.raise_lodging]
      exact .done _ (hosts.perform (.raise text) nofun)
  | terminate text =>
      simp only [perform, Machine.terminate_lodging]
      exact .done _ (hosts.perform (.terminate text) nofun)
  | close thread =>
      simp only [perform, Machine.closeThread_lodging]
      exact .done _ (hosts.perform (.close thread) nofun)
  | overwrite slot source =>
      obtain ⟨same, evolves, has⟩ := source.pass_lodging hosts
      have passed := hosts.evolve evolves
      simp only [perform, same, Prod.map_fst, Prod.map_snd,
        Machine.overwriteGlobal_lodging slot _ passed]
      exact .done _ (evolves.trans (passed.overwriteGlobal slot has))
  | setData data => exact .done _ (hosts.perform (.setData data) nofun)
  | takeJournal => exact .done _ (.of_eq hosts.grounded rfl rfl rfl)

end CoopScript
