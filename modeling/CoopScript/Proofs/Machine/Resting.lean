import CoopScript.Proofs.Machine.Stopping

/-!
Machines at rest. The state of a machine is written where an entry ends and where the host stops it,
while whether the machine is finished is read off its threads. The two agree at the end of every
entry and go on to agree until the host closes the last thread between two ticks.
-/

namespace CoopScript

namespace Machine

variable {allowed : MachineError → Prop} {machine after : Machine} {program : Program}
  {limits : Limits} {natives : Natives} {fuel : Nat} {result : Except MachineError TickOutcome}

/-- The state is the one that goes with the stop of the machine and its threads. -/
structure Truthful (machine : Machine) : Prop where
  finished : machine.state = .finished ↔ machine.isFinished = true
  suspended : machine.state = .suspended ↔
    machine.stopped = false ∧ machine.threads.isEmpty = false

/-- The machine waits for its next tick, but no thread is left that could run in it. -/
structure Deserted (machine : Machine) : Prop where
  suspended : machine.state = .suspended
  going : machine.stopped = false
  empty : machine.threads.isEmpty = true

/-- In a machine between two ticks the state is one of two. -/
theorem truthful_of_iff (begun : machine.state = .suspended ∨ machine.state = .finished)
    (finished : machine.state = .finished ↔
      machine.stopped = true ∨ machine.threads.isEmpty = true) : machine.Truthful := by
  have ended : machine.isFinished = true ↔
      machine.stopped = true ∨ machine.threads.isEmpty = true := by
    rcases begun with state | state <;> simp [isFinished, state]
  refine ⟨finished.trans ended.symm, ?_⟩
  have other : machine.state = .suspended ↔ ¬ machine.state = .finished := by
    rcases begun with state | state <;> simp [state]
  rw [other, finished, not_or, Bool.not_eq_true, Bool.not_eq_true]

/-- A machine that the host stopped, or whose entry met its end, is finished. -/
theorem truthful_of_stopped (state : machine.state = .finished) (stopped : machine.stopped = true) :
    machine.Truthful :=
  truthful_of_iff (.inr state) ⟨fun _ => .inl stopped, fun _ => state⟩

/-- An entry ends with the state that goes with the threads that are left. -/
theorem truthful_settle (machine : Machine) : machine.settle.Truthful := by
  have begun : machine.settle.state = .suspended ∨ machine.settle.state = .finished := by
    simp only [settle]
    split <;> simp
  refine truthful_of_iff begun ?_
  cases stopped : machine.stopped <;> simp [settle, stopped]

namespace Truthful

variable (truthful : machine.Truthful)

include truthful

theorem of_eq (state : after.state = machine.state) (stopped : after.stopped = machine.stopped)
    (threads : after.threads = machine.threads) : after.Truthful := by
  constructor
  · rw [isFinished, state, stopped, threads]
    exact truthful.finished
  · rw [state, stopped, threads]
    exact truthful.suspended

end Truthful

/-! Operations of the host between two ticks. -/

/-- The operation closes the only thread of a machine that waits for its next tick. -/
def Deserts (machine : Machine) (request : Request) : Prop :=
  machine.state = .suspended ∧ ∃ id, request = .close id ∧ machine.threads.ids = [id]

/-- An operation of the host that does not make the machine run. -/
def Operates (machine after : Machine) : Prop :=
  after = machine.clearJournal ∨
    ∃ request : Request, request.isEntry = false ∧ after = (request.perform machine).2

theorem isEmpty_iff_ids (set : ThreadSet) : set.isEmpty = true ↔ set.ids = [] := by
  simp [ThreadSet.isEmpty, ThreadSet.ids]

theorem ids_closeThread (machine : Machine) (id : ThreadId) :
    (machine.closeThread id).2.threads.ids = machine.threads.ids.filter (· ≠ id) := by
  unfold closeThread
  split
  · next missing =>
      refine (List.filter_eq_self.mpr fun other inside => ?_).symm
      rw [decide_eq_true_eq]
      rintro rfl
      obtain ⟨thread, found⟩ := ThreadSet.mem_ids_iff.mp inside
      rw [missing] at found
      cases found
  · exact ThreadSet.ids_remove ..

/-- Everything that an operation between two ticks does to the state, the stop and the threads. -/
theorem perform_cases (begun : machine.state = .suspended ∨ machine.state = .finished)
    {request : Request} (simple : request.isEntry = false) :
    ((request.perform machine).2.state = .finished ∧ (request.perform machine).2.stopped = true) ∨
      ((request.perform machine).2.state = machine.state ∧
        (request.perform machine).2.stopped = machine.stopped ∧
        ((∀ id, request ≠ .close id) ∧ (request.perform machine).2.threads = machine.threads ∨
          ∃ id, request = .close id ∧
            (request.perform machine).2.threads.ids = machine.threads.ids.filter (· ≠ id))) := by
  have resting : ¬(machine.state = .running ∨ machine.state = .idle) := by
    rcases begun with state | state <;> simp [state]
  cases request with
  | run => cases simple
  | resume => cases simple
  | call event arguments => cases simple
  | stop => exact .inl ⟨if_neg resting, rfl⟩
  | raise text => exact .inl ⟨if_neg (by rwa [state_fail]), rfl⟩
  | terminate text => exact .inl ⟨if_neg (by rwa [state_fail]), rfl⟩
  | close id =>
      refine .inr ⟨state_closeThread .., ?_, .inr ⟨id, rfl, ids_closeThread machine id⟩⟩
      simp only [Request.perform, closeThread]
      split <;> rfl
  | overwrite target source =>
      refine .inr ⟨?_, ?_, .inl ⟨fun _ => by simp, ?_⟩⟩ <;>
        · simp only [Request.perform]
          split <;> rfl
  | _ => exact .inr ⟨rfl, rfl, .inl ⟨fun _ => by simp, rfl⟩⟩

section Operations

variable (begun : machine.state = .suspended ∨ machine.state = .finished) {request : Request}
  (simple : request.isEntry = false)

include begun simple

/-- The state goes on to be right, or the last thread was closed. -/
theorem Truthful.perform (truthful : machine.Truthful) (steady : machine.Steady allowed) :
    (request.perform machine).2.Truthful ∨
      machine.Deserts request ∧ (request.perform machine).2.Deserted := by
  rcases perform_cases begun simple with ⟨state, stopped⟩ |
    ⟨state, stopped, ⟨_, threads⟩ | ⟨id, rfl, ids⟩⟩
  · exact .inl (truthful_of_stopped state stopped)
  · exact .inl (truthful.of_eq state stopped threads)
  · have still : (Request.perform (.close id) machine).2.state = .suspended ∨
        (Request.perform (.close id) machine).2.state = .finished := by rwa [state]
    rcases begun with suspended | finished
    · obtain ⟨going, inhabited⟩ := truthful.suspended.mp suspended
      by_cases left : (Request.perform (.close id) machine).2.threads.isEmpty = true
      · refine .inr ⟨⟨suspended, id, rfl, ?_⟩, state.trans suspended, stopped.trans going, left⟩
        rw [isEmpty_iff_ids, ids, List.filter_eq_nil_iff] at left
        have only (other : ThreadId) (inside : other ∈ machine.threads.ids) : other = id := by
          simpa using left other inside
        have distinct : machine.threads.ids.Nodup := by
          refine steady.balanced.ids_sorted.imp ?_
          rintro first _ less rfl
          exact Nat.lt_irrefl _ less
        rw [← Bool.not_eq_true, isEmpty_iff_ids, ← List.length_eq_zero_iff] at inhabited
        have alike := List.eq_replicate_of_mem only
        rw [alike, List.nodup_replicate] at distinct
        rw [alike, Nat.le_antisymm distinct (Nat.pos_of_ne_zero inhabited), List.replicate_one]
      · refine .inl (truthful_of_iff still ?_)
        simp [state, suspended, stopped, going, left]
    · refine .inl (truthful_of_iff still ⟨fun _ => ?_, fun _ => state.trans finished⟩)
      have ended := truthful.finished.mp finished
      simp only [isFinished, finished, Bool.or_eq_true, Bool.and_eq_true] at ended
      rcases ended with halted | ⟨_, empty⟩
      · exact .inl (stopped.trans halted)
      · refine .inr ?_
        rw [isEmpty_iff_ids] at empty ⊢
        rw [ids, empty, List.filter_nil]

/-- A deserted machine stays so until it is stopped. -/
theorem Deserted.perform (deserted : machine.Deserted) :
    (request.perform machine).2.Truthful ∨ (request.perform machine).2.Deserted := by
  rcases perform_cases begun simple with ⟨state, stopped⟩ |
    ⟨state, stopped, ⟨_, threads⟩ | ⟨id, rfl, ids⟩⟩
  · exact .inl (truthful_of_stopped state stopped)
  · exact .inr ⟨state.trans deserted.suspended, stopped.trans deserted.going,
      threads ▸ deserted.empty⟩
  · refine .inr ⟨state.trans deserted.suspended, stopped.trans deserted.going, ?_⟩
    have empty := deserted.empty
    rw [isEmpty_iff_ids] at empty ⊢
    rw [ids, empty, List.filter_nil]

end Operations

/-! Entries. -/

section Entries

variable (own : ∀ error : MachineError, ¬ error.IsInternal → allowed error)
  (honest : natives.Honest allowed)

include own honest

theorem drain_truthful (steady : machine.begin.Steady allowed)
    (ended : machine.drain natives fuel = some (result, after)) : after.Truthful := by
  obtain ⟨last, moved, same⟩ := Option.map_eq_some_iff.mp ended
  cases same
  obtain ⟨before, rfl⟩ := moves_settled own honest steady rfl moved
  exact truthful_settle before

theorem run_truthful (steady : machine.Steady allowed)
    (ended : machine.run natives fuel = some (result, after)) :
    after = machine ∨ after.Truthful := by
  unfold run at ended
  split at ended
  · cases ended
    exact .inl rfl
  · next begun =>
      exact .inr (drain_truthful own honest (steady.changes (start_changes begun)) ended)

theorem resume_truthful (steady : machine.Steady allowed) (resting : machine.state ≠ .running)
    (ended : machine.resume natives fuel = some (result, after)) :
    after = machine ∨ after.Truthful := by
  unfold resume at ended
  split at ended
  · cases ended
    exact .inl rfl
  · next running => exact (resting running).elim
  · next begun _ =>
      split at ended
      · cases ended
        exact .inl rfl
      · next going =>
          have tick : Change allowed machine machine.tick.begin :=
            .tick (begun_of_state resting begun) (Bool.not_eq_true _ ▸ going)
          exact .inr (drain_truthful own honest (steady.change tick) ended)

theorem deliver_truthful (steady : machine.Steady allowed)
    (begun : machine.state = .suspended ∨ machine.state = .finished) {event : String}
    {arguments : List Value} {id : BlockId}
    (handled : machine.handler event arguments.length = .ok id)
    (ended : machine.deliver natives fuel event id arguments = some (result, after)) :
    after.Truthful := by
  have resting : machine.state ≠ .running := by
    rcases begun with state | state <;> simp [state]
  have keeps := keeps_spawnHandler event id arguments machine rfl
  unfold deliver at ended
  split at ended
  · next spawned =>
      rw [spawned] at keeps
      rw [if_neg (keeps.1 ▸ resting)] at ended
      have changes := deliver_changes steady begun (not_stopped_of_handler handled) spawned
      exact drain_truthful own honest (steady.changes changes) ended
  · next refused =>
      rw [refused] at keeps
      rw [if_neg (keeps.1 ▸ resting)] at ended
      cases ended
      exact truthful_of_stopped rfl (stopped_fail ..)

theorem call_truthful (steady : machine.Steady allowed) (resting : machine.state ≠ .running)
    {event : String} {arguments : List Value}
    (ended : machine.call natives fuel event arguments = some (result, after)) :
    after = machine ∨ after.Truthful := by
  unfold call at ended
  split at ended
  · cases ended
    exact .inl rfl
  · next id handled =>
      split at ended
      · split at ended
        · next outcome between ran =>
            obtain ⟨path, rested⟩ := run_path resting ran
            have begun := begun_of_state rested (run_begun own honest steady ran)
            split at ended
            · cases ended
              exact run_truthful own honest steady ran
            · next going =>
                have changes := path.changes own honest steady
                exact .inr (deliver_truthful own honest (steady.changes changes) begun
                  (handler_of_script handled changes.script (Bool.not_eq_true _ ▸ going)) ended)
        · exact run_truthful own honest steady ended
      · next begun =>
          exact .inr (deliver_truthful own honest steady (begun_of_state resting begun) handled
            ended)

end Entries

/-! Sessions. -/

/-- A host closed the last thread of a machine between two ticks and did not let it run since. -/
def Abandoned (program : Program) (limits : Limits) (machine : Machine) : Prop :=
  machine.Deserted ∧ ∃ before request, Reachable program limits before ∧ before.Truthful ∧
    before.Deserts request ∧ Relation.ReflTransGen Operates (request.perform before).2 machine

theorem Abandoned.operates (abandoned : machine.Abandoned program limits)
    (deserted : after.Deserted) (operates : machine.Operates after) :
    after.Abandoned program limits := by
  obtain ⟨_, before, request, reachable, truthful, deserts, since⟩ := abandoned
  exact ⟨deserted, before, request, reachable, truthful, deserts, since.tail operates⟩

/-- An operation leaves a machine that has not started as it is, as far as its state goes. -/
theorem perform_idle (idle : machine.state = .idle) {request : Request}
    (simple : request.isEntry = false) : (request.perform machine).2.state = .idle := by
  have stays (machine : Machine) (idle : machine.state = .idle) : machine.stop.state = .idle := by
    rw [stop, if_pos (.inr idle), idle]
  cases request with
  | run => cases simple
  | resume => cases simple
  | call event arguments => cases simple
  | stop => exact stays machine idle
  | raise text => exact stays _ (by rwa [state_fail])
  | terminate text => exact stays _ (by rwa [state_fail])
  | close id => rwa [Request.perform, state_closeThread]
  | overwrite target source =>
      simp only [Request.perform]
      split <;> exact idle
  | _ => exact idle

/-- Between two ticks the state of a machine is right, or the host has abandoned it. -/
theorem Reachable.truthful_or_abandoned (reachable : Reachable program limits machine)
    (begun : machine.state = .suspended ∨ machine.state = .finished) :
    machine.Truthful ∨ machine.Abandoned program limits := by
  have own : ∀ error : MachineError, ¬ error.IsInternal → True := fun _ _ => trivial
  have honest : program.natives.Honest fun _ => True :=
    fun _ _ _ => Routine.honest_of_forall (fun _ => trivial) _
  induction reachable with
  | initial => rcases begun with state | state <;> cases state
  | @step machine after handed before transition hypothesis =>
      have steady := before.steady own honest
      cases transition with
      | move running =>
          rcases move_settles own honest steady running with goes | ⟨last, settled⟩
          · rw [goes] at begun
            rcases begun with state | state <;> cases state
          · exact .inl (settled ▸ truthful_settle last)
      | start _ => rcases begun with state | state <;> cases state
      | tick _ _ => rcases begun with state | state <;> cases state
      | deliver _ _ _ => rcases begun with state | state <;> cases state
      | reject _ _ _ => exact .inl (truthful_of_stopped rfl (stopped_fail ..))
      | operate request resting simple =>
          have started : machine.state ≠ .idle := by
            intro idle
            rw [perform_idle idle simple] at begun
            rcases begun with state | state <;> cases state
          have rested := begun_of_state resting started
          rcases hypothesis rested with truthful | abandoned
          · refine (truthful.perform rested simple steady).imp_right ?_
            rintro ⟨deserts, deserted⟩
            exact ⟨deserted, machine, request, before, truthful, deserts, .refl⟩
          · exact (abandoned.1.perform rested simple).imp_right
              fun deserted => abandoned.operates deserted (.inr ⟨request, simple, rfl⟩)
      | clear _ =>
          refine (hypothesis begun).imp (fun truthful => truthful.of_eq rfl rfl rfl)
            fun abandoned => ?_
          have deserted := abandoned.1
          exact abandoned.operates ⟨deserted.suspended, deserted.going, deserted.empty⟩ (.inl rfl)

/-- Outside an entry, the state of a machine that has begun goes with its stop and its threads:
finished if it has stopped or no thread is left, suspended if it goes on and a thread is left. The
one exception is a machine whose last thread the host closed between two ticks, until the next entry
or stop: it is suspended although it is finished. Every other operation of the host keeps the state
right, and every entry that does not leave the machine as it was makes it right. -/
theorem Reachable.state_told (reachable : Reachable program limits machine)
    (resting : machine.state ≠ .running) :
    (machine.state ≠ .idle →
      ((machine.state = .finished ↔ machine.isFinished = true) ∧
        (machine.state = .suspended ↔
          machine.stopped = false ∧ machine.threads.isEmpty = false)) ∨
      machine.Abandoned program limits) ∧
    (machine.Truthful → machine.state ≠ .idle → ∀ request : Request, request.isEntry = false →
      ((request.perform machine).2.Truthful ↔ ¬ machine.Deserts request)) ∧
    (∀ fuel event arguments result after,
      machine.run program.natives fuel = some (result, after) ∨
        machine.resume program.natives fuel = some (result, after) ∨
        machine.call program.natives fuel event arguments = some (result, after) →
      after = machine ∨ after.Truthful) := by
  have own : ∀ error : MachineError, ¬ error.IsInternal → True := fun _ _ => trivial
  have honest : program.natives.Honest fun _ => True :=
    fun _ _ _ => Routine.honest_of_forall (fun _ => trivial) _
  have steady := reachable.steady own honest
  refine ⟨fun begun => ?_, fun truthful begun request simple => ⟨?_, ?_⟩, ?_⟩
  · exact (reachable.truthful_or_abandoned (begun_of_state resting begun)).imp_left
      fun truthful => ⟨truthful.finished, truthful.suspended⟩
  · rintro still ⟨suspended, id, rfl, only⟩
    have ids : (Request.perform (.close id) machine).2.threads.ids = [] := by
      rw [Request.perform, ids_closeThread, only]
      simp
    have state := state_closeThread machine id
    have threads := (still.suspended.mp (state.trans suspended)).2
    rw [← Bool.not_eq_true, isEmpty_iff_ids] at threads
    exact threads ids
  · intro spares
    exact (truthful.perform (begun_of_state resting begun) simple steady).resolve_right
      fun deserted => spares deserted.1
  · intro fuel event arguments result after ended
    rcases ended with ran | resumed | called
    · exact run_truthful own honest steady ran
    · exact resume_truthful own honest steady resting resumed
    · exact call_truthful own honest steady resting called

/-! A host that closes the only thread of a program while it waits. -/

def dozing : Program where
  script := {
    blocks := #[{ kind := .sub, level := 0, codes := #[⟨1, .pushValue (.real 1.0)⟩, ⟨1, .wait⟩] }]
    main := some ⟨0⟩ }

/-- The machine as it begins its first tick. -/
def dozingBegun : Machine := ((dozing.machine {}).started ⟨0⟩ dozing.script.blocks[0]).begin

/-- The machine at the end of its first tick. -/
def dozingRested : Machine := (move dozing.natives)^[4] dozingBegun

theorem reachable_dozingRested : Reachable dozing {} dozingRested :=
  (Reachable.step .initial (.start rfl) : Reachable dozing {} dozingBegun).iterate 4
    (by decide +kernel)

/-- The host closes the thread, which leaves a machine that is suspended and finished. -/
theorem closes_last_thread : Reachable dozing {} (Request.perform (.close ⟨0⟩) dozingRested).2 ∧
    (Request.perform (.close ⟨0⟩) dozingRested).2.state = .suspended ∧
    (Request.perform (.close ⟨0⟩) dozingRested).2.isFinished = true ∧
    (Request.perform (.close ⟨0⟩) dozingRested).2.threads.isEmpty = true :=
  ⟨reachable_dozingRested.step (.operate (.close ⟨0⟩) (by decide +kernel) rfl),
    by decide +kernel, by decide +kernel, by decide +kernel⟩

theorem state_told_dozing : dozingRested.state = .suspended ∧ dozingRested.Truthful ∧
    ¬ (Request.perform (.close ⟨0⟩) dozingRested).2.Truthful ∧
    (Request.perform (.close ⟨1⟩) dozingRested).2.Truthful := by
  have suspended : dozingRested.state = .suspended := by decide +kernel
  have threads : dozingRested.threads.ids = [⟨0⟩] := by decide +kernel
  have truthful : dozingRested.Truthful := by
    constructor <;> decide +kernel
  have told := (reachable_dozingRested.state_told (by decide +kernel)).2.1 truthful
    (by decide +kernel)
  refine ⟨suspended, truthful, fun still => ?_, (told (.close ⟨1⟩) rfl).mpr ?_⟩
  · exact (told (.close ⟨0⟩) rfl).mp still ⟨suspended, ⟨0⟩, rfl, threads⟩
  · rintro ⟨_, id, same, only⟩
    cases same
    rw [threads] at only
    cases only

end Machine

end CoopScript
