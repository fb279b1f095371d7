import CoopScript.Proofs.Machine.Liveness

/-!
Internal errors do not happen: whatever a program, its native functions and the host do, every frame
that is named is alive when it is used.
-/

namespace CoopScript

open FrameArena MachineError

namespace Machine

variable {allowed : MachineError → Prop} {machine after : Machine} {program : Program}
  {limits : Limits} {natives : Natives} {fuel : Nat} {number : ThreadId}
  {result : Except MachineError TickOutcome} {error : MachineError}

/-! What the host is told. -/

section Entries

variable (own : ∀ error : MachineError, ¬ error.IsInternal → allowed error)

theorem Steady.outcome_allowed (steady : machine.Steady allowed)
    (failed : machine.outcome = .error error) : allowed error := by
  unfold outcome at failed
  split at failed
  · next recorded _ =>
      cases failed
      exact steady.blameless _ recorded
  · cases failed

include own in
theorem start_allowed (failed : machine.start = .error error) : allowed error := by
  refine own error fun internal => ?_
  obtain ⟨description, rfl⟩ := internal.runtime
  rw [start_eq] at failed
  split at failed
  · cases failed
  · split at failed
    · cases failed
    · split at failed
      · cases failed
      · split at failed <;> cases failed

variable (honest : natives.Honest allowed)

include own honest

theorem drain_allowed (steady : machine.begin.Steady allowed)
    (ended : machine.drain natives fuel = some (.error error, after)) : allowed error := by
  obtain ⟨path, _, failed⟩ := drain_path ended
  exact (steady.changes (path.changes own honest steady)).outcome_allowed failed.symm

theorem run_allowed (steady : machine.Steady allowed)
    (ended : machine.run natives fuel = some (.error error, after)) : allowed error := by
  unfold run at ended
  split at ended
  · next failed =>
      cases ended
      exact start_allowed own failed
  · next begun => exact drain_allowed own honest (steady.changes (start_changes begun)) ended

theorem resume_allowed (steady : machine.Steady allowed) (resting : machine.state ≠ .running)
    (ended : machine.resume natives fuel = some (.error error, after)) : allowed error := by
  unfold resume at ended
  split at ended
  · cases ended
    exact own _ (not_isInternal rfl)
  · next running => exact (resting running).elim
  · next begun _ =>
      split at ended
      · cases ended
      · next going =>
          exact drain_allowed own honest (steady.change (.tick (begun_of_state resting begun)
            (Bool.not_eq_true _ ▸ going))) ended

theorem deliver_allowed (steady : machine.Steady allowed)
    (begun : machine.state = .suspended ∨ machine.state = .finished) {event : String}
    {arguments : List Value} {id : BlockId}
    (handled : machine.handler event arguments.length = .ok id)
    (ended : machine.deliver natives fuel event id arguments = some (.error error, after)) :
    allowed error := by
  have resting : machine.state ≠ .running := by
    rcases begun with suspended | finished <;> simp_all
  have keeps := keeps_spawnHandler event id arguments machine rfl
  unfold deliver at ended
  split at ended
  · next spawned =>
      rw [spawned] at keeps
      rw [if_neg (keeps.1 ▸ resting)] at ended
      exact drain_allowed own honest (steady.changes
        (deliver_changes steady begun (not_stopped_of_handler handled) spawned)) ended
  · next refused =>
      rw [refused] at keeps
      rw [if_neg (keeps.1 ▸ resting)] at ended
      cases ended
      exact (reject_changes own steady begun refused).2

theorem call_allowed (steady : machine.Steady allowed) (resting : machine.state ≠ .running)
    {event : String} {arguments : List Value}
    (ended : machine.call natives fuel event arguments = some (.error error, after)) :
    allowed error := by
  unfold call at ended
  split at ended
  · next failed =>
      cases ended
      exact machine.handler_allowed own failed
  · next id handled =>
      split at ended
      · split at ended
        · next outcome between ran =>
            split at ended
            · cases ended
              exact own _ (not_isInternal rfl)
            · next going =>
                obtain ⟨path, rested⟩ := run_path resting ran
                have changes := path.changes own honest steady
                exact deliver_allowed own honest (steady.changes changes)
                  (begun_of_state rested (run_begun own honest steady ran))
                  (handler_of_script handled changes.script (Bool.not_eq_true _ ▸ going)) ended
        · exact run_allowed own honest steady ended
      · next begun => exact deliver_allowed own honest steady (begun_of_state resting begun) handled ended

end Entries

/-! What happens inside. -/

/-- The code of a live frame is found, so that only the limit keeps an instruction from it. -/
theorem Steady.fetch_error (steady : machine.Steady allowed) {id : FrameId} {frame : Frame}
    (live : machine.frames.frame? id = some frame)
    (failed : (Action.fetch id).run machine = .error error after) :
    ∃ limit, error = .instructionLimitExceeded limit := by
  obtain ⟨block, found, _⟩ := steady.coherent.activates id frame live
  rw [Action.run_fetch live found] at failed
  split at failed
  · cases failed
  · dsimp only at failed
    split at failed
    · split at failed
      · next limit _ _ =>
          cases failed
          exact ⟨limit, rfl⟩
      · cases failed
    · cases failed

/-- With natives that return no internal errors of their own, in every machine that the host or a
native function sees: every frame that a thread, a live frame or the globals name is alive, no
internal error is on record, no step of a thread raises one, fetching an instruction fails at most
by the limit, and neither native functions nor the host are told of an internal error. -/
theorem Visible.never_internal (honest : program.natives.Honest fun error => ¬ error.IsInternal)
    (visible : Visible program limits machine) :
    ((∀ number thread, machine.threads.find? number = some thread →
        machine.frames.Live thread.root ∧ machine.frames.Live thread.current) ∧
      (∀ id frame parent, machine.frames.frame? id = some frame → frame.parent = some parent →
        machine.frames.Live parent) ∧
      (∀ id, machine.globals = some id → machine.frames.Live id)) ∧
    (∀ error, machine.error = some error → ¬ error.IsInternal) ∧
    (∀ number error after, machine.current = some number →
      (Action.advance program.natives number).run machine = .error error after →
      ¬ error.IsInternal) ∧
    (∀ number thread error after, machine.threads.find? number = some thread →
      (Action.fetch thread.current).run machine = .error error after →
      ∃ limit, error = .instructionLimitExceeded limit) ∧
    (∀ request, machine.state = .running →
      Request.Allows (fun error => ¬ error.IsInternal) request (request.perform machine).1) ∧
    (machine.state ≠ .running → ∀ fuel event arguments error after,
      machine.run program.natives fuel = some (.error error, after) ∨
      machine.resume program.natives fuel = some (.error error, after) ∨
      machine.call program.natives fuel event arguments = some (.error error, after) →
      ¬ error.IsInternal) := by
  have own : ∀ error : MachineError, ¬ error.IsInternal → ¬ error.IsInternal := fun _ => id
  have steady := visible.steady own honest
  have coherent := steady.coherent
  refine ⟨⟨fun number thread found => ⟨?_, ?_⟩, fun id frame parent live named => ?_,
    steady.holds_globals⟩, steady.blameless, fun number error after current failed => ?_,
    fun number thread error after found failed => ?_, fun request running => ?_, ?_⟩
  · obtain ⟨frame, live, _⟩ := coherent.live_root found
    exact ⟨frame, live⟩
  · obtain ⟨frame, live, _⟩ := coherent.live_current found
    exact ⟨frame, live⟩
  · obtain ⟨around, outside, _⟩ := coherent.counted.parent_older id frame parent live named
    exact ⟨around, outside⟩
  · have advanced := Action.advance_achieves own honest steady current machine rfl
    rw [failed] at advanced
    exact advanced.2.2.2
  · obtain ⟨frame, live, _⟩ := coherent.live_current found
    exact steady.fetch_error live failed
  · exact (request.perform_served own steady running).2
  · rintro resting fuel event arguments error after (ran | resumed | called)
    · exact run_allowed own honest steady ran
    · exact resume_allowed own honest steady resting resumed
    · exact call_allowed own honest steady resting called

/-- The turn of a thread that was closed meanwhile ends without an internal error. -/
theorem never_internal_closed :
    (closing.natives.Honest fun error => ¬ error.IsInternal) ∧ Visible closing {} closed ∧
      closed.frames.Live ⟨0⟩ ∧ ∀ error after,
        (Action.advance closing.natives ⟨0⟩).run closed = .error error after → ¬ error.IsInternal :=
  have consistent := Visible.never_internal closing_honest visible_closed
  ⟨closing_honest, visible_closed, consistent.1.2.2 ⟨0⟩ rfl,
    fun error after => consistent.2.2.1 ⟨0⟩ error after rfl⟩

end Machine

end CoopScript
