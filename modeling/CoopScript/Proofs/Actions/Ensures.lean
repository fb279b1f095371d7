import CoopScript.Machine.Step

/-!
What an action ensures: from machines with one property it leads to results and machines with
another, and its failures leave machines with a third.
-/

namespace CoopScript.Action

variable {α β : Type} {before : Machine → Prop} {good : α → Machine → Prop}
  {bad : MachineError → Machine → Prop}

/-- The action either has a result as it should or fails as it may. -/
def Ensures (action : Action α) (before : Machine → Prop) (good : α → Machine → Prop)
    (bad : MachineError → Machine → Prop) : Prop :=
  ∀ machine, before machine →
    match action.run machine with
    | .ok result after => good result after
    | .error error after => bad error after

namespace Ensures

theorem pure {result : α} (holds : ∀ machine, before machine → good result machine) :
    Ensures (Pure.pure result) before good bad := holds

theorem throw {error : MachineError} (holds : ∀ machine, before machine → bad error machine) :
    Ensures (throw error : Action α) before good bad := holds

theorem bind {action : Action α} {next : α → Action β} {middle : α → Machine → Prop}
    {good : β → Machine → Prop} (first : action.Ensures before middle bad)
    (rest : ∀ result, (next result).Ensures (middle result) good bad) :
    (action >>= next).Ensures before good bad := by
  intro machine holds
  have early := first machine holds
  simp only [EStateM.run, Bind.bind, EStateM.bind]
  simp only [EStateM.run] at early
  cases run : action machine with
  | ok result after =>
      rw [run] at early
      exact rest result after early
  | error error after =>
      rw [run] at early
      exact early

/-- From one machine the first action has one result. -/
theorem bind_of_run {action : Action α} {next : α → Action β} {good : β → Machine → Prop}
    {machine middle : Machine} {result : α} (ran : action.run machine = .ok result middle)
    (rest : (next result).Ensures (middle = ·) good bad) :
    (action >>= next).Ensures (machine = ·) good bad := by
  intro _ equal
  subst equal
  rw [EStateM.run_bind, ran]
  exact rest middle rfl

theorem weaken {before' : Machine → Prop} {good' : α → Machine → Prop}
    {bad' : MachineError → Machine → Prop} {action : Action α}
    (ensures : action.Ensures before good bad) (earlier : ∀ machine, before' machine → before machine)
    (later : ∀ result machine, good result machine → good' result machine)
    (failing : ∀ error machine, bad error machine → bad' error machine) :
    action.Ensures before' good' bad' := by
  intro machine holds
  have ended := ensures machine (earlier machine holds)
  cases run : action.run machine with
  | ok result after =>
      rw [run] at ended
      exact later result after ended
  | error error after =>
      rw [run] at ended
      exact failing error after ended

theorem ok {action : Action α} {machine after : Machine} {result : α}
    (ensures : action.Ensures before good bad) (holds : before machine)
    (run : action.run machine = .ok result after) : good result after := by
  have ended := ensures machine holds
  rw [run] at ended
  exact ended

theorem error {action : Action α} {machine after : Machine} {error : MachineError}
    (ensures : action.Ensures before good bad) (holds : before machine)
    (run : action.run machine = .error error after) : bad error after := by
  have ended := ensures machine holds
  rw [run] at ended
  exact ended

theorem get {good : Machine → Machine → Prop}
    (holds : ∀ machine, before machine → good machine machine) :
    Ensures (get : Action Machine) before good bad := holds

theorem modify {change : Machine → Machine} {good : PUnit → Machine → Prop}
    (holds : ∀ machine, before machine → good ⟨⟩ (change machine)) :
    Ensures (modify change : Action PUnit) before good bad := holds

end Ensures

/-! Native functions. -/

/-- The routine of a native function is prepared in one way only, or not at all. -/
theorem prepareNative_cases (natives : Natives) (frame : FrameId) (id : NativeId) (count : Nat) :
    prepareNative natives frame id count = throw (.unknownNative id.index) ∨
    ∃ native ∈ natives,
      (∃ arity, prepareNative natives frame id count =
        throw (.argumentCount native.name arity count)) ∨
      prepareNative natives frame id count = (do
        let arguments ← popMany frame count
        log (.nativeCall native.name count)
        return native.body arguments) := by
  unfold prepareNative
  split
  · exact .inl rfl
  · next native found =>
      refine .inr ⟨native, Array.mem_of_getElem? found, ?_⟩
      split
      · next arity _ =>
          split
          · exact .inl ⟨arity, rfl⟩
          · exact .inr rfl
      · exact .inr rfl

end CoopScript.Action
