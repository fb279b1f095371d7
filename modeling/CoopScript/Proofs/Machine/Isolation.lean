import CoopScript.Proofs.Machine.Assignment

/-!
Assignments through handles for writing, seen as a whole: what the variable leads to is replaced, and
no tree elsewhere changes, whatever bodies are shared.
-/

namespace CoopScript.Machine

open Instruction (assignment)

variable {program : Program} {limits : Limits} {machine final : Machine} {number : ThreadId}
  {entry : Thread} {frame : Frame} {target : Variable} {indices : List Operand} {source : Operand}

/-- Wherever a session has come to, let the current thread run an assignment to what some indices
lead to in a variable. If it goes through, the tree of the variable has the tree of the source at
the path that the indices named, with all these as they were before. The trees in all other slots
and results of live frames and of all operands are those of before, and so are the literals. -/
theorem Faithful.assignment_isolated (faithful : program.natives.Faithful)
    (session : machine.Faithful program limits) (current : machine.current = some number)
    (found : machine.threads.find? number = some entry)
    (live : machine.frames.frame? entry.current = some frame)
    (next : assignment target indices source <+: (machine.code frame.block).drop frame.position)
    (ran : (Machine.move program.natives)^[(assignment target indices source).length] machine = final)
    (going : final.stopped = false) :
    ∃ place path old new changed, machine.place? entry.current target = some place ∧
      machine.datum? place = some old ∧ Leads machine entry.current indices path ∧
      machine.operand? entry.current source = some new ∧ old.replace? path new = some changed ∧
      final.datum? place = some changed ∧
      (∀ other, other ≠ place → final.datum? other = machine.datum? other) ∧
      final.script = machine.script := by
  have poised : machine.Poised number entry frame :=
    ⟨session.grounded faithful, current, found, live⟩
  subst ran
  rw [Instruction.length_assignment, Function.iterate_succ_apply] at going ⊢
  have begins := going_of_iterate _ going
  rw [Function.iterate_add_apply] at going ⊢
  have descends := going_of_iterate _ going
  obtain ⟨holder, root, named, begun, owned⟩ := poised.begin next begins
  have later := (cons_prefix_drop next).2
  obtain ⟨path, handle, leads, descended, own⟩ := begun.descend poised owned later descends
  have last := append_prefix_drop later
  rw [Instruction.length_descent, Nat.add_assoc] at last
  obtain ⟨value, pushed, extended, _, shown⟩ := descended.push poised last (going_of_iterate 1 going)
  obtain ⟨changed, replaced, there, others, script⟩ := pushed.finish poised
    (own.extend extended pushed.keeps.sound) (cons_prefix_drop last).2 going
  exact ⟨_, path, _, _, changed, named, pushed.kept, leads, shown, replaced, there, others, script⟩

/-! A body that occurs twice in one variable and once more in another. -/

/-- In two variables an array that holds one array twice; an element of the second is assigned to. -/
def sharing : Program where
  script := {
    blocks := #[{
      kind := .sub
      level := 0
      slots := 2
      codes := #[
        ⟨1, .pushValue (.boolean true)⟩, ⟨1, .constructArray 1⟩, ⟨1, .dup⟩, ⟨1, .constructArray 2⟩,
        ⟨1, .dup⟩, ⟨1, .assign ⟨0, 0⟩⟩, ⟨1, .assign ⟨0, 1⟩⟩,
        ⟨2, .pushVariableWritable ⟨0, 0⟩⟩, ⟨2, .pushValue (.real 1.0)⟩, ⟨2, .indexWritable⟩,
        ⟨2, .pushValue (.real 0.0)⟩, ⟨2, .indexWritable⟩, ⟨2, .pushValue (.boolean false)⟩,
        ⟨2, .assignWritable⟩] }]
    main := some ⟨0⟩ }

theorem sharing_faithful : sharing.natives.Faithful := by
  intro native inside
  exact absurd inside (Array.not_mem_empty native)

/-- The machine as it begins its first tick. -/
def sharingBegun : Machine := ((sharing.machine {}).started ⟨0⟩ sharing.script.blocks[0]).begin

/-- The machine at the assignment. -/
def sharingReady : Machine := (Machine.move sharing.natives)^[8] sharingBegun

theorem faithful_sharingReady : sharingReady.Faithful sharing {} := by
  have running : ∀ count < 8,
      ((Machine.move sharing.natives)^[count] sharingBegun).state = .running := by
    decide +kernel
  have begun : sharingBegun.Faithful sharing {} := .step .initial (.start rfl) nofun
  exact begun.iterate 8 running

theorem isolated_sharing : sharing.natives.Faithful ∧ sharingReady.Faithful sharing {} ∧
    ∀ other, other ≠ .slot ⟨0⟩ 0 →
      ((Machine.move sharing.natives)^[7] sharingReady).datum? other = sharingReady.datum? other := by
  have going : ((Machine.move sharing.natives)^[7] sharingReady).stopped = false := by
    decide +kernel
  obtain ⟨place, _, _, _, _, named, _, _, _, _, _, others, _⟩ :=
    @Faithful.assignment_isolated sharing {} sharingReady _ ⟨0⟩ ⟨⟨0⟩, ⟨0⟩, 0⟩ _ ⟨0, 0⟩
      [.literal (.real 1.0), .literal (.real 0.0)] (.literal (.boolean false)) sharing_faithful
      faithful_sharingReady rfl rfl rfl ⟨[], rfl⟩ rfl going
  have same : sharingReady.place? ⟨0⟩ ⟨0, 0⟩ = some (.slot ⟨0⟩ 0) := by decide +kernel
  cases named.symm.trans same
  exact ⟨sharing_faithful, faithful_sharingReady, others⟩

end CoopScript.Machine
