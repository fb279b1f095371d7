import CoopScript.Proofs.Heap.Extension
import CoopScript.Proofs.Machine.Surroundings

/-!
The literals of a program as values, which are there before any of its machines.
-/

namespace CoopScript

/-- The literals of a script as values. Instructions may share theirs. -/
structure Stock (script : Script) where
  heap : Heap
  literal : BlockId → Nat → Value
  handles : List Value
  sound : heap.Sound
  has : ∀ value ∈ handles, heap.Has value
  listed : ∀ id position datum, script.instruction? id position = some (.pushValue datum) →
    literal id position ∈ handles
  view : ∀ id position datum, script.instruction? id position = some (.pushValue datum) →
    heap.view (literal id position) = datum

namespace Script

/-- The literals with the blocks and the positions of their instructions. -/
def literals (script : Script) : List ((BlockId × Nat) × Datum) :=
  script.blocks.toList.zipIdx.flatMap fun block =>
    block.1.codes.toList.zipIdx.filterMap fun code =>
      match code.1.instruction with
      | .pushValue datum => some ((⟨block.2⟩, code.2), datum)
      | _ => none

variable {script : Script} {id : BlockId} {position : Nat} {datum : Datum}

theorem mem_literals_iff : ((id, position), datum) ∈ script.literals ↔
    script.instruction? id position = some (.pushValue datum) := by
  simp only [literals, List.mem_flatMap, List.mem_filterMap, Prod.exists,
    List.mem_zipIdx_iff_getElem?, Array.getElem?_toList, instruction?, block?,
    Option.bind_eq_some_iff, Option.map_eq_some_iff]
  constructor
  · rintro ⟨block, index, found, code, place, coded, same⟩
    split at same
    · next literal pushes =>
        cases same
        exact ⟨block, found, code, coded, pushes⟩
    · cases same
  · rintro ⟨block, found, code, coded, pushes⟩
    refine ⟨block, id.index, found, code, position, coded, ?_⟩
    rw [pushes]

/-- The literals, each built for itself. -/
def buildLiterals (script : Script) : Array Value × Heap :=
  Heap.buildAll (script.literals.map Prod.snd) #[] .empty

/-- The handle on the literal of an instruction, or the empty value. -/
def literal (script : Script) (id : BlockId) (position : Nat) : Value :=
  (script.buildLiterals.1[(script.literals.map Prod.fst).idxOf (id, position)]?).join

theorem buildLiterals_made (script : Script) :
    script.buildLiterals.2.Sound ∧
      script.buildLiterals.1.toList.map script.buildLiterals.2.view = script.literals.map Prod.snd ∧
      ∀ value ∈ script.buildLiterals.1.toList, script.buildLiterals.2.Has value := by
  have made := Heap.made_buildAll (script.literals.map Prod.snd) #[] .empty Heap.sound_empty
  obtain ⟨added, same, views, each⟩ := made.values
  rw [List.nil_append] at same
  refine ⟨made.sound, ?_, ?_⟩
  · exact (congrArg _ same).trans views
  · intro value inside
    exact (each value (same ▸ inside)).has

/-- The handle is on one of the values that were built, which has the tree of the instruction. -/
theorem literal_of_instruction?
    (coded : script.instruction? id position = some (.pushValue datum)) :
    script.literal id position ∈ script.buildLiterals.1.toList ∧
      script.buildLiterals.2.view (script.literal id position) = datum := by
  obtain ⟨_, views, _⟩ := script.buildLiterals_made
  have listed : (id, position) ∈ script.literals.map Prod.fst :=
    List.mem_map.mpr ⟨_, mem_literals_iff.mpr coded, rfl⟩
  have there := List.getElem?_idxOf listed
  rw [List.getElem?_map] at there
  obtain ⟨⟨_, other⟩, found, rfl⟩ := Option.map_eq_some_iff.mp there
  have same := (mem_literals_iff.mp (List.mem_of_getElem? found)).symm.trans coded
  cases same
  have tree := congrArg (fun data => data[(script.literals.map Prod.fst).idxOf (id, position)]?) views
  simp only [List.getElem?_map, found, Option.map_some] at tree
  obtain ⟨value, built, view⟩ := Option.map_eq_some_iff.mp tree
  have named : script.literal id position = value := by
    rw [literal, ← Array.getElem?_toList, built]
    rfl
  rw [named]
  exact ⟨List.mem_of_getElem? built, view⟩

/-- Every script has its literals. -/
def stock (script : Script) : Stock script where
  heap := script.buildLiterals.2
  literal := script.literal
  handles := script.buildLiterals.1.toList
  sound := script.buildLiterals_made.1
  has := script.buildLiterals_made.2.2
  listed := fun _ _ _ coded => (literal_of_instruction? coded).1
  view := fun _ _ _ coded => (literal_of_instruction? coded).2

end Script

end CoopScript
