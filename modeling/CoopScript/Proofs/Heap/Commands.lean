import CoopScript.Proofs.Heap.Acyclic
import CoopScript.Proofs.Heap.Ownership
import CoopScript.Value.Registers

/-!
Sequences of operations on values. Of all operations only one can make an array hold itself: adding
elements in place, without a look at what they hold.
-/

namespace CoopScript

open Relation (TransGen)

namespace Heap

/-- The heap has grown or stayed, is sound, and has the value. -/
structure Yields (heap after : Heap) (value : Value) : Prop where
  sound : after.Sound
  size : heap.size ≤ after.size
  has : after.Has value

variable {heap after : Heap} {value child target source element array first second : Value}
  {roots : List Value} {id : BodyId} {body : Body} {index : Nat}

theorem Yields.same (sound : heap.Sound) (has : heap.Has value) : heap.Yields heap value :=
  ⟨sound, le_rfl, has⟩

theorem Made.yields {datum : Datum} (made : heap.Made after value datum) :
    heap.Yields after value := ⟨made.sound, made.extended.size, made.has⟩

theorem yields_allocate (sound : heap.Sound) (known : ∀ child, body.Holds child → heap.Has child) :
    heap.Yields (heap.allocate body).2 (heap.allocate body).1 :=
  ⟨sound.allocate known, (heap.extends_allocate body).size, heap.has_allocate body⟩

theorem yields_copy (sound : heap.Sound) (value : Value) :
    heap.Yields (heap.copy value).2 (heap.copy value).1 := by
  unfold copy
  split
  · next body found => exact yields_allocate sound (holds_known sound found)
  · exact .same sound heap.has_none

theorem yields_uniquify (sound : heap.Sound) (has : heap.Has value) (roots : List Value) :
    heap.Yields (heap.uniquify roots value).2 (heap.uniquify roots value).1 := by
  unfold uniquify
  split
  · exact yields_copy sound value
  · exact .same sound has

theorem has_of_index (sound : heap.Sound) (found : heap.index array index = .ok element) :
    heap.Has element := by
  obtain ⟨type, elements, held, there⟩ := index_eq_ok_iff.mp found
  exact holds_known sound held element ⟨elements, rfl, Array.mem_of_getElem? there⟩

theorem yields_claim (sound : heap.Sound) (found : heap.index array index = .ok element)
    (roots : List Value) :
    heap.Yields (heap.claim roots array index element).2
      (heap.claim roots array index element).1 := by
  obtain ⟨type, elements, held, there⟩ := index_eq_ok_iff.mp found
  cases array with
  | none => cases held
  | some id =>
      obtain ⟨keeps, has⟩ := keeps_claim sound held there
        (show heap.claim roots (some id) index element = (_, _) from rfl)
      exact ⟨keeps.sound, keeps.size, has⟩

/-- What is written in place keeps the heap sound if nothing in it leads back to the body. -/
theorem Sound.write (sound : heap.Sound) (has : heap.Has (some id))
    (known : ∀ child, body.Holds child → heap.Has child ∧ ¬ heap.Reaches child (some id)) :
    (heap.write id body).Sound ∧ heap.size ≤ (heap.write id body).size :=
  have replaces := replaces_write sound has known
  ⟨replaces.sound, replaces.size⟩

theorem Sound.overwrite (sound : heap.Sound) (has : heap.Has target)
    (done : heap.overwrite target source = .ok after) : after.Sound ∧ heap.size ≤ after.size := by
  obtain ⟨id, overwrites, done⟩ := exists_of_bind_eq_ok done
  cases done
  obtain ⟨rfl, body, found⟩ := body?_of_overwritten overwrites
  have replaces := replaces_takeOver sound has found
  exact ⟨replaces.sound, replaces.size⟩

/-- What an array holds does not lead back to it. -/
theorem Sound.held_away (sound : heap.Sound) (found : heap.body? value = some body)
    (holds : body.Holds child) : heap.Has child ∧ ¬ heap.Reaches child value :=
  have founded := sound value (.of_body? found)
  have holds : heap.Holds value child := .of_body? found holds
  ⟨(founded.element holds).has, founded.not_reaches holds⟩

/-- What is added is the element, or a copy of it if the element leads to the array. -/
theorem append_cases (done : heap.append target element = .ok after) :
    ∃ id found body grown added middle, target = some id ∧ heap.typeOf element = .ok found ∧
      (¬ heap.Reaches element target ∧ added = element ∧ middle = heap ∨
        heap.Reaches element target ∧ added = (heap.deepCopy element).1 ∧
          middle = (heap.deepCopy element).2) ∧
      middle.body? target = some body ∧ body.append found added = .ok grown ∧
      after = middle.write id grown := by
  obtain ⟨found, typed, done⟩ := exists_of_bind_eq_ok done
  cases target with
  | none => cases done
  | some id =>
      cases leads : heap.reaches element id with
      | true =>
          simp only [leads, if_true] at done
          obtain ⟨body, held, done⟩ := exists_of_bind_eq_ok done
          obtain ⟨grown, grows, done⟩ := exists_of_bind_eq_ok done
          cases done
          exact ⟨id, found, body, grown, _, _, rfl, typed, .inr ⟨reaches_iff.mp leads, rfl, rfl⟩,
            get_eq_ok_iff.mp held, grows, rfl⟩
      | false =>
          simp only [leads, Bool.false_eq_true, if_false] at done
          obtain ⟨body, held, done⟩ := exists_of_bind_eq_ok done
          obtain ⟨grown, grows, done⟩ := exists_of_bind_eq_ok done
          cases done
          have away : ¬ heap.Reaches element (some id) := by
            rw [← reaches_iff, leads]
            nofun
          exact ⟨id, found, body, grown, _, _, rfl, typed, .inl ⟨away, rfl, rfl⟩,
            get_eq_ok_iff.mp held, grows, rfl⟩

theorem Sound.append (sound : heap.Sound) (has : heap.Has target) (given : heap.Has element)
    (done : heap.append target element = .ok after) : after.Sound ∧ heap.size ≤ after.size := by
  obtain ⟨id, found, body, grown, added, middle, rfl, _, chosen, held, grows, rfl⟩ :=
    append_cases done
  have ready : heap.Yields middle added ∧ ¬ middle.Reaches added (some id) := by
    rcases chosen with ⟨away, rfl, rfl⟩ | ⟨_, rfl, rfl⟩
    · exact ⟨.same sound given, away⟩
    · have made := made_deepCopy sound element
      refine ⟨made.yields, fun leads => ?_⟩
      have new := made.fresh id leads
      have old := has id rfl
      omega
  obtain ⟨yields, away⟩ := ready
  have known (child : Value) (holds : grown.Holds child) :
      middle.Has child ∧ ¬ middle.Reaches child (some id) := by
    rcases Body.holds_of_append grows holds with rfl | old
    · exact ⟨yields.has, away⟩
    · exact yields.sound.held_away held old
  have written := yields.sound.write (has.mono yields.size) known
  exact ⟨written.1, yields.size.trans written.2⟩

theorem concatenate_cases (done : heap.concatenate target source = .ok after) :
    ∃ id body grown, target = some id ∧ heap.body? target = some body ∧
      after = heap.write id grown ∧
      ∀ child, grown.Holds child ↔ heap.Holds source child ∨ body.Holds child := by
  obtain ⟨incoming, listed, done⟩ := exists_of_bind_eq_ok done
  obtain ⟨type, _, done⟩ := exists_of_bind_eq_ok done
  cases target with
  | none => cases done
  | some id =>
      obtain ⟨body, held, done⟩ := exists_of_bind_eq_ok done
      obtain ⟨grown, grows, done⟩ := exists_of_bind_eq_ok done
      cases done
      refine ⟨id, body, grown, rfl, get_eq_ok_iff.mp held, rfl, fun child => ?_⟩
      rw [Body.holds_concatenate_iff grows, holds_iff_of_elements listed]

/-- Adding elements in place keeps the heap sound as long as none of them leads to the array. -/
theorem Sound.concatenate (sound : heap.Sound)
    (away : ∀ child, heap.Holds source child → ¬ heap.Reaches child target)
    (done : heap.concatenate target source = .ok after) : after.Sound ∧ heap.size ≤ after.size := by
  obtain ⟨id, body, grown, rfl, held, rfl, same⟩ := concatenate_cases done
  apply sound.write (.of_body? held)
  intro child holds
  rcases (same child).mp holds with new | old
  · obtain ⟨array, found, inside⟩ := new
    exact ⟨holds_known sound found child inside, away child (.of_body? found inside)⟩
  · exact sound.held_away held old

/-- A way to a body goes on past a change of that body. -/
theorem Reaches.write (leads : heap.Reaches value (some id)) :
    (heap.write id body).Reaches value (some id) := by
  induction leads using Relation.ReflTransGen.head_induction_on with
  | refl => exact .refl
  | @head value child holds _ hypothesis =>
      by_cases same : value = some id
      · rw [same]
      · obtain ⟨old, found, inside⟩ := holds
        rw [← body?_write_of_ne body same] at found
        exact hypothesis.head (.of_body? found inside)

/-- With an element that leads to the array, the array comes to hold itself. -/
theorem loop_of_concatenate (holds : heap.Holds source child) (leads : heap.Reaches child target)
    (done : heap.concatenate target source = .ok after) : TransGen after.Holds target target := by
  obtain ⟨id, body, grown, rfl, held, rfl, same⟩ := concatenate_cases done
  have written := body?_write_self grown (lt_size_of_body? held)
  exact .head' (.of_body? written ((same child).mpr (.inl holds))) leads.write

end Heap

namespace Registers

variable {registers after : Registers} {command : Command} {value : Value} {register : Nat}

/-- The heap is sound and has all values in the registers. -/
structure Sound (registers : Registers) : Prop where
  heap : registers.heap.Sound
  has : ∀ value ∈ registers.values, registers.heap.Has value

theorem Sound.get (sound : registers.Sound) (register : Nat) :
    registers.heap.Has (registers.get register) := by
  unfold Registers.get
  cases found : registers.values[register]? with
  | none => exact registers.heap.has_none
  | some value => exact sound.has value (Array.mem_of_getElem? found)

theorem sound_empty (count : Nat) : (empty count).Sound where
  heap := Heap.sound_empty
  has := by
    intro value inside
    obtain ⟨_, rfl⟩ := Array.mem_replicate.mp inside
    exact Heap.has_none _

theorem Sound.setHeap (sound : registers.Sound) {heap : Heap}
    (changed : heap.Sound ∧ registers.heap.size ≤ heap.size) : { registers with heap }.Sound where
  heap := changed.1
  has := fun value inside => (sound.has value inside).mono changed.2

theorem Sound.store (sound : registers.Sound) {heap : Heap}
    (yields : registers.heap.Yields heap value) (register : Nat) :
    (registers.store register (value, heap)).Sound where
  heap := yields.sound
  has := by
    intro other inside
    rcases Array.mem_or_eq_of_mem_setIfInBounds inside with old | rfl
    · exact (sound.has other old).mono yields.size
    · exact yields.has

theorem Sound.set (sound : registers.Sound) (has : registers.heap.Has value) (register : Nat) :
    (registers.set register value).Sound := sound.store (.same sound.heap has) register

end Registers

/-- The command goes through and adds to an array, in place, an element that leads to the array. -/
def Command.Entangles (command : Command) (registers : Registers) : Prop :=
  ∃ target source child after, command = .concatenate target source ∧
    registers.perform command = .ok after ∧
    registers.heap.Holds (registers.get source) child ∧
    registers.heap.Reaches child (registers.get target)

namespace Registers

variable {registers after : Registers} {command : Command}

/-- Every command but an entangling one keeps registers sound. -/
theorem Sound.perform (sound : registers.Sound) (apart : ¬ command.Entangles registers)
    (done : registers.perform command = .ok after) : after.Sound := by
  cases command with
  | literal target datum =>
      cases done
      exact sound.store (Heap.made_build datum registers.heap sound.heap).yields target
  | makeScalar target type payload =>
      obtain ⟨made, makes, done⟩ := exists_of_bind_eq_ok done
      cases done
      unfold Heap.makeScalar at makes
      split at makes
      · cases makes
        refine sound.store (Heap.yields_allocate sound.heap ?_) target
        intro child holds
        obtain ⟨elements, missing, _⟩ := holds
        cases missing
      · cases makes
  | makeArray target type sources =>
      obtain ⟨made, makes, done⟩ := exists_of_bind_eq_ok done
      obtain ⟨body, fits, makes⟩ := exists_of_bind_eq_ok makes
      cases makes
      cases done
      refine sound.store (Heap.yields_allocate sound.heap ?_) target
      intro child holds
      obtain ⟨source, _, rfl⟩ := List.mem_map.mp (Heap.holds_of_arrayBody fits holds)
      exact sound.get source
  | «alias» target source =>
      cases done
      exact sound.set (sound.get source) target
  | overwrite target source =>
      obtain ⟨heap, changes, done⟩ := exists_of_bind_eq_ok done
      cases done
      exact sound.setHeap (sound.heap.overwrite (sound.get target) changes)
  | uniquify target =>
      cases done
      exact sound.store (Heap.yields_uniquify sound.heap (sound.get target) registers.roots) target
  | deepCopy target source =>
      cases done
      exact sound.store (Heap.made_deepCopy sound.heap (registers.get source)).yields target
  | index target source position =>
      obtain ⟨element, found, done⟩ := exists_of_bind_eq_ok done
      cases done
      exact sound.set (Heap.has_of_index sound.heap found) target
  | indexWritable target source position =>
      obtain ⟨made, makes, done⟩ := exists_of_bind_eq_ok done
      obtain ⟨element, found, makes⟩ := exists_of_bind_eq_ok makes
      cases makes
      cases done
      exact sound.store (Heap.yields_claim sound.heap found registers.roots) target
  | append target source =>
      obtain ⟨heap, changes, done⟩ := exists_of_bind_eq_ok done
      cases done
      exact sound.setHeap (sound.heap.append (sound.get target) (sound.get source) changes)
  | concatenate target source =>
      obtain ⟨heap, changes, finished⟩ := exists_of_bind_eq_ok done
      cases finished
      refine sound.setHeap (sound.heap.concatenate ?_ changes)
      intro child holds leads
      exact apart ⟨target, source, child, _, rfl, done, holds, leads⟩
  | appended target source element =>
      obtain ⟨made, makes, done⟩ := exists_of_bind_eq_ok done
      obtain ⟨body, fits, makes⟩ := exists_of_bind_eq_ok makes
      cases makes
      cases done
      refine sound.store (Heap.yields_allocate sound.heap ?_) target
      intro child holds
      rcases Heap.holds_of_appendedBody fits holds with rfl | held
      · exact sound.get element
      · exact ((sound.heap _ (sound.get source)).element held).has
  | concatenated target first second =>
      obtain ⟨made, makes, done⟩ := exists_of_bind_eq_ok done
      obtain ⟨body, fits, makes⟩ := exists_of_bind_eq_ok makes
      cases makes
      cases done
      refine sound.store (Heap.yields_allocate sound.heap ?_) target
      intro child holds
      rcases Heap.holds_of_concatenatedBody fits holds with held | held
      · exact ((sound.heap _ (sound.get first)).element held).has
      · exact ((sound.heap _ (sound.get second)).element held).has

/-- An entangling command makes an array that holds itself. -/
theorem loop_of_entangles (entangles : command.Entangles registers)
    (done : registers.perform command = .ok after) :
    ∃ value, TransGen after.heap.Holds value value := by
  obtain ⟨target, source, child, _, rfl, _, holds, leads⟩ := entangles
  obtain ⟨heap, changes, done⟩ := exists_of_bind_eq_ok done
  cases done
  exact ⟨_, Heap.loop_of_concatenate holds leads changes⟩

/-- The registers after a command. One that fails changes nothing. -/
def attempt (registers : Registers) (command : Command) : Registers :=
  match registers.perform command with
  | .ok after => after
  | .error _ => registers

/-- The registers after some commands. -/
def run (registers : Registers) (commands : List Command) : Registers :=
  commands.foldl attempt registers

theorem run_append (registers : Registers) (earlier later : List Command) :
    registers.run (earlier ++ later) = (registers.run earlier).run later := List.foldl_append

theorem Sound.attempt (sound : registers.Sound) (apart : ¬ command.Entangles registers) :
    (registers.attempt command).Sound := by
  unfold Registers.attempt
  split
  · next after done => exact sound.perform apart done
  · exact sound

theorem Sound.run (sound : registers.Sound) {commands : List Command}
    (apart : ∀ earlier command, earlier ++ [command] <+: commands →
      ¬ command.Entangles (registers.run earlier)) : (registers.run commands).Sound := by
  induction commands using List.reverseRecOn with
  | nil => exact sound
  | append_singleton earlier command hypothesis =>
      rw [run_append]
      apply Sound.attempt
      · apply hypothesis
        intro before next inside
        exact apart before next (inside.trans (List.prefix_append earlier [command]))
      · exact apart earlier command List.prefix_rfl

/-- From empty registers, whatever the commands: as long as none of them entangles an array with
itself, and no longer, no value holds itself and all that follows elements comes to an end. -/
theorem acyclic_iff_disentangled (count : Nat) (commands : List Command) :
    (∀ earlier, earlier <+: commands → ((empty count).run earlier).heap.Acyclic) ↔
      ∀ earlier command, earlier ++ [command] <+: commands →
        ¬ command.Entangles ((empty count).run earlier) := by
  constructor
  · intro acyclic earlier command inside entangles
    have after := acyclic _ inside
    obtain ⟨_, _, _, last, _, done, _⟩ := id entangles
    obtain ⟨value, loop⟩ := loop_of_entangles entangles done
    have attempted : (empty count).run (earlier ++ [command]) = last := by
      rw [run_append]
      simp only [run, List.foldl_cons, List.foldl_nil, attempt]
      simp only [run] at done
      rw [done]
    rw [attempted] at after
    exact after.loopless value loop
  · intro apart earlier inside
    apply Heap.Sound.acyclic
    apply Sound.heap
    apply (sound_empty count).run
    intro before command within
    exact apart before command (within.trans inside)

/-! An empty string to which an array is added that holds it. -/

def entangling : List Command :=
  [.literal 0 (.string ""), .makeArray 1 (.array .string) [0], .concatenate 0 1]

theorem not_loopless_entangling :
    ¬ ∀ count commands value, ¬ TransGen ((empty count).run commands).heap.Holds value value := by
  intro loopless
  refine loopless 2 entangling (some ⟨0⟩) (.single ?_)
  exact ⟨⟨.array .string, .array #[some ⟨0⟩]⟩, rfl, #[some ⟨0⟩], rfl, Array.mem_singleton.mpr rfl⟩

end Registers

end CoopScript
