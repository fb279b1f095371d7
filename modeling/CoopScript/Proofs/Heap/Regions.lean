import CoopScript.Proofs.Heap.Commands
import CoopScript.Proofs.Heap.Concealment

/-!
Regions of a heap. Arrays of a region hold values of the region alone, so that operations on such
values lead out of it neither in what they change nor in what they return, loops or not. What is made
anew counts to the region.
-/

namespace CoopScript

namespace Heap

/-- The region has the empty value, all bodies that are still to come, and what its arrays hold. -/
structure Secludes (heap : Heap) (region : Set Value) : Prop where
  empty : none ∈ region
  coming : ∀ id : BodyId, heap.size ≤ id.index → some id ∈ region
  held : ∀ value ∈ region, ∀ child, heap.Holds value child → child ∈ region

/-- No body outside the region has changed. -/
structure Confines (region : Set Value) (heap after : Heap) : Prop where
  secludes : after.Secludes region
  size : heap.size ≤ after.size
  outside : ∀ value ∉ region, after.body? value = heap.body? value

variable {heap middle after : Heap} {region : Set Value} {value source target element array : Value}
  {first second : Value} {id : BodyId} {body : Body} {type : Ty} {payload : Scalar} {position : Nat}
  {elements roots : List Value} {made : Value × Heap}

theorem Confines.refl (secludes : heap.Secludes region) : Confines region heap heap :=
  ⟨secludes, le_rfl, fun _ _ => rfl⟩

theorem Confines.trans (early : Confines region heap middle) (late : Confines region middle after) :
    Confines region heap after where
  secludes := late.secludes
  size := early.size.trans late.size
  outside := fun value apart => (late.outside value apart).trans (early.outside value apart)

/-- A value keeps its tree if nothing that it reaches is in the region. -/
theorem Confines.spares (confined : Confines region heap after)
    (apart : ∀ id, heap.Reaches value (some id) → some id ∉ region) : heap.Spares after value where
  size := confined.size
  bodies := by
    intro target reaches
    cases target with
    | none => rfl
    | some id => exact confined.outside _ (apart id reaches)

/-- The bodies that are still to come make up a region. -/
theorem secludes_coming (heap : Heap) :
    heap.Secludes {value | ∀ id : BodyId, value = some id → heap.size ≤ id.index} where
  empty := nofun
  coming := by
    rintro id enough _ ⟨⟩
    exact enough
  held := by
    rintro value coming child ⟨body, found, _⟩
    cases value with
    | none => cases found
    | some id => exact absurd (coming id rfl) (lt_size_of_body? found).not_ge

namespace Secludes

variable (secludes : heap.Secludes region)

include secludes

theorem holds (inside : value ∈ region) (found : heap.body? value = some body) :
    ∀ child, body.Holds child → child ∈ region :=
  fun child holds => secludes.held value inside child (.of_body? found holds)

/-! New bodies. -/

theorem allocate (within : ∀ child, body.Holds child → child ∈ region) :
    Confines region heap (heap.allocate body).2 ∧ (heap.allocate body).1 ∈ region := by
  have fresh : (heap.allocate body).1 ∈ region := secludes.coming ⟨heap.size⟩ le_rfl
  refine ⟨⟨⟨secludes.empty, fun id enough => ?_, ?_⟩, (heap.extends_allocate body).size, ?_⟩, fresh⟩
  · rw [size_allocate] at enough
    exact secludes.coming id (Nat.le_of_succ_le enough)
  · rintro value inside child ⟨held, found, holds⟩
    rw [body?_allocate_eq] at found
    split at found
    · cases found
      exact within child holds
    · exact secludes.holds inside found child holds
  · intro value apart
    rw [body?_allocate_eq, if_neg]
    rintro rfl
    exact apart fresh

omit secludes in
mutual

theorem build (datum : Datum) (heap : Heap) (secludes : heap.Secludes region) :
    Confines region heap (Heap.build datum heap).2 ∧ (Heap.build datum heap).1 ∈ region := by
  cases datum with
  | empty => exact ⟨.refl secludes, secludes.empty⟩
  | scalar type payload => exact secludes.allocate (by rintro child ⟨_, ⟨⟩, _⟩)
  | array type elements =>
      obtain ⟨grown, inside⟩ := buildAll elements #[] heap secludes (by simp)
      have within (child : Value)
          (holds : Body.Holds ⟨type, .array (Heap.buildAll elements #[] heap).1⟩ child) :
          child ∈ region := by
        obtain ⟨_, ⟨⟩, held⟩ := holds
        exact inside child held
      have allocated := grown.secludes.allocate within
      exact ⟨grown.trans allocated.1, allocated.2⟩

theorem buildAll (data : List Datum) (built : Array Value) (heap : Heap)
    (secludes : heap.Secludes region) (before : ∀ value ∈ built, value ∈ region) :
    Confines region heap (Heap.buildAll data built heap).2 ∧
      ∀ value ∈ (Heap.buildAll data built heap).1, value ∈ region := by
  cases data with
  | nil => exact ⟨.refl secludes, before⟩
  | cons datum rest =>
      obtain ⟨grown, inside⟩ := build datum heap secludes
      have both (value : Value) (held : value ∈ built.push (Heap.build datum heap).1) :
          value ∈ region := by
        rcases Array.mem_push.mp held with old | rfl
        · exact before value old
        · exact inside
      have later := buildAll rest _ _ grown.secludes both
      exact ⟨grown.trans later.1, later.2⟩

end

theorem deepCopy (value : Value) :
    Confines region heap (heap.deepCopy value).2 ∧ (heap.deepCopy value).1 ∈ region :=
  build (heap.view value) heap secludes

theorem copy (inside : value ∈ region) :
    Confines region heap (heap.copy value).2 ∧ (heap.copy value).1 ∈ region := by
  unfold Heap.copy
  split
  · next body found => exact secludes.allocate (secludes.holds inside found)
  · exact ⟨.refl secludes, secludes.empty⟩

theorem uniquify (inside : value ∈ region) (roots : List Value) :
    Confines region heap (heap.uniquify roots value).2 ∧ (heap.uniquify roots value).1 ∈ region := by
  unfold Heap.uniquify
  split
  · exact secludes.copy inside
  · exact ⟨.refl secludes, inside⟩

theorem makeScalar (done : heap.makeScalar type payload = .ok made) :
    Confines region heap made.2 ∧ made.1 ∈ region := by
  unfold Heap.makeScalar at done
  split at done
  · cases done
    exact secludes.allocate (by rintro child ⟨_, ⟨⟩, _⟩)
  · cases done

theorem makeArray (inside : ∀ element ∈ elements, element ∈ region)
    (done : heap.makeArray type elements = .ok made) :
    Confines region heap made.2 ∧ made.1 ∈ region := by
  obtain ⟨body, fits, done⟩ := exists_of_bind_eq_ok done
  cases done
  exact secludes.allocate fun child holds => inside child (holds_of_arrayBody fits holds)

theorem appended (inside : array ∈ region) (within : element ∈ region)
    (done : heap.appended array element = .ok made) :
    Confines region heap made.2 ∧ made.1 ∈ region := by
  obtain ⟨body, fits, done⟩ := exists_of_bind_eq_ok done
  cases done
  refine secludes.allocate fun child holds => ?_
  rcases holds_of_appendedBody fits holds with rfl | held
  · exact within
  · exact secludes.held array inside child held

theorem concatenated (inside : first ∈ region) (within : second ∈ region)
    (done : heap.concatenated first second = .ok made) :
    Confines region heap made.2 ∧ made.1 ∈ region := by
  obtain ⟨body, fits, done⟩ := exists_of_bind_eq_ok done
  cases done
  refine secludes.allocate fun child holds => ?_
  rcases holds_of_concatenatedBody fits holds with held | held
  · exact secludes.held first inside child held
  · exact secludes.held second within child held

/-! Bodies that change in place. -/

theorem write (inside : some id ∈ region) (within : ∀ child, body.Holds child → child ∈ region) :
    Confines region heap (heap.write id body) where
  secludes := by
    refine ⟨secludes.empty, fun other enough => secludes.coming other (by simpa using enough), ?_⟩
    rintro value given child ⟨held, found, holds⟩
    by_cases same : value = some id
    · rw [same, body?_write_same] at found
      obtain ⟨_, _, rfl⟩ := Option.map_eq_some_iff.mp found
      exact within child holds
    · rw [body?_write_of_ne body same] at found
      exact secludes.holds given found child holds
  size := (heap.size_write id body).ge
  outside := fun _ apart => body?_write_of_ne body fun same => apart (same ▸ inside)

theorem takeOver (inside : some id ∈ region) (within : source ∈ region) :
    Confines region heap (heap.takeOver id source) := by
  unfold Heap.takeOver
  split
  · exact .refl secludes
  · have ready : Confines region heap (if heap.reaches source id then heap.deepCopy source
          else (source, heap)).2 ∧
        (if heap.reaches source id then heap.deepCopy source else (source, heap)).1 ∈ region := by
      split
      · exact secludes.deepCopy source
      · exact ⟨.refl secludes, within⟩
    dsimp only
    split
    · next body found =>
        exact ready.1.trans (ready.1.secludes.write inside (ready.1.secludes.holds ready.2 found))
    · exact ready.1

theorem overwrite (inside : target ∈ region) (within : source ∈ region)
    (done : heap.overwrite target source = .ok after) : Confines region heap after := by
  obtain ⟨id, overwrites, done⟩ := exists_of_bind_eq_ok done
  cases done
  obtain ⟨rfl, _⟩ := body?_of_overwritten overwrites
  exact secludes.takeOver inside within

theorem setElement (inside : array ∈ region) (within : element ∈ region) (position : Nat) :
    Confines region heap (heap.setElement array position element) := by
  cases array with
  | none => exact .refl secludes
  | some id =>
      cases found : heap.body? (some id) with
      | none =>
          rw [setElement_of_missing found]
          exact .refl secludes
      | some body =>
          rw [setElement_eq_write found]
          refine secludes.write inside fun child holds => ?_
          rcases Body.holds_of_setElement holds with rfl | old
          · exact within
          · exact secludes.holds inside found child old

theorem index (inside : array ∈ region) (done : heap.index array position = .ok element) :
    element ∈ region := by
  obtain ⟨type, elements, found, there⟩ := index_eq_ok_iff.mp done
  exact secludes.held array inside element (.of_getElem? found there)

theorem indexWritable (inside : array ∈ region)
    (done : heap.indexWritable roots array position = .ok made) :
    Confines region heap made.2 ∧ made.1 ∈ region := by
  obtain ⟨element, found, done⟩ := exists_of_bind_eq_ok done
  have within := secludes.index inside found
  cases done
  unfold Heap.claim
  split
  · obtain ⟨grown, fresh⟩ := secludes.copy within
    exact ⟨grown.trans (grown.secludes.setElement inside fresh _), fresh⟩
  · exact ⟨.refl secludes, within⟩

theorem append (inside : target ∈ region) (within : element ∈ region)
    (done : heap.append target element = .ok after) : Confines region heap after := by
  obtain ⟨id, found, body, grown, added, middle, rfl, _, chosen, held, grows, rfl⟩ :=
    append_cases done
  have ready : Confines region heap middle ∧ added ∈ region := by
    rcases chosen with ⟨_, rfl, rfl⟩ | ⟨_, rfl, rfl⟩
    · exact ⟨.refl secludes, within⟩
    · exact secludes.deepCopy element
  refine ready.1.trans (ready.1.secludes.write inside fun child holds => ?_)
  rcases Body.holds_of_append grows holds with rfl | old
  · exact ready.2
  · exact ready.1.secludes.holds inside held child old

theorem concatenate (inside : target ∈ region) (within : source ∈ region)
    (done : heap.concatenate target source = .ok after) : Confines region heap after := by
  obtain ⟨id, body, grown, rfl, held, rfl, same⟩ := concatenate_cases done
  refine secludes.write inside fun child holds => ?_
  rcases (same child).mp holds with new | old
  · exact secludes.held source within child new
  · exact secludes.holds inside held child old

end Secludes

end Heap

/-- The registers that a command reads or writes. -/
def Command.registers : Command → List Nat
  | literal target _ => [target]
  | makeScalar target _ _ => [target]
  | makeArray target _ sources => target :: sources
  | «alias» target source => [target, source]
  | overwrite target source => [target, source]
  | uniquify target => [target]
  | deepCopy target source => [target, source]
  | index target source _ => [target, source]
  | indexWritable target source _ => [target, source]
  | append target source => [target, source]
  | concatenate target source => [target, source]
  | appended target source element => [target, source, element]
  | concatenated target first second => [target, first, second]

namespace Registers

open Heap (Confines)

variable {registers after : Registers} {command : Command} {commands : List Command}
  {region : Set Value} {target register : Nat} {value : Value} {made : Value × Heap}

/-- The heap has changed in the region alone, and so have the registers. -/
structure Confined (region : Set Value) (registers after : Registers) : Prop where
  heap : Confines region registers.heap after.heap
  kept : ∀ register, registers.get register ∈ region → after.get register ∈ region

theorem get_set_cases (registers : Registers) (target : Nat) (value : Value) (register : Nat) :
    (registers.set target value).get register = value ∨
      (registers.set target value).get register = registers.get register := by
  simp only [get, set, Array.getElem?_setIfInBounds]
  split
  · split
    · exact .inl rfl
    · next outside => exact .inr (by rw [Array.getElem?_eq_none (by omega)])
  · exact .inr rfl

theorem confined_store (grown : Confines region registers.heap made.2 ∧ made.1 ∈ region)
    (target : Nat) : Confined region registers (registers.store target made) where
  heap := grown.1
  kept := by
    intro register inside
    rcases get_set_cases { registers with heap := _ } target _ register with new | old
    · exact new ▸ grown.2
    · exact old ▸ inside

theorem confined_set (secludes : registers.heap.Secludes region) (inside : value ∈ region)
    (target : Nat) : Confined region registers (registers.set target value) :=
  @confined_store registers region (value, registers.heap) ⟨.refl secludes, inside⟩ target

theorem confined_setHeap {heap : Heap} (changed : Confines region registers.heap heap) :
    Confined region registers { registers with heap } := ⟨changed, fun _ inside => inside⟩

/-- A command whose registers have values of a region changes that region alone. -/
theorem confined_perform (secludes : registers.heap.Secludes region)
    (within : ∀ register ∈ command.registers, registers.get register ∈ region)
    (done : registers.perform command = .ok after) : Confined region registers after := by
  cases command with
  | literal target datum =>
      cases done
      exact confined_store (Heap.Secludes.build datum _ secludes) target
  | makeScalar target type payload =>
      obtain ⟨made, makes, done⟩ := exists_of_bind_eq_ok done
      cases done
      exact confined_store (secludes.makeScalar makes) target
  | makeArray target type sources =>
      obtain ⟨made, makes, done⟩ := exists_of_bind_eq_ok done
      cases done
      refine confined_store (secludes.makeArray ?_ makes) target
      intro element inside
      obtain ⟨source, listed, rfl⟩ := List.mem_map.mp inside
      exact within source (List.mem_cons_of_mem target listed)
  | «alias» target source =>
      cases done
      have inside := within source (by simp [Command.registers])
      exact confined_set secludes inside target
  | overwrite target source =>
      obtain ⟨heap, changes, done⟩ := exists_of_bind_eq_ok done
      cases done
      exact confined_setHeap (secludes.overwrite (within target (by simp [Command.registers]))
        (within source (by simp [Command.registers])) changes)
  | uniquify target =>
      cases done
      exact confined_store
        (secludes.uniquify (within target (by simp [Command.registers])) _) target
  | deepCopy target source =>
      cases done
      exact confined_store (secludes.deepCopy _) target
  | index target source position =>
      obtain ⟨element, found, done⟩ := exists_of_bind_eq_ok done
      cases done
      have inside := secludes.index (within source (by simp [Command.registers])) found
      exact confined_set secludes inside target
  | indexWritable target source position =>
      obtain ⟨made, makes, done⟩ := exists_of_bind_eq_ok done
      cases done
      exact confined_store
        (secludes.indexWritable (within source (by simp [Command.registers])) makes) target
  | append target source =>
      obtain ⟨heap, changes, done⟩ := exists_of_bind_eq_ok done
      cases done
      exact confined_setHeap (secludes.append (within target (by simp [Command.registers]))
        (within source (by simp [Command.registers])) changes)
  | concatenate target source =>
      obtain ⟨heap, changes, done⟩ := exists_of_bind_eq_ok done
      cases done
      exact confined_setHeap (secludes.concatenate (within target (by simp [Command.registers]))
        (within source (by simp [Command.registers])) changes)
  | appended target source element =>
      obtain ⟨made, makes, done⟩ := exists_of_bind_eq_ok done
      cases done
      exact confined_store (secludes.appended (within source (by simp [Command.registers]))
        (within element (by simp [Command.registers])) makes) target
  | concatenated target first second =>
      obtain ⟨made, makes, done⟩ := exists_of_bind_eq_ok done
      cases done
      exact confined_store (secludes.concatenated (within first (by simp [Command.registers]))
        (within second (by simp [Command.registers])) makes) target

/-- So do any commands one after the other, whether they go through or fail. -/
theorem confines_run (secludes : registers.heap.Secludes region)
    (within : ∀ command ∈ commands, ∀ register ∈ command.registers,
      registers.get register ∈ region) :
    Confines region registers.heap (registers.run commands).heap := by
  induction commands generalizing registers with
  | nil => exact .refl secludes
  | cons command rest hypothesis =>
      have first : Confined region registers (registers.attempt command) := by
        unfold attempt
        split
        · next after done =>
            exact confined_perform secludes (within command List.mem_cons_self) done
        · exact confined_setHeap (.refl secludes)
      refine first.heap.trans (hypothesis first.heap.secludes fun other listed register named => ?_)
      exact first.kept register (within other (List.mem_cons_of_mem command listed) register named)

end Registers

end CoopScript
