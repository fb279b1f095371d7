import CoopScript.Proofs.Heap.Census
import CoopScript.Proofs.Heap.Extension
import CoopScript.Proofs.Heap.Reading

/-!
Operations that change one body in place. A value keeps its tree unless it reaches that body, and
the heap stays sound as long as the new body does not come to hold itself.
-/

namespace CoopScript.Heap

/-- Of the bodies that there were, at most the given one changed, and it has the given tree now. -/
structure Replaces (heap after : Heap) (id : BodyId) (datum : Datum) : Prop where
  sound : after.Sound
  size : heap.size ≤ after.size
  others : ∀ value, heap.Has value → value ≠ some id → after.body? value = heap.body? value
  view : after.view (some id) = datum

/-- The heap is sound, and the values that there were have the trees that they had. -/
structure Keeps (heap after : Heap) : Prop where
  sound : after.Sound
  size : heap.size ≤ after.size
  view : ∀ value, heap.Has value → after.view value = heap.view value

variable {heap middle after : Heap} {value child target source : Value} {id : BodyId} {body : Body}
  {datum : Datum}

theorem Keeps.refl (sound : heap.Sound) : heap.Keeps heap := ⟨sound, le_rfl, fun _ _ => rfl⟩

theorem Keeps.trans (early : heap.Keeps middle) (late : middle.Keeps after) : heap.Keeps after where
  sound := late.sound
  size := early.size.trans late.size
  view := by
    intro value has
    rw [late.view value (has.mono early.size), early.view value has]

theorem Extends.keeps (extended : heap.Extends after) (before : heap.Sound) (sound : after.Sound) :
    heap.Keeps after where
  sound := sound
  size := extended.size
  view := fun value has => extended.view (before value has)

namespace Replaces

variable (sound : heap.Sound) (replaces : heap.Replaces after id datum)

include sound replaces

theorem spares (has : heap.Has value) (away : ¬ heap.Reaches value (some id)) :
    heap.Spares after value where
  size := replaces.size
  bodies := by
    intro target reaches
    apply replaces.others target ((sound value has).reached reaches).has
    intro same
    subst same
    exact away reaches

/-- No way to the body is new. -/
theorem reaches_of_reaches (has : heap.Has value) (reaches : after.Reaches value (some id)) :
    heap.Reaches value (some id) := by
  induction reaches using Relation.ReflTransGen.head_induction_on with
  | refl => exact .refl
  | @head value child holds _ hypothesis =>
      by_cases same : value = some id
      · subst same
        exact .refl
      · obtain ⟨body, found, inside⟩ := holds
        rw [replaces.others value has same] at found
        have holds : heap.Holds value child := .of_body? found inside
        exact (hypothesis ((sound value has).element holds).has).head holds

/-- If the tree of the changed body is the one it had, so is that of every value. -/
theorem keeps (same : datum = heap.view (some id)) : heap.Keeps after where
  sound := replaces.sound
  size := replaces.size
  view := by
    intro value has
    have founded := sound value has
    induction founded with
    | @intro value _ children hypothesis =>
        by_cases changed : value = some id
        · rw [changed, replaces.view, same]
        · rw [(sound value has).view_eq, (replaces.sound value (has.mono replaces.size)).view_eq,
            replaces.others value has changed]
          cases found : heap.body? value with
          | none => rfl
          | some body =>
              apply Body.datum_congr
              intro child inside
              have holds : heap.Holds value child := .of_body? found inside
              exact hypothesis child holds (children child holds).has

end Replaces

theorem Replaces.of_extends (extended : heap.Extends middle)
    (replaces : middle.Replaces after id datum) : heap.Replaces after id datum where
  sound := replaces.sound
  size := extended.size.trans replaces.size
  others := by
    intro value has different
    rw [replaces.others value (has.mono extended.size) different, extended.bodies value has]
  view := replaces.view

/-! Writing. -/

theorem spares_write (away : ¬ heap.Reaches value (some id)) :
    heap.Spares (heap.write id body) value where
  size := (heap.size_write id body).ge
  bodies := by
    intro target reaches
    apply body?_write_of_ne
    intro same
    subst same
    exact away reaches

/-- A body that does not come to hold itself may be replaced. -/
theorem replaces_write (sound : heap.Sound) (inside : heap.Has (some id))
    (known : ∀ child, body.Holds child → heap.Has child ∧ ¬ heap.Reaches child (some id)) :
    heap.Replaces (heap.write id body) id (body.datum heap.view) := by
  have written := body?_write_self body (inside id rfl)
  have elements {child : Value} (holds : body.Holds child) :
      heap.Spares (heap.write id body) child := spares_write (known child holds).2
  have own : (heap.write id body).Founded (some id) := by
    apply Founded.intro (inside.mono (heap.size_write id body).ge)
    intro child given
    obtain ⟨held, found, holds⟩ := given
    rw [written] at found
    cases found
    exact (elements holds).founded (sound child (known child holds).1)
  refine ⟨?_, (heap.size_write id body).ge, fun value _ different => body?_write_of_ne body different, ?_⟩
  · intro value has
    have founded := sound value (has.mono (heap.size_write id body).le)
    induction founded with
    | @intro value _ _ hypothesis =>
        by_cases same : value = some id
        · subst same
          exact own
        · apply Founded.intro has
          intro child given
          obtain ⟨held, found, inside⟩ := given
          rw [body?_write_of_ne body same] at found
          have holds : heap.Holds value child := .of_body? found inside
          have earlier := holds_known sound found child inside
          exact hypothesis child holds (earlier.mono (heap.size_write id body).ge)
  · rw [own.view_of_body? written]
    apply Body.datum_congr
    intro child holds
    exact (elements holds).view (sound child (known child holds).1)

/-! Taking over another value. -/

/-- The body has the tree of the source, which may have held it. -/
theorem replaces_takeOver (sound : heap.Sound) (inside : heap.Has (some id))
    (found : heap.body? source = some body) :
    heap.Replaces (heap.takeOver id source) id (heap.view source) := by
  have founded := sound source (.of_body? found)
  unfold takeOver
  split
  · next same =>
      subst same
      exact ⟨sound, le_rfl, fun _ _ _ => rfl, rfl⟩
  · next different =>
      cases contained : heap.reaches source id with
      | true =>
          have made := made_deepCopy sound source
          simp only [if_true]
          cases copied : (heap.deepCopy source).2.body? (heap.deepCopy source).1 with
          | none =>
              have blank := made.view
              rw [view_of_body?_eq_none copied, founded.view_of_body? found] at blank
              exact (body.datum_ne_empty _ blank.symm).elim
          | some copy =>
              have written : (heap.deepCopy source).2.Replaces
                  ((heap.deepCopy source).2.write id copy) id (copy.datum (heap.deepCopy source).2.view) := by
                apply replaces_write made.sound (inside.mono made.extended.size)
                intro child holds
                refine ⟨holds_known made.sound copied child holds, fun back => ?_⟩
                have new := made.fresh id (back.head (.of_body? copied holds))
                have old := inside id rfl
                omega
              rw [← made.view, (made.sound _ made.has).view_of_body? copied]
              exact written.of_extends made.extended
      | false =>
          simp only [Bool.false_eq_true, if_false, found]
          rw [founded.view_of_body? found]
          apply replaces_write sound inside
          intro child holds
          refine ⟨holds_known sound found child holds, fun back => ?_⟩
          rw [reaches_of_reaches (back.head (.of_body? found holds))] at contained
          cases contained

/-! Another element. -/

theorem setElement_eq_write (found : heap.body? (some id) = some body) (index : Nat)
    (element : Value) :
    heap.setElement (some id) index element = heap.write id (body.setElement index element) := by
  simp only [setElement, write, Heap.mk.injEq]
  apply Array.ext_getElem?
  intro place
  rw [Array.getElem?_modify, Array.getElem?_setIfInBounds]
  split
  · next same =>
      subst same
      have inRange : id.index < heap.bodies.size := lt_size_of_body? found
      simp only [body?] at found
      rw [found, if_pos inRange, Option.map_some]
  · rfl

/-- In an array that is not held by its new element, the tree changes at one position. -/
theorem replaces_setElement {type : Ty} {elements : Array Value} {index : Nat} {element : Value}
    (sound : heap.Sound) (found : heap.body? (some id) = some ⟨type, .array elements⟩)
    (has : heap.Has element) (away : ¬ heap.Reaches element (some id)) :
    heap.Replaces (heap.setElement (some id) index element) id
      (.array type ((elements.setIfInBounds index element).toList.map heap.view)) := by
  rw [setElement_eq_write found]
  apply replaces_write sound (.of_body? found)
  intro child given
  obtain ⟨held, ⟨⟩, inside⟩ := given
  rcases Array.mem_or_eq_of_mem_setIfInBounds inside with old | rfl
  · have holds : heap.Holds (some id) child := .of_body? found ⟨elements, rfl, old⟩
    have founded := sound _ (.of_body? found)
    exact ⟨(founded.element holds).has, founded.not_reaches holds⟩
  · exact ⟨has, away⟩

end CoopScript.Heap
