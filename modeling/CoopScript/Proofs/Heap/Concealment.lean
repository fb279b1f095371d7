import CoopScript.Proofs.Heap.Lodging

/-!
Bodies that no array names. Whoever has other handles only can neither change such a body nor come to
name it: what is read off the heap, and what is made of that, are other handles again.
-/

namespace CoopScript

theorem Body.holds_of_setElement {body : Body} {index : Nat} {element child : Value}
    (holds : (body.setElement index element).Holds child) : child = element ∨ body.Holds child := by
  obtain ⟨type, data⟩ := body
  cases data with
  | scalar payload => exact .inr holds
  | array elements =>
      obtain ⟨_, ⟨⟩, inside⟩ := holds
      rcases Array.mem_or_eq_of_mem_setIfInBounds inside with old | rfl
      · exact .inr ⟨elements, rfl, old⟩
      · exact .inl rfl

namespace Heap

/-- The heap has the body in this place, and no array names it. -/
structure Conceals (heap : Heap) (own : BodyId) (body : Body) : Prop where
  there : heap.body? (some own) = some body
  apart : ∀ value, ¬ heap.Holds value (some own)

variable {heap : Heap} {own id : BodyId} {body new : Body} {value source array element : Value}
  {position : Nat}

theorem Conceals.index_lt (conceals : heap.Conceals own body) : own.index < heap.size :=
  lt_size_of_body? conceals.there

/-! New bodies. -/

theorem Conceals.allocate (conceals : heap.Conceals own body) (away : ¬ new.Holds (some own)) :
    (heap.allocate new).2.Conceals own body where
  there := body?_allocate_of_body? new conceals.there
  apart := by
    rintro value ⟨held, found, holds⟩
    rw [body?_allocate_eq] at found
    split at found
    · cases found
      exact away holds
    · exact conceals.apart value ⟨held, found, holds⟩

/-- No array of a sound heap names a scalar that is made now. -/
theorem Sound.conceals_allocate (sound : heap.Sound) (type : Ty) (payload : Scalar) :
    (heap.allocate ⟨type, .scalar payload⟩).2.Conceals ⟨heap.size⟩ ⟨type, .scalar payload⟩ where
  there := body?_allocate ..
  apart := by
    rintro value ⟨held, found, holds⟩
    rw [body?_allocate_eq] at found
    split at found
    · cases found
      obtain ⟨_, ⟨⟩, _⟩ := holds
    · exact Nat.lt_irrefl _ (holds_known sound found _ holds _ rfl)

theorem Conceals.allocate_ne (conceals : heap.Conceals own body) (new : Body) :
    (heap.allocate new).1 ≠ some own := by
  intro same
  have less := conceals.index_lt
  cases same
  exact Nat.lt_irrefl _ less

mutual

/-- A tree that is built is a value of new bodies. -/
theorem conceals_build (datum : Datum) (heap : Heap) (conceals : heap.Conceals own body) :
    (build datum heap).2.Conceals own body ∧ (build datum heap).1 ≠ some own := by
  cases datum with
  | empty => exact ⟨conceals, nofun⟩
  | scalar type payload => exact ⟨conceals.allocate (by rintro ⟨_, ⟨⟩, _⟩), conceals.allocate_ne _⟩
  | array type elements =>
      obtain ⟨later, others⟩ := conceals_buildAll elements #[] heap conceals (by simp)
      refine ⟨later.allocate ?_, later.allocate_ne _⟩
      rintro ⟨_, ⟨⟩, inside⟩
      exact others inside

theorem conceals_buildAll (data : List Datum) (built : Array Value) (heap : Heap)
    (conceals : heap.Conceals own body) (others : some own ∉ built) :
    (buildAll data built heap).2.Conceals own body ∧ some own ∉ (buildAll data built heap).1 := by
  cases data with
  | nil => exact ⟨conceals, others⟩
  | cons datum rest =>
      obtain ⟨later, different⟩ := conceals_build datum heap conceals
      refine conceals_buildAll rest _ _ later ?_
      rw [Array.mem_push]
      exact not_or.mpr ⟨others, different.symm⟩

end

namespace Conceals

variable (conceals : heap.Conceals own body)

include conceals

/-! Bodies that change in place. -/

theorem write (different : id ≠ own) (away : ¬ new.Holds (some own)) :
    (heap.write id new).Conceals own body where
  there := by
    rw [body?_write_of_ne new fun same => different (Option.some.inj same).symm]
    exact conceals.there
  apart := by
    rintro value ⟨held, found, holds⟩
    by_cases same : value = some id
    · subst same
      have inRange : id.index < heap.size := (heap.size_write id new) ▸ lt_size_of_body? found
      rw [body?_write_self new inRange] at found
      cases found
      exact away holds
    · rw [body?_write_of_ne new same] at found
      exact conceals.apart value ⟨held, found, holds⟩

theorem takeOver (different : id ≠ own) (source : Value) :
    (heap.takeOver id source).Conceals own body := by
  unfold Heap.takeOver
  split
  · exact conceals
  · have copied : (if heap.reaches source id then heap.deepCopy source
        else (source, heap)).2.Conceals own body := by
      split
      · exact (conceals_build (heap.view source) heap conceals).1
      · exact conceals
    dsimp only
    split
    · next held found =>
        exact copied.write different fun holds => copied.apart _ ⟨held, found, holds⟩
    · exact copied

theorem setElement (different : array ≠ some own) (other : element ≠ some own) (position : Nat) :
    (heap.setElement array position element).Conceals own body := by
  cases array with
  | none => exact conceals
  | some id =>
      cases found : heap.body? (some id) with
      | none =>
          rw [setElement_of_missing found]
          exact conceals
      | some held =>
          rw [setElement_eq_write found]
          refine conceals.write (fun same => different (congrArg some same)) fun holds => ?_
          rcases Body.holds_of_setElement holds with rfl | old
          · exact other rfl
          · exact conceals.apart (some id) ⟨held, found, old⟩

/-! What is read. -/

theorem index_ne (indexed : heap.index array position = .ok element) : element ≠ some own := by
  rintro rfl
  obtain ⟨type, elements, found, there⟩ := index_eq_ok_iff.mp indexed
  exact conceals.apart array ⟨_, found, elements, rfl, Array.mem_of_getElem? there⟩

theorem copy (value : Value) :
    (heap.copy value).2.Conceals own body ∧ (heap.copy value).1 ≠ some own := by
  unfold Heap.copy
  split
  · next held found =>
      refine ⟨conceals.allocate fun holds => conceals.apart value ⟨held, found, holds⟩, ?_⟩
      exact conceals.allocate_ne held
  · exact ⟨conceals, nofun⟩

theorem uniquify (different : value ≠ some own) (roots : List Value) :
    (heap.uniquify roots value).2.Conceals own body ∧ (heap.uniquify roots value).1 ≠ some own := by
  unfold Heap.uniquify
  split
  · exact conceals.copy value
  · exact ⟨conceals, different⟩

theorem claim (different : array ≠ some own) (other : element ≠ some own) (roots : List Value)
    (position : Nat) :
    (heap.claim roots array position element).2.Conceals own body ∧
      (heap.claim roots array position element).1 ≠ some own := by
  unfold Heap.claim
  split
  · obtain ⟨later, fresh⟩ := conceals.copy element
    exact ⟨later.setElement different fresh position, fresh⟩
  · exact ⟨conceals, other⟩

end Conceals

end Heap

end CoopScript
