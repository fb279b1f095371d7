import CoopScript.Proofs.Machine.Lodger
import CoopScript.Proofs.Heap.Neighbours

/-!
The places of a heap from one moment to the next: once the heap has grown there, and once the heap
around it has changed elsewhere.
-/

namespace CoopScript

theorem Body.rename_congr {place other : BodyId → BodyId} {body : Body}
    (same : ∀ child, body.Holds child → Value.rename place child = Value.rename other child) :
    body.rename place = body.rename other := by
  obtain ⟨type, data⟩ := body
  cases data with
  | scalar payload => rfl
  | array elements =>
      have elements : elements.map (Value.rename place) = elements.map (Value.rename other) :=
        Array.map_congr_left fun child inside => same child ⟨elements, rfl, inside⟩
      rw [rename_array, rename_array, elements]

namespace Lodging

variable {lodging : Lodging} {heap host : Heap} {machine : Machine} {id : BodyId}

/-- The lodging of a heap without bodies. -/
def vacant (host : Heap) : Lodging where
  host := host
  size := 0
  place := fun id => ⟨host.size + id.index⟩
  injective := by
    intro first second same
    cases first
    cases second
    simpa using same
  inside := fun _ none => absurd none (Nat.not_lt_zero _)
  beyond := by simp

/-- The lodging at the moment when the heap has the given bodies. -/
def grow (lodging : Lodging) (heap : Heap) (fits : lodging.size ≤ heap.size) : Lodging where
  host := lodging.heap heap
  size := heap.size
  place := lodging.place
  injective := lodging.injective
  inside := by
    intro id inside
    rw [size_heap]
    exact index_place_lt inside
  beyond := by
    intro count
    have place : (lodging.place ⟨heap.size + count⟩).index = _ :=
      index_place_of_le (by simp only; omega)
    apply congrArg BodyId.mk
    rw [size_heap]
    simp only [place]
    omega

theorem heap_grow (fits : lodging.size ≤ heap.size) :
    (lodging.grow heap fits).heap heap = lodging.heap heap := by
  symm
  apply eq_heap
  · exact le_rfl
  · exact fun id => body?_heap fits (some id)
  · exact fun _ _ => rfl

theorem machine_grow (fits : lodging.size ≤ machine.heap.size) :
    (lodging.grow machine.heap fits).machine machine = lodging.machine machine := by
  unfold Lodging.machine
  rw [heap_grow]
  rfl

/-- The lodging at the moment when the heap around it is the given one. -/
def shift (lodging : Lodging) (host : Heap) (larger : lodging.host.size ≤ host.size) : Lodging where
  host := host
  size := lodging.size
  place := fun id =>
    if id.index < lodging.size then lodging.place id
    else ⟨host.size + (id.index - lodging.size)⟩
  injective := by
    intro first second same
    have below (id : BodyId) (old : id.index < lodging.size) : (lodging.place id).index < host.size :=
      (lodging.inside id old).trans_le larger
    dsimp only at same
    split at same
    · next old =>
        split at same
        · exact lodging.injective same
        · have below := below first old
          rw [same] at below
          exact absurd below (Nat.not_lt.mpr (Nat.le_add_right _ _))
    · split at same
      · next old =>
          have below := below second old
          rw [← same] at below
          exact absurd below (Nat.not_lt.mpr (Nat.le_add_right _ _))
      · cases first
        cases second
        simp only [BodyId.mk.injEq] at *
        omega
  inside := by
    intro id old
    rw [if_pos old]
    exact (lodging.inside id old).trans_le larger
  beyond := by
    intro count
    simp

section Shift

variable {larger : lodging.host.size ≤ host.size}

theorem place_shift_of_lt (old : id.index < lodging.size) :
    (lodging.shift host larger).place id = lodging.place id := if_pos old

theorem value_shift {value : Value} (old : ∀ id, value = some id → id.index < lodging.size) :
    (lodging.shift host larger).value value = lodging.value value := by
  cases value with
  | none => rfl
  | some id => exact congrArg some (place_shift_of_lt (old id rfl))

theorem heap_shift (sound : heap.Sound) (size : heap.size = lodging.size)
    (stays : ∀ id, id.index < lodging.size →
      host.body? (some (lodging.place id)) = (heap.body? (some id)).map lodging.body) :
    (lodging.shift host larger).heap heap = host := by
  symm
  apply eq_heap
  · exact size.ge
  · intro id
    by_cases old : id.index < lodging.size
    · rw [place_shift_of_lt old, stays id old]
      cases found : heap.body? (some id) with
      | none => rfl
      | some body =>
          apply congrArg some
          apply Body.rename_congr
          intro child holds
          have founded := sound (some id) (.of_body? found)
          have has := (founded.element (.of_body? found holds)).has
          exact (value_shift (size ▸ has)).symm
    · have missing : heap.body? (some id) = none :=
        Array.getElem?_eq_none (size.trans_le (Nat.le_of_not_lt old))
      have beyond : (lodging.shift host larger).place id = ⟨host.size + (id.index - lodging.size)⟩ :=
        if_neg old
      rw [missing, beyond]
      exact Array.getElem?_eq_none (Nat.le_add_right _ _)
  · exact fun _ _ => rfl

/-- The machine does not notice that the heap changed elsewhere. -/
theorem machine_shift (grounded : machine.Grounded) (size : machine.heap.size = lodging.size)
    (stays : ∀ id, id.index < lodging.size →
      host.body? (some (lodging.place id)) = (machine.heap.body? (some id)).map lodging.body) :
    (lodging.shift host larger).machine machine = { lodging.machine machine with heap := host } := by
  have frames : machine.frames.rename (lodging.shift host larger).place =
      machine.frames.rename lodging.place := by
    apply FrameArena.rename_congr
    intro value held
    have has := FrameArena.within_iff.mp grounded.within value held
    exact value_shift (size ▸ has)
  unfold Lodging.machine
  rw [heap_shift grounded.sound size stays, frames]

end Shift

end Lodging

end CoopScript
