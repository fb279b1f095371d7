import CoopScript.Proofs.Heap.Lodging

/-!
A heap among bodies that its own do not lead to and that do not lead to its own. Trees are the same
there, so is the number of handles on a body, and so is what becomes of bodies that are shared or not.
-/

namespace CoopScript

open Relation (ReflTransGen)

namespace Lodging

variable {lodging : Lodging} {heap : Heap} {value target source child element : Value} {id : BodyId}
  {outside roots : List Value}

/-! Trees. -/

theorem size_le_host (lodging : Lodging) : lodging.size ≤ lodging.host.size := by
  have maps : Set.MapsTo (fun index => (lodging.place ⟨index⟩).index)
      (Finset.range lodging.size) (Finset.range lodging.host.size) := by
    intro index own
    have inside := lodging.inside ⟨index⟩ (Finset.mem_range.mp own)
    exact Finset.mem_coe.mpr (Finset.mem_range.mpr inside)
  have injective : Set.InjOn (fun index => (lodging.place ⟨index⟩).index)
      (Finset.range lodging.size) := by
    intro first _ second _ same
    have places : lodging.place ⟨first⟩ = lodging.place ⟨second⟩ := congrArg BodyId.mk same
    exact congrArg BodyId.index (lodging.injective places)
  simpa using Finset.card_le_card_of_injOn _ maps injective

theorem host_size_le (lodging : Lodging) (heap : Heap) :
    lodging.host.size ≤ (lodging.heap heap).size := by
  rw [size_heap]
  exact Nat.le_add_right _ _

section Fitting

variable (fits : lodging.size ≤ heap.size)

include fits

theorem size_le_heap : heap.size ≤ (lodging.heap heap).size := by
  have fewer := lodging.size_le_host
  rw [size_heap]
  omega

theorem view_heap (sound : heap.Sound) (value : Value) :
    (lodging.heap heap).view (lodging.value value) = heap.view value := by
  cases found : heap.body? value with
  | none =>
      rw [Heap.view_of_body?_eq_none found, Heap.view_of_body?_eq_none]
      rw [body?_heap fits, found]
      rfl
  | some body =>
      have founded := sound value (.of_body? found)
      obtain ⟨further, size⟩ := Nat.exists_eq_add_of_le (size_le_heap fits)
      rw [Heap.view, size, viewWithin_heap fits, founded.viewWithin_add (heap.card_reached_le value)]
      rfl

theorem order_heap (sound : heap.Sound) (left right : Value) :
    (lodging.heap heap).order (lodging.value left) (lodging.value right) = heap.order left right := by
  simp only [Heap.order_eq, view_heap fits sound]

theorem arith_heap (sound : heap.Sound) (operator : ArithOp) (left right : Value) :
    (lodging.heap heap).arith operator (lodging.value left) (lodging.value right) =
      heap.arith operator left right := by
  simp only [Heap.arith_eq, view_heap fits sound]

theorem unary_heap (sound : heap.Sound) (operator : UnaryOp) (operand : Value) :
    (lodging.heap heap).unary operator (lodging.value operand) = heap.unary operator operand := by
  simp only [Heap.unary_eq, view_heap fits sound]

end Fitting

/-! Building. -/

end Lodging

namespace Heap

mutual

theorem size_le_build (datum : Datum) (heap : Heap) : heap.size ≤ (build datum heap).2.size := by
  cases datum with
  | empty => exact le_rfl
  | scalar type payload => exact (heap.extends_allocate _).size
  | array type elements =>
      exact (size_le_buildAll elements #[] heap).trans (extends_allocate _ _).size

theorem size_le_buildAll (data : List Datum) (built : Array Value) (heap : Heap) :
    heap.size ≤ (buildAll data built heap).2.size := by
  cases data with
  | nil => exact le_rfl
  | cons datum rest => exact (size_le_build datum heap).trans (size_le_buildAll rest _ _)

end

theorem size_le_takeOver (heap : Heap) (id : BodyId) (source : Value) :
    heap.size ≤ (heap.takeOver id source).size := by
  unfold takeOver
  split
  · exact le_rfl
  · cases heap.reaches source id with
    | true =>
        simp only [if_true]
        split
        · rw [size_write]
          exact size_le_build _ heap
        · exact size_le_build _ heap
    | false =>
        simp only [Bool.false_eq_true, if_false]
        split
        · rw [size_write]
        · exact le_rfl

theorem size_le_copy (heap : Heap) (value : Value) : heap.size ≤ (heap.copy value).2.size := by
  unfold copy
  split
  · exact (heap.extends_allocate _).size
  · exact le_rfl

theorem size_le_uniquify (heap : Heap) (roots : List Value) (value : Value) :
    heap.size ≤ (heap.uniquify roots value).2.size := by
  unfold uniquify
  split
  · exact heap.size_le_copy value
  · exact le_rfl

theorem size_le_claim (heap : Heap) (roots : List Value) (array : Value) (position : Nat)
    (element : Value) : heap.size ≤ (heap.claim roots array position element).2.size := by
  unfold claim
  split
  · exact (heap.size_le_copy element).trans (size_setElement ..).ge
  · exact le_rfl

end Heap

namespace Lodging

variable {lodging : Lodging} {heap : Heap} {value target source child element : Value} {id : BodyId}
  {outside roots : List Value}

mutual

theorem build_heap (datum : Datum) (heap : Heap) (fits : lodging.size ≤ heap.size) :
    Heap.build datum (lodging.heap heap) =
      Prod.map lodging.value lodging.heap (Heap.build datum heap) := by
  cases datum with
  | empty => rfl
  | scalar type payload => exact allocate_heap fits ⟨type, .scalar payload⟩
  | array type elements =>
      have all := buildAll_heap elements #[] heap fits
      rw [Array.map_empty] at all
      rw [Heap.build, Heap.build, all]
      exact allocate_heap (fits.trans (Heap.size_le_buildAll elements #[] heap)) ⟨type, .array _⟩

theorem buildAll_heap (data : List Datum) (built : Array Value) (heap : Heap)
    (fits : lodging.size ≤ heap.size) :
    Heap.buildAll data (built.map lodging.value) (lodging.heap heap) =
      Prod.map (Array.map lodging.value) lodging.heap (Heap.buildAll data built heap) := by
  cases data with
  | nil => rfl
  | cons datum rest =>
      have later := fits.trans (Heap.size_le_build datum heap)
      rw [Heap.buildAll, Heap.buildAll, build_heap datum heap fits]
      simp only [Prod.map_fst, Prod.map_snd, ← Array.map_push]
      exact buildAll_heap rest _ _ later

end

theorem deepCopy_heap (fits : lodging.size ≤ heap.size) (sound : heap.Sound) (value : Value) :
    (lodging.heap heap).deepCopy (lodging.value value) =
      Prod.map lodging.value lodging.heap (heap.deepCopy value) := by
  unfold Heap.deepCopy
  rw [view_heap fits sound, build_heap _ heap fits]

/-! Holders. -/

/-- Nothing that the value reaches is at a place of the heap. -/
def Spared (lodging : Lodging) (value : Value) : Prop :=
  ∀ id, lodging.host.Reaches value (some id) → lodging.Foreign id

theorem Spared.spares (spared : lodging.Spared value) :
    lodging.host.Spares (lodging.heap heap) value where
  size := lodging.host_size_le heap
  bodies := by
    intro target reaches
    cases target with
    | none => rfl
    | some id => exact body?_heap_of_foreign (spared id reaches)

section Fitting

variable (fits : lodging.size ≤ heap.size)

include fits

theorem holds_heap_iff : (lodging.heap heap).Holds (lodging.value value) child ↔
    ∃ inner, heap.Holds value inner ∧ child = lodging.value inner := by
  unfold Heap.Holds
  rw [body?_heap fits]
  constructor
  · rintro ⟨_, renamed, holds⟩
    obtain ⟨body, found, rfl⟩ := Option.map_eq_some_iff.mp renamed
    obtain ⟨inner, inside, rfl⟩ := Body.holds_rename_iff.mp holds
    exact ⟨inner, ⟨body, found, inside⟩, rfl⟩
  · rintro ⟨inner, ⟨body, found, inside⟩, rfl⟩
    refine ⟨lodging.body body, by rw [found]; rfl, ?_⟩
    exact Body.holds_rename_iff.mpr ⟨inner, inside, rfl⟩

theorem reaches_heap_iff : (lodging.heap heap).Reaches (lodging.value value) target ↔
    ∃ inner, heap.Reaches value inner ∧ target = lodging.value inner := by
  constructor
  · intro reaches
    induction reaches with
    | refl => exact ⟨value, .refl, rfl⟩
    | tail _ holds hypothesis =>
        obtain ⟨mid, reaches, rfl⟩ := hypothesis
        obtain ⟨inner, inside, rfl⟩ := (holds_heap_iff fits).mp holds
        exact ⟨inner, reaches.tail inside, rfl⟩
  · rintro ⟨inner, reaches, rfl⟩
    induction reaches with
    | refl => exact .refl
    | tail _ inside hypothesis => exact hypothesis.tail ((holds_heap_iff fits).mpr ⟨_, inside, rfl⟩)

theorem reaches_heap (value : Value) (id : BodyId) :
    (lodging.heap heap).reaches (lodging.value value) (lodging.place id) = heap.reaches value id := by
  rw [Bool.eq_iff_iff, Heap.reaches_iff, Heap.reaches_iff, ← value_some, reaches_heap_iff fits]
  constructor
  · rintro ⟨inner, reaches, same⟩
    rwa [lodging.value_injective same]
  · intro reaches
    exact ⟨_, reaches, rfl⟩

theorem weight_heap (value : Value) (index : Nat) :
    (lodging.heap heap).weight (lodging.value value) (lodging.place ⟨index⟩).index =
      heap.weight value index := by
  unfold Heap.weight
  have found := body?_heap fits (some ⟨index⟩)
  rw [value_some] at found
  rw [found]
  cases heap.body? (some ⟨index⟩) with
  | none => rfl
  | some body =>
      simp only [Option.map_some, Option.bind_some, Body.elements?_rename]
      cases body.elements? with
      | none => rfl
      | some elements =>
          simp only [Option.map_some, ← Array.count_toList, Array.toList_map]
          exact List.count_map_of_injective _ _ lodging.value_injective _

/-- Bodies elsewhere hold none of the heap's own. -/
theorem holder_of_weight {index : Nat} (spared : ∀ value ∈ outside, lodging.Spared value)
    (live : index ∈ (lodging.heap heap).live (outside ++ roots.map lodging.value))
    (positive : 0 < (lodging.heap heap).weight (lodging.value (some id)) index) :
    ∃ root ∈ roots, ∃ own, heap.Reaches root (some ⟨own⟩) ∧ (lodging.place ⟨own⟩).index = index := by
  have holds := Heap.weight_pos_iff.mp positive
  obtain ⟨root, listed, reaches⟩ := Heap.reaches_of_mem_live live
  rcases List.mem_append.mp listed with out | own
  · have further := (spared root out).spares.reaches_iff.mp (reaches.tail holds)
    exact absurd rfl (spared root out _ further id)
  · obtain ⟨root, inside, rfl⟩ := List.mem_map.mp own
    obtain ⟨inner, reaches, same⟩ := (reaches_heap_iff fits).mp reaches
    cases inner with
    | none => cases same
    | some inner =>
        have named := congrArg BodyId.index (Option.some.inj same)
        exact ⟨root, inside, inner.index, reaches, named.symm⟩

/-- Handles elsewhere do not count. -/
theorem referenceCount_heap (spared : ∀ value ∈ outside, lodging.Spared value) (value : Value) :
    (lodging.heap heap).referenceCount (outside ++ roots.map lodging.value) (lodging.value value) =
      heap.referenceCount roots value := by
  cases value with
  | none => rfl
  | some id =>
      have apart : lodging.value (some id) ∉ outside := by
        intro inside
        exact spared _ inside (lodging.place id) .refl id rfl
      have roots_count : (outside ++ roots.map lodging.value).count (lodging.value (some id)) =
          roots.count (some id) := by
        rw [List.count_append, List.count_eq_zero_of_not_mem apart, Nat.zero_add,
          List.count_map_of_injective _ _ lodging.value_injective]
      rw [value_some, Heap.referenceCount_eq, Heap.referenceCount_eq, ← value_some, roots_count,
        Nat.add_right_inj]
      symm
      refine Finset.sum_bij_ne_zero (fun index _ _ => (lodging.place ⟨index⟩).index) ?_ ?_ ?_ ?_
      · intro index live held
        obtain ⟨root, inside, reaches⟩ := Heap.reaches_of_mem_live
          (Std.TreeSet.mem_toList.mp (List.mem_toFinset.mp live))
        have positive : 0 < (lodging.heap heap).weight (lodging.value (some id))
            (lodging.place ⟨index⟩).index := by
          rw [weight_heap fits]
          exact Nat.pos_of_ne_zero held
        have leads : (lodging.heap heap).Reaches (lodging.value root) (lodging.value (some ⟨index⟩)) :=
          (reaches_heap_iff fits).mpr ⟨_, reaches, rfl⟩
        exact Heap.mem_live_of_weight (List.mem_append_right _ (List.mem_map_of_mem inside)) leads
          positive
      · intro first _ _ second _ _ same
        have places : lodging.place ⟨first⟩ = lodging.place ⟨second⟩ := congrArg BodyId.mk same
        exact congrArg BodyId.index (lodging.injective places)
      · intro index live held
        obtain ⟨root, inside, own, reaches, rfl⟩ := holder_of_weight fits spared
          (Std.TreeSet.mem_toList.mp (List.mem_toFinset.mp live)) (Nat.pos_of_ne_zero held)
        rw [weight_heap fits] at held
        exact ⟨own, Heap.mem_live_of_weight inside reaches (Nat.pos_of_ne_zero held), held, rfl⟩
      · intro index _ _
        exact (weight_heap fits _ index).symm

theorem isShared_heap (spared : ∀ value ∈ outside, lodging.Spared value) (value : Value) :
    (lodging.heap heap).isShared (outside ++ roots.map lodging.value) (lodging.value value) =
      heap.isShared roots value := by
  unfold Heap.isShared
  rw [referenceCount_heap fits spared]

theorem uniquify_heap (spared : ∀ value ∈ outside, lodging.Spared value) (value : Value) :
    (lodging.heap heap).uniquify (outside ++ roots.map lodging.value) (lodging.value value) =
      Prod.map lodging.value lodging.heap (heap.uniquify roots value) := by
  unfold Heap.uniquify
  rw [isShared_heap fits spared]
  split
  · exact copy_heap fits value
  · rfl

theorem claim_heap (spared : ∀ value ∈ outside, lodging.Spared value) (array : Value)
    (position : Nat) (element : Value) :
    (lodging.heap heap).claim (outside ++ roots.map lodging.value) (lodging.value array) position
        (lodging.value element) =
      Prod.map lodging.value lodging.heap (heap.claim roots array position element) := by
  unfold Heap.claim
  rw [isShared_heap fits spared]
  split
  · rw [copy_heap fits]
    exact Prod.ext rfl (setElement_heap (fits.trans (heap.size_le_copy element)) array position _)
  · rfl

theorem takeOver_heap (sound : heap.Sound) (id : BodyId) (source : Value) :
    (lodging.heap heap).takeOver (lodging.place id) (lodging.value source) =
      lodging.heap (heap.takeOver id source) := by
  have same : lodging.value source = some (lodging.place id) ↔ source = some id := by
    rw [← value_some, lodging.value_injective.eq_iff]
  unfold Heap.takeOver
  simp only [same, reaches_heap fits]
  split
  · rfl
  · cases heap.reaches source id with
    | true =>
        have made := Heap.made_deepCopy sound source
        have larger := fits.trans made.extended.size
        simp only [if_true, deepCopy_heap fits sound, Prod.map_fst, Prod.map_snd, body?_heap larger]
        cases (heap.deepCopy source).2.body? (heap.deepCopy source).1 with
        | none => rfl
        | some body => exact write_heap larger id body
    | false =>
        simp only [Bool.false_eq_true, if_false, body?_heap fits]
        cases heap.body? source with
        | none => rfl
        | some body => exact write_heap fits id body

theorem overwrite_heap (sound : heap.Sound) (target source : Value) :
    (lodging.heap heap).overwrite (lodging.value target) (lodging.value source) =
      (heap.overwrite target source).map lodging.heap := by
  unfold Heap.overwrite
  rw [overwritten_heap fits]
  cases heap.overwritten target source with
  | error cause => rfl
  | ok id => exact congrArg Except.ok (takeOver_heap fits sound id source)

end Fitting

end Lodging

end CoopScript
