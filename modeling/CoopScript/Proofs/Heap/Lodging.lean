import CoopScript.Operator
import CoopScript.Proofs.Heap.Replacement
import CoopScript.Value.Comparison

/-!
A heap that has its place inside another one, among bodies that it knows nothing of. What is read off
a value is the same in both heaps, and what changes the one changes the other in the same way.
-/

namespace CoopScript

/-- The value with its body renamed. -/
def Value.rename (place : BodyId → BodyId) (value : Value) : Value := Option.map place value

namespace Value

variable {place other : BodyId → BodyId} {value second : Value} {id : BodyId}

@[simp] theorem rename_none : rename place none = none := rfl

@[simp] theorem rename_some : rename place (some id) = some (place id) := rfl

theorem rename_injective (injective : place.Injective) : (rename place).Injective :=
  Option.map_injective injective

end Value

/-- The body with its elements renamed. -/
def Body.rename (place : BodyId → BodyId) : Body → Body
  | ⟨type, .scalar payload⟩ => ⟨type, .scalar payload⟩
  | ⟨type, .array elements⟩ => ⟨type, .array (elements.map (Value.rename place))⟩

namespace Body

variable {place : BodyId → BodyId} {child : Value}

@[simp] theorem rename_scalar (type : Ty) (payload : Scalar) :
    rename place ⟨type, .scalar payload⟩ = ⟨type, .scalar payload⟩ := rfl

@[simp] theorem rename_array (type : Ty) (elements : Array Value) :
    rename place ⟨type, .array elements⟩ = ⟨type, .array (elements.map (Value.rename place))⟩ := rfl

@[simp] theorem type_rename (body : Body) : (body.rename place).type = body.type := by
  obtain ⟨type, data⟩ := body
  cases data <;> rfl

@[simp] theorem elements?_rename (body : Body) :
    (body.rename place).elements? = body.elements?.map (Array.map (Value.rename place)) := by
  obtain ⟨type, data⟩ := body
  cases data <;> rfl

@[simp] theorem elements_rename (body : Body) :
    (body.rename place).elements = body.elements.map (Array.map (Value.rename place)) := by
  obtain ⟨type, data⟩ := body
  cases data <;> rfl

theorem setElement_rename (body : Body) (index : Nat) (element : Value) :
    (body.rename place).setElement index (Value.rename place element) =
      (body.setElement index element).rename place := by
  obtain ⟨type, data⟩ := body
  cases data with
  | scalar payload => rfl
  | array elements => simp [rename, setElement, Array.map_setIfInBounds]

private theorem isEmpty_rename (values : Array Value) :
    (values.map (Value.rename place)).isEmpty = values.isEmpty := by
  simp [Array.isEmpty]

theorem append_rename (body : Body) (found : Ty) (element : Value) :
    (body.rename place).append found (Value.rename place element) =
      (body.append found element).map (rename place) := by
  obtain ⟨type, data⟩ := body
  cases data with
  | scalar payload => rfl
  | array held =>
      rw [rename_array]
      simp only [append, Body.elements, bind, Except.bind, isEmpty_rename]
      split_ifs
      · simp [pure, Except.pure, Except.map]
      · simp [pure, Except.pure, Except.map]
      · rfl

theorem concatenate_rename (body : Body) (sourceType : Ty) (incoming : Array Value) :
    (body.rename place).concatenate sourceType (incoming.map (Value.rename place)) =
      (body.concatenate sourceType incoming).map (rename place) := by
  obtain ⟨type, data⟩ := body
  cases data with
  | scalar payload => rfl
  | array held =>
      rw [rename_array]
      simp only [concatenate, Body.elements, bind, Except.bind, isEmpty_rename]
      split_ifs
      · rfl
      · rfl
      · simp [pure, Except.pure, Except.map]
      · rfl

theorem datum_rename (body : Body) (view : Value → Datum) :
    (body.rename place).datum view = body.datum (view ∘ Value.rename place) := by
  obtain ⟨type, data⟩ := body
  cases data with
  | scalar payload => rfl
  | array elements => simp [rename, datum]

theorem holds_rename_iff {body : Body} :
    (body.rename place).Holds child ↔ ∃ inner, body.Holds inner ∧ child = Value.rename place inner := by
  simp only [Holds, elements?_rename, Option.map_eq_some_iff]
  constructor
  · rintro ⟨_, ⟨elements, array, rfl⟩, inside⟩
    obtain ⟨inner, held, rfl⟩ := Array.mem_map.mp inside
    exact ⟨inner, ⟨elements, array, held⟩, rfl⟩
  · rintro ⟨inner, ⟨elements, array, held⟩, rfl⟩
    exact ⟨_, ⟨elements, array, rfl⟩, Array.mem_map_of_mem held⟩

end Body

namespace Heap

variable {heap : Heap} {value : Value} {id : BodyId}

/-- Whether the value is an array without elements. -/
def isBare (heap : Heap) (value : Value) : Bool :=
  match heap.elements value with
  | .ok elements => elements.isEmpty
  | .error _ => false

theorem body?_allocate_eq (heap : Heap) (body : Body) (value : Value) :
    (heap.allocate body).2.body? value =
      if value = (heap.allocate body).1 then some body else heap.body? value := by
  split
  · next same => rw [same, body?_allocate]
  · next different =>
      cases value with
      | none => rfl
      | some id =>
          have apart : id.index ≠ heap.bodies.size := by
            intro same
            exact different (congrArg (fun index => some (BodyId.mk index)) same)
          simp only [allocate, body?, Array.getElem?_push, if_neg apart]

theorem body?_write_same (heap : Heap) (id : BodyId) (body : Body) :
    (heap.write id body).body? (some id) = (heap.body? (some id)).map fun _ => body := by
  by_cases inside : id.index < heap.size
  · obtain ⟨old, found⟩ := exists_body? (has_some_iff.mpr inside)
    rw [body?_write_self body inside, found]
    rfl
  · have missing : heap.body? (some id) = none := Array.getElem?_eq_none (Nat.le_of_not_lt inside)
    have still : (heap.write id body).body? (some id) = none := by
      apply Array.getElem?_eq_none
      rw [← size, size_write]
      exact Nat.le_of_not_lt inside
    rw [missing, still]
    rfl

theorem size_setElement (heap : Heap) (array : Value) (position : Nat) (element : Value) :
    (heap.setElement array position element).size = heap.size := by
  cases array with
  | none => rfl
  | some id => simp [setElement, size]

theorem setElement_of_missing (missing : heap.body? (some id) = none) (position : Nat)
    (element : Value) : heap.setElement (some id) position element = heap := by
  have outside : heap.bodies.size ≤ id.index := Array.getElem?_eq_none_iff.mp missing
  cases heap
  simp only [setElement, Heap.mk.injEq]
  apply Array.ext_getElem?
  intro index
  rw [Array.getElem?_modify]
  split
  · next same =>
      subst same
      rw [Array.getElem?_eq_none outside]
      rfl
  · rfl

end Heap

/-- Where the bodies of one heap are in another, which was as given when the first one had so many.
What is added to both from then on has the same distance from there. -/
structure Lodging where
  host : Heap
  size : Nat
  place : BodyId → BodyId
  injective : place.Injective
  inside : ∀ id : BodyId, id.index < size → (place id).index < host.size
  beyond : ∀ count, place ⟨size + count⟩ = ⟨host.size + count⟩

namespace Lodging

/-- The handle in the other heap. -/
abbrev value (lodging : Lodging) : Value → Value := Value.rename lodging.place

abbrev body (lodging : Lodging) : Body → Body := Body.rename lodging.place

@[simp] theorem value_none (lodging : Lodging) : lodging.value none = none := rfl

@[simp] theorem value_some (lodging : Lodging) (id : BodyId) :
    lodging.value (some id) = some (lodging.place id) := rfl

theorem value_injective (lodging : Lodging) : lodging.value.Injective :=
  Value.rename_injective lodging.injective

/-- The other heap when this one has come to have the given bodies. -/
def heap (lodging : Lodging) (heap : Heap) : Heap :=
  ⟨Array.ofFn fun index : Fin (lodging.host.size + (heap.size - lodging.size)) =>
    match (List.range heap.size).find? fun own => lodging.place ⟨own⟩ = ⟨index⟩ with
    | some own => ((heap.body? (some ⟨own⟩)).map lodging.body).getD default
    | none => (lodging.host.body? (some ⟨index⟩)).getD default⟩

variable {lodging : Lodging} {heap other : Heap} {value target source child : Value} {id : BodyId}
  {body : Body}

theorem size_heap (lodging : Lodging) (heap : Heap) :
    (lodging.heap heap).size = lodging.host.size + (heap.size - lodging.size) := Array.size_ofFn

theorem index_place_of_le (beyond : lodging.size ≤ id.index) :
    (lodging.place id).index = lodging.host.size + (id.index - lodging.size) := by
  have same : id = ⟨lodging.size + (id.index - lodging.size)⟩ := by
    cases id
    simp only [BodyId.mk.injEq] at *
    omega
  conv_lhs => rw [same, lodging.beyond]

/-- No body of the heap is there. -/
def Foreign (lodging : Lodging) (id : BodyId) : Prop := ∀ own, lodging.place own ≠ id

theorem Foreign.lt_size (foreign : lodging.Foreign id) : id.index < lodging.host.size := by
  by_contra beyond
  apply foreign ⟨lodging.size + (id.index - lodging.host.size)⟩
  rw [lodging.beyond]
  cases id
  simp only [BodyId.mk.injEq] at *
  omega

theorem body?_heap_of_foreign (foreign : lodging.Foreign id) :
    (lodging.heap heap).body? (some id) = lodging.host.body? (some id) := by
  have inside := foreign.lt_size
  obtain ⟨found, there⟩ := Heap.exists_body? (Heap.has_some_iff.mpr inside)
  have none : ((List.range heap.size).find? fun own => lodging.place ⟨own⟩ = ⟨id.index⟩) = none := by
    rw [List.find?_eq_none]
    intro own _
    simpa using foreign ⟨own⟩
  simp only [Heap.body?] at there
  simp only [Lodging.heap, Heap.body?, Array.getElem?_ofFn]
  rw [dif_pos (by omega), none]
  simp only [there, Option.getD_some]

theorem index_place_lt (own : id.index < heap.size) :
    (lodging.place id).index < lodging.host.size + (heap.size - lodging.size) := by
  by_cases old : id.index < lodging.size
  · have := lodging.inside id old
    omega
  · rw [index_place_of_le (Nat.le_of_not_lt old)]
    omega

/-- The search for the body at a place finds the one that has its place there. -/
theorem find?_place (own : id.index < heap.size) :
    ((List.range heap.size).find? fun own => lodging.place ⟨own⟩ = lodging.place id) =
      some id.index := by
  cases found : (List.range heap.size).find? fun own => lodging.place ⟨own⟩ = lodging.place id with
  | none =>
      rw [List.find?_eq_none] at found
      exact absurd (decide_eq_true rfl) (found id.index (List.mem_range.mpr own))
  | some other =>
      have same := List.find?_some found
      rw [← lodging.injective (of_decide_eq_true same)]

section Fitting

variable (fits : lodging.size ≤ heap.size)

include fits

theorem body?_heap (value : Value) :
    (lodging.heap heap).body? (lodging.value value) = (heap.body? value).map lodging.body := by
  cases value with
  | none => rfl
  | some id =>
      by_cases own : id.index < heap.size
      · obtain ⟨body, found⟩ := Heap.exists_body? (Heap.has_some_iff.mpr own)
        simp only [Value.rename_some, Lodging.heap, Heap.body?, Array.getElem?_ofFn]
        rw [dif_pos (index_place_lt own)]
        simp only [Heap.body?] at found
        simp only [find?_place own, found, Option.map_some, Option.getD_some]
      · have outside : (lodging.place id).index = _ := index_place_of_le (by omega)
        have missing : heap.body? (some id) = none := Array.getElem?_eq_none (Nat.le_of_not_lt own)
        rw [missing]
        apply Array.getElem?_eq_none
        change (lodging.heap heap).size ≤ _
        rw [size_heap, outside]
        omega

/-- The bodies at the places of the heap's own, and those elsewhere, make up the other heap. -/
theorem eq_heap
    (own : ∀ id, other.body? (some (lodging.place id)) = (heap.body? (some id)).map lodging.body)
    (elsewhere : ∀ id, lodging.Foreign id → other.body? (some id) = lodging.host.body? (some id)) :
    other = lodging.heap heap := by
  have same (id : BodyId) : other.body? (some id) = (lodging.heap heap).body? (some id) := by
    by_cases foreign : lodging.Foreign id
    · rw [elsewhere id foreign, body?_heap_of_foreign foreign]
    · simp only [Foreign, not_forall, not_not] at foreign
      obtain ⟨inner, rfl⟩ := foreign
      rw [own, ← body?_heap fits]
      rfl
  cases other
  simp only [Lodging.heap, Heap.mk.injEq]
  apply Array.ext_getElem?
  intro index
  exact same ⟨index⟩

/-! Reading. -/

theorem get_heap (value : Value) :
    (lodging.heap heap).get (lodging.value value) = (heap.get value).map lodging.body := by
  unfold Heap.get
  rw [body?_heap fits]
  cases heap.body? value <;> rfl

theorem type?_heap (value : Value) :
    (lodging.heap heap).type? (lodging.value value) = heap.type? value := by
  unfold Heap.type?
  rw [body?_heap fits]
  cases heap.body? value <;> simp

theorem typeOf_heap (value : Value) :
    (lodging.heap heap).typeOf (lodging.value value) = heap.typeOf value := by
  unfold Heap.typeOf
  rw [get_heap fits]
  cases heap.get value with
  | error cause => rfl
  | ok body => simp [Except.map, bind, Except.bind]

theorem elements_heap (value : Value) : (lodging.heap heap).elements (lodging.value value) =
    (heap.elements value).map (Array.map lodging.value) := by
  unfold Heap.elements
  rw [get_heap fits]
  cases heap.get value with
  | error cause => rfl
  | ok body => simp [Except.map, bind, Except.bind]

theorem length_heap (value : Value) :
    (lodging.heap heap).length (lodging.value value) = heap.length value := by
  unfold Heap.length
  rw [elements_heap fits]
  cases heap.elements value with
  | error cause => rfl
  | ok elements => simp [Except.map, bind, Except.bind]

theorem isBare_heap (value : Value) :
    (lodging.heap heap).isBare (lodging.value value) = heap.isBare value := by
  unfold Heap.isBare
  rw [elements_heap fits]
  cases heap.elements value with
  | error cause => rfl
  | ok elements => simp [Except.map, Array.isEmpty]

theorem index_heap (value : Value) (position : Nat) :
    (lodging.heap heap).index (lodging.value value) position =
      (heap.index value position).map lodging.value := by
  unfold Heap.index
  rw [elements_heap fits]
  cases heap.elements value with
  | error cause => rfl
  | ok elements =>
      simp only [Except.map, bind, Except.bind, Array.getElem?_map]
      cases elements[position]? with
      | none =>
          rw [Array.size_map]
          rfl
      | some element => rfl

theorem viewWithin_heap (depth : Nat) (value : Value) :
    (lodging.heap heap).viewWithin depth (lodging.value value) = heap.viewWithin depth value := by
  induction depth generalizing value with
  | zero => rfl
  | succ depth hypothesis =>
      rw [Heap.viewWithin_succ, Heap.viewWithin_succ, body?_heap fits]
      cases heap.body? value with
      | none => rfl
      | some body =>
          simp only [Option.map_some, Body.datum_rename]
          exact Body.datum_congr fun child _ => hypothesis child

theorem surface_heap (value : Value) :
    (lodging.heap heap).surface (lodging.value value) = heap.surface value :=
  viewWithin_heap fits 1 value

theorem checkElements_heap (expected : Ty) (elements : List Value) :
    (lodging.heap heap).checkElements expected (elements.map lodging.value) =
      heap.checkElements expected elements := by
  simp only [Heap.checkElements, List.forM_eq_forM, List.forM_map, typeOf_heap fits]

theorem arrayBody_heap (type : Ty) (elements : List Value) :
    (lodging.heap heap).arrayBody type (elements.map lodging.value) =
      (heap.arrayBody type elements).map lodging.body := by
  unfold Heap.arrayBody
  split
  · rfl
  · next expected =>
    rw [checkElements_heap fits]
    cases heap.checkElements expected elements with
    | error cause => rfl
    | ok _ => simp [bind, Except.bind, pure, Except.pure, Except.map]

theorem appendedBody_heap (array element : Value) :
    (lodging.heap heap).appendedBody (lodging.value array) (lodging.value element) =
      (heap.appendedBody array element).map lodging.body := by
  unfold Heap.appendedBody
  rw [typeOf_heap fits, get_heap fits]
  cases heap.typeOf element with
  | error cause => rfl
  | ok found =>
      cases heap.get array with
      | error cause => rfl
      | ok body => exact body.append_rename found element

theorem concatenatedBody_heap (first second : Value) :
    (lodging.heap heap).concatenatedBody (lodging.value first) (lodging.value second) =
      (heap.concatenatedBody first second).map lodging.body := by
  unfold Heap.concatenatedBody
  rw [elements_heap fits, typeOf_heap fits, get_heap fits]
  cases heap.elements second with
  | error cause => rfl
  | ok incoming =>
      cases heap.typeOf second with
      | error cause => rfl
      | ok type =>
          cases heap.get first with
          | error cause => rfl
          | ok body => exact body.concatenate_rename type incoming

theorem overwritten_heap (target source : Value) :
    (lodging.heap heap).overwritten (lodging.value target) (lodging.value source) =
      (heap.overwritten target source).map lodging.place := by
  cases target with
  | none => rfl
  | some id =>
      simp only [Heap.overwritten, Value.rename_some, get_heap fits]
      cases heap.get source <;> rfl

/-! Changes. -/

theorem place_size : lodging.place ⟨heap.size⟩ = ⟨(lodging.heap heap).size⟩ := by
  have place : (lodging.place ⟨heap.size⟩).index = _ := index_place_of_le fits
  rw [size_heap]
  exact congrArg BodyId.mk place

theorem allocate_heap (body : Body) : (lodging.heap heap).allocate (lodging.body body) =
    Prod.map lodging.value lodging.heap (heap.allocate body) := by
  have named : ((lodging.heap heap).allocate (lodging.body body)).1 =
      lodging.value (heap.allocate body).1 := congrArg some (place_size fits).symm
  have larger : lodging.size ≤ (heap.allocate body).2.size := by
    rw [Heap.size_allocate]
    omega
  refine Prod.ext named ?_
  show _ = lodging.heap (heap.allocate body).2
  apply eq_heap larger
  · intro id
    rw [Heap.body?_allocate_eq, Heap.body?_allocate_eq, named, ← value_some, body?_heap fits]
    by_cases new : some id = (heap.allocate body).1
    · rw [if_pos (congrArg lodging.value new), if_pos new]
      rfl
    · rw [if_neg (lodging.value_injective.ne new), if_neg new]
  · intro id foreign
    rw [Heap.body?_allocate_eq, if_neg, body?_heap_of_foreign foreign]
    intro same
    exact foreign ⟨heap.size⟩ ((place_size fits).trans (Option.some.inj same).symm)

theorem write_heap (id : BodyId) (body : Body) :
    (lodging.heap heap).write (lodging.place id) (lodging.body body) =
      lodging.heap (heap.write id body) := by
  apply eq_heap
  · rwa [Heap.size_write]
  · intro other
    rw [← value_some]
    by_cases same : other = id
    · subst same
      rw [value_some, Heap.body?_write_same, Heap.body?_write_same, ← value_some, body?_heap fits]
      cases heap.body? (some other) <;> rfl
    · have apart : lodging.value (some other) ≠ some (lodging.place id) := by
        rw [← value_some, lodging.value_injective.ne_iff]
        simpa using same
      rw [Heap.body?_write_of_ne _ apart, body?_heap fits, Heap.body?_write_of_ne _ (by simpa using same)]
  · intro other foreign
    rw [Heap.body?_write_of_ne, body?_heap_of_foreign foreign]
    intro same
    exact foreign id (Option.some.inj same).symm

theorem setElement_heap (array : Value) (position : Nat) (element : Value) :
    (lodging.heap heap).setElement (lodging.value array) position (lodging.value element) =
      lodging.heap (heap.setElement array position element) := by
  cases array with
  | none => rfl
  | some id =>
      rw [value_some]
      cases found : heap.body? (some id) with
      | none =>
          rw [Heap.setElement_of_missing found, Heap.setElement_of_missing]
          rw [← value_some, body?_heap fits, found]
          rfl
      | some body =>
          have there : (lodging.heap heap).body? (some (lodging.place id)) = some (lodging.body body) := by
            rw [← value_some, body?_heap fits, found]
            rfl
          rw [Heap.setElement_eq_write found, Heap.setElement_eq_write there, Body.setElement_rename,
            write_heap fits]

theorem copy_heap (value : Value) :
    (lodging.heap heap).copy (lodging.value value) =
      Prod.map lodging.value lodging.heap (heap.copy value) := by
  unfold Heap.copy
  rw [body?_heap fits]
  cases heap.body? value with
  | none => rfl
  | some body => exact allocate_heap fits body

end Fitting

end Lodging

end CoopScript
