import CoopScript.Proofs.Heap.Commands
import CoopScript.Proofs.Heap.Overwriting
import CoopScript.Proofs.Heap.Ownership

/-!
Elements taken for writing. Whatever shared an element before, its array alone holds what the handle
names, and only once, so that what is written through the handle shows in the values that reach the
array and in no others.
-/

namespace CoopScript.Heap

/-- Of all that the roots lead to, one position of one array alone holds what the handle names. With
the handle itself that makes two handles on the body. -/
structure Exclusive (heap : Heap) (roots : List Value) (array : Value) (index : Nat)
    (handle : Value) : Prop where
  there : heap.index array index = .ok handle
  count : heap.referenceCount (handle :: roots) handle = 2
  outside : handle ∉ roots
  only : ∀ root ∈ roots, ∀ holder place, heap.Reaches root holder →
    heap.index holder place = .ok handle → holder = array ∧ place = index

/-- Whatever is not empty can be written through the handle. The element at the position then shows
what was written, in the tree of the array nothing else has changed, and a value that does not reach
the array has the tree that it had, unless it is the handle. -/
def WritesWithin (heap : Heap) (roots : List Value) (array : Value) (index : Nat)
    (handle : Value) : Prop :=
  ∀ source, heap.Has source → source ≠ none → ∃ after, heap.overwrite handle source = .ok after ∧
    heap.Overwrites after handle source ∧ after.index array index = .ok handle ∧
    (heap.view array).replace? [index] (heap.view source) = some (after.view array) ∧
    ∀ root ∈ roots, ∀ value, heap.Reaches root value → value ≠ handle →
      ¬ heap.Reaches value array → after.view value = heap.view value

variable {heap after : Heap} {roots : List Value} {array handle root value source element : Value}
  {own id : BodyId} {type : Ty} {elements : Array Value} {index : Nat} {body : Body}

theorem exists_of_body? (found : heap.body? array = some body) : ∃ own, array = some own := by
  cases array with
  | none => cases found
  | some own => exact ⟨own, rfl⟩

/-! Counting the handles. -/

/-- If one array alone holds the value, the handles on it are those among the roots and in that
array. -/
theorem referenceCount_of_only (held : root ∈ roots) (reaches : heap.Reaches root (some own))
    (only : ∀ root ∈ roots, ∀ holder, heap.Reaches root holder → heap.Holds holder (some id) →
      holder = some own) :
    heap.referenceCount roots (some id) =
      roots.count (some id) + heap.weight (some id) own.index := by
  rw [referenceCount_eq, Finset.sum_eq_single own.index]
  · intro index live different
    by_contra positive
    have holds := weight_pos_iff.mp (Nat.pos_of_ne_zero positive)
    obtain ⟨other, inside, leads⟩ :=
      reaches_of_mem_live (Std.TreeSet.mem_toList.mp (List.mem_toFinset.mp live))
    have same := only other inside _ leads holds
    exact different (congrArg BodyId.index (Option.some.inj same))
  · intro missing
    by_contra positive
    exact missing (mem_live_of_weight held reaches (Nat.pos_of_ne_zero positive))

theorem weight_of_body? (found : heap.body? (some own) = some ⟨type, .array elements⟩) :
    heap.weight value own.index = elements.count value := by
  have there : heap.body? (some ⟨own.index⟩) = some ⟨type, .array elements⟩ := found
  rw [weight, there]
  rfl

theorem exclusive_of_only (found : heap.body? (some own) = some ⟨type, .array elements⟩)
    (held : some own ∈ roots) (there : elements[index]? = some (some id))
    (outside : some id ∉ roots) (once : elements.count (some id) = 1)
    (only : ∀ root ∈ roots, ∀ holder, heap.Reaches root holder → heap.Holds holder (some id) →
      holder = some own) : heap.Exclusive roots (some own) index (some id) where
  there := index_eq_ok_iff.mpr ⟨type, elements, found, there⟩
  count := by
    have holds : heap.Holds (some own) (some id) := .of_getElem? found there
    have also : ∀ root ∈ some id :: roots, ∀ holder, heap.Reaches root holder →
        heap.Holds holder (some id) → holder = some own := by
      intro root inside holder leads
      rcases List.mem_cons.mp inside with rfl | inside
      · exact only _ held holder (leads.head holds)
      · exact only root inside holder leads
    rw [referenceCount_of_only (List.mem_cons_of_mem _ held) .refl also, weight_of_body? found, once,
      List.count_cons_self, List.count_eq_zero_of_not_mem outside]
  outside := outside
  only := by
    intro root inside holder place leads indexed
    obtain ⟨_, others, array, stands⟩ := index_eq_ok_iff.mp indexed
    obtain rfl := only root inside holder leads (.of_getElem? array stands)
    cases found.symm.trans array
    rw [← Array.getElem?_toList] at stands there
    rw [← Array.count_toList] at once
    exact ⟨rfl, eq_of_count_le_one once.le stands there⟩

/-- A body that is not shared has its only handle in the array. -/
theorem exclusive_of_unshared (unshared : heap.isShared roots (some id) = false)
    (held : some own ∈ roots) (found : heap.body? (some own) = some ⟨type, .array elements⟩)
    (there : elements[index]? = some (some id)) :
    heap.Exclusive roots (some own) index (some id) := by
  have holds : heap.Holds (some own) (some id) := .of_getElem? found there
  have few := count_add_weight_le unshared held .refl
  have positive := weight_pos_iff.mpr holds
  rw [weight_of_body? found] at few positive
  apply exclusive_of_only found held there
  · exact not_mem_of_holds unshared held .refl holds
  · omega
  · intro root inside holder leads also
    exact holder_unique unshared held .refl holds inside leads also

/-- A copy that takes the place of an element has its only handle there. -/
theorem exclusive_copyInto (sound : heap.Sound) (known : ∀ root ∈ roots, heap.Has root)
    (held : some own ∈ roots) (found : heap.body? (some own) = some ⟨type, .array elements⟩)
    (there : elements[index]? = some element) (copied : heap.body? element = some body) :
    (heap.copyInto own index body).Exclusive roots (some own) index (heap.allocate body).1 := by
  have fresh := heap.not_has_allocate body
  obtain ⟨inRange, _⟩ := Array.getElem?_eq_some_iff.mp there
  have foreign : (heap.allocate body).1 ∉ elements.toList := by
    intro inside
    have holds : heap.Holds (some own) (heap.allocate body).1 :=
      .of_body? found ⟨elements, rfl, Array.mem_toList_iff.mp inside⟩
    exact fresh ((sound _ (.of_body? found)).element holds).has
  apply exclusive_of_only (body?_copyInto found) held
  · exact Array.getElem?_setIfInBounds_self_of_lt inRange
  · intro inside
    exact fresh (known _ inside)
  · have long : index < elements.toList.length := inRange
    show (elements.setIfInBounds index (heap.allocate body).1).count (heap.allocate body).1 = 1
    rw [← Array.count_toList, Array.toList_setIfInBounds, List.count_set long,
      List.count_eq_zero_of_not_mem foreign, Nat.zero_sub, if_pos (beq_self_eq_true _)]
  · intro root _ holder _ holds
    exact holder_of_copy sound found there copied holds

/-! Writing through the handle. -/

theorem Exclusive.not_reaches (exclusive : heap.Exclusive roots array index (some id))
    (inside : root ∈ roots) (leads : heap.Reaches root value) (different : value ≠ some id)
    (away : ¬ heap.Reaches value array) : ¬ heap.Reaches value (some id) := by
  obtain ⟨_, _, found, _⟩ := index_eq_ok_iff.mp exclusive.there
  obtain ⟨own, rfl⟩ := exists_of_body? found
  apply not_reaches_of_single away different
  intro holder further holds
  obtain ⟨⟨type, data⟩, found, elements, listed, within⟩ := holds
  obtain ⟨place, stands⟩ := Array.getElem?_of_mem within
  cases data with
  | scalar payload => cases listed
  | array others =>
      cases listed
      have indexed := index_eq_ok_iff.mpr ⟨type, elements, found, stands⟩
      exact (exclusive.only root inside holder place (leads.trans further) indexed).1

/-- The path to the element owns its body. -/
theorem Exclusive.sole (exclusive : heap.Exclusive roots array index (some id)) (sound : heap.Sound)
    (held : array ∈ roots) : heap.Sole (some id) array [index] := by
  obtain ⟨type, elements, found, there⟩ := index_eq_ok_iff.mp exclusive.there
  refine .there found there ?_ .here
  intro place sibling stands different
  have holds : heap.Holds array sibling := .of_getElem? found stands
  apply exclusive.not_reaches held (.single holds)
  · rintro rfl
    have indexed := index_eq_ok_iff.mpr ⟨type, elements, found, stands⟩
    exact different (exclusive.only array held array place .refl indexed).2
  · exact (sound _ (.of_body? found)).not_reaches holds

theorem Exclusive.writesWithin (exclusive : heap.Exclusive roots array index (some id))
    (sound : heap.Sound) (known : ∀ root ∈ roots, heap.Has root) (held : array ∈ roots) :
    heap.WritesWithin roots array index (some id) := by
  obtain ⟨type, elements, found, there⟩ := index_eq_ok_iff.mp exclusive.there
  have founded := sound array (.of_body? found)
  have holds : heap.Holds array (some id) := .of_getElem? found there
  have target := (founded.element holds).has
  intro source has full
  obtain ⟨further, rfl⟩ := Option.ne_none_iff_exists'.mp full
  obtain ⟨body, given⟩ := exists_body? has
  have overwrites := overwrites_takeOver sound target given
  have apart : array ≠ some id := by
    rintro rfl
    exact founded.not_reaches holds .refl
  refine ⟨_, overwrite_of_handles given, overwrites, ?_, ?_, ?_⟩
  · exact index_eq_ok_iff.mpr
      ⟨type, elements, (overwrites.others array founded.has apart).trans found, there⟩
  · exact (exclusive.sole sound held).view_replaced sound founded.has
      (replaces_takeOver sound target given)
  · intro root inside value leads different away
    have has := ((sound root (known root inside)).reached leads).has
    exact overwrites.away value has (exclusive.not_reaches inside leads different away)

/-! Taking an element. -/

/-- An element that is shared is copied into the array; any other is taken as it is. -/
theorem claim_cases (sound : heap.Sound)
    (found : heap.body? (some own) = some ⟨type, .array elements⟩)
    (there : elements[index]? = some element)
    (claimed : heap.claim roots (some own) index element = (handle, after)) :
    (∃ body, heap.body? element = some body ∧ handle = (heap.allocate body).1 ∧
      after = heap.copyInto own index body) ∨
    heap.isShared roots element = false ∧ handle = element ∧ after = heap := by
  unfold Heap.claim at claimed
  split at claimed
  · next shared =>
      cases element with
      | none => cases shared
      | some id =>
          obtain ⟨body, copied⟩ := exists_body? ((sound _ (.of_body? found)).element
            (.of_getElem? found there)).has
          simp only [copy, copied] at claimed
          cases claimed
          exact .inl ⟨body, copied, rfl, rfl⟩
  · next unshared =>
      cases claimed
      exact .inr ⟨Bool.not_eq_true _ ▸ unshared, rfl, rfl⟩

/-- From then on the handle is exclusive. -/
theorem exclusive_claim (sound : heap.Sound) (known : ∀ root ∈ roots, heap.Has root)
    (held : some own ∈ roots) (found : heap.body? (some own) = some ⟨type, .array elements⟩)
    (there : elements[index]? = some (some id))
    (claimed : heap.claim roots (some own) index (some id) = (handle, after)) :
    ∃ new, handle = some new ∧ after.Exclusive roots (some own) index handle := by
  rcases claim_cases sound found there claimed with ⟨body, copied, rfl, rfl⟩ | ⟨unshared, rfl, rfl⟩
  · exact ⟨_, rfl, exclusive_copyInto sound known held found there copied⟩
  · exact ⟨id, rfl, exclusive_of_unshared unshared held found there⟩

/-- The handle shows what the element showed. -/
theorem view_claim (sound : heap.Sound)
    (found : heap.body? (some own) = some ⟨type, .array elements⟩)
    (there : elements[index]? = some element)
    (claimed : heap.claim roots (some own) index element = (handle, after)) :
    after.view handle = heap.view element := by
  rcases claim_cases sound found there claimed with ⟨body, copied, rfl, rfl⟩ | ⟨_, rfl, rfl⟩
  · have sounder := sound.allocate (holds_known sound copied)
    have replaces := replaces_copyInto sound found there copied
    rw [← view_copy sound copied]
    exact (replaces.keeps sounder rfl).view _ (heap.has_allocate body)
  · rfl

theorem indexWritable_of_none (roots : List Value) (index : Nat) :
    heap.indexWritable roots none index = .error .empty := rfl

theorem indexWritable_of_scalar {payload : Scalar}
    (found : heap.body? array = some ⟨type, .scalar payload⟩) (roots : List Value) (index : Nat) :
    heap.indexWritable roots array index = .error (.notAnArray type.display) := by
  simp only [indexWritable, Heap.index, Heap.elements, get, found, Body.elements]
  rfl

theorem indexWritable_of_array (found : heap.body? array = some ⟨type, .array elements⟩)
    (roots : List Value) (index : Nat) :
    heap.indexWritable roots array index =
      match elements[index]? with
      | some element => .ok (heap.claim roots array index element)
      | none => .error (indexError index elements.size) := by
  simp only [indexWritable, Heap.index, elements_eq_ok_iff.mpr ⟨type, found⟩, bind, Except.bind]
  cases elements[index]? <;> rfl

/-- In a heap without loops, let some roots be all the handles there are, an array among them. Taking an
element of the array for writing fails, and changes nothing, if the value is empty or no array or the
index is out of range. Otherwise it changes no tree, and the array alone holds what the handle names, at
that position alone. Writing through the handle then changes the element, and no tree of a value that
does not reach the array. -/
theorem indexWritable_private (closed : heap.Closed) (loopless : heap.Loopless)
    (known : ∀ root ∈ roots, heap.Has root) (held : array ∈ roots) (index : Nat) :
    (array = none → heap.indexWritable roots array index = .error .empty) ∧
    (∀ type payload, heap.body? array = some ⟨type, .scalar payload⟩ →
      heap.indexWritable roots array index = .error (.notAnArray type.display)) ∧
    (∀ type elements, heap.body? array = some ⟨type, .array elements⟩ →
      (elements.size ≤ index →
        heap.indexWritable roots array index = .error (indexError index elements.size)) ∧
      (elements[index]? = some none → heap.indexWritable roots array index = .ok (none, heap)) ∧
      ∀ id, elements[index]? = some (some id) → ∃ handle after,
        heap.indexWritable roots array index = .ok (handle, after) ∧ heap.Keeps after ∧
        after.view handle = heap.view (some id) ∧
        after.Exclusive roots array index handle ∧ after.WritesWithin roots array index handle) ∧
    ∀ registers : Registers, registers.heap = heap → registers.roots = roots → ∀ target source,
      registers.get source = array →
        registers.attempt (.indexWritable target source index) =
          match heap.indexWritable roots array index with
          | .ok made => registers.store target made
          | .error _ => registers := by
  have sound := closed.sound loopless
  refine ⟨?_, fun type payload found => indexWritable_of_scalar found roots index, ?_, ?_⟩
  · rintro rfl
    exact indexWritable_of_none roots index
  · intro type elements found
    have taken := indexWritable_of_array found roots index
    refine ⟨fun outside => ?_, fun blank => ?_, fun id there => ?_⟩
    · rw [taken, Array.getElem?_eq_none outside]
    · rw [taken, blank]
      rfl
    · obtain ⟨own, rfl⟩ := exists_of_body? found
      obtain ⟨⟨handle, after⟩, claimed⟩ : ∃ made, heap.claim roots (some own) index (some id) = made :=
        ⟨_, rfl⟩
      simp only [there, claimed] at taken
      obtain ⟨keeps, _⟩ := keeps_claim sound found there claimed
      obtain ⟨new, rfl, exclusive⟩ := exclusive_claim sound known held found there claimed
      have still (root : Value) (inside : root ∈ roots) := (known root inside).mono keeps.size
      exact ⟨_, after, taken, keeps, view_claim sound found there claimed, exclusive,
        exclusive.writesWithin keeps.sound still held⟩
  · rintro registers rfl rfl target source rfl
    simp only [Registers.attempt, Registers.perform]
    cases registers.heap.indexWritable registers.roots (registers.get source) index <;> rfl

/-! An array that holds one element twice and shares it with another array. -/

/-- One truth value that two arrays hold, the first one twice. -/
def doubled : Registers :=
  (Registers.empty 3).run [.literal 0 (.boolean true), .makeArray 1 (.array .boolean) [0, 0],
    .makeArray 2 (.array .boolean) [0]]

theorem sound_doubled : doubled.Sound := by
  apply (Registers.sound_empty 3).run
  intro earlier command inside entangles
  obtain ⟨_, _, _, _, rfl, _⟩ := entangles
  have given := inside.mem (List.mem_append_right _ (List.mem_singleton_self _))
  simp at given

/-- The array itself is written over its second element. -/
theorem indexWritable_private_doubled :
    doubled.heap.Closed ∧ doubled.heap.Loopless ∧
    (∀ root ∈ doubled.roots, doubled.heap.Has root) ∧ doubled.get 1 ∈ doubled.roots ∧
    ∃ handle after last,
      doubled.heap.indexWritable doubled.roots (doubled.get 1) 1 = .ok (handle, after) ∧
      after.Exclusive doubled.roots (doubled.get 1) 1 handle ∧
      after.overwrite handle (doubled.get 1) = .ok last ∧
      last.view (doubled.get 1) = .array (.array .boolean)
        [.boolean true, .array (.array .boolean) [.boolean true, .boolean true]] := by
  have sound := sound_doubled.heap
  have known (root : Value) (inside : root ∈ doubled.roots) : doubled.heap.Has root :=
    sound_doubled.has root (Array.mem_toList_iff.mp inside)
  have held : doubled.get 1 ∈ doubled.roots := by decide
  obtain ⟨handle, after, taken, keeps, _, exclusive, writes⟩ :=
    ((indexWritable_private sound.closed sound.acyclic.loopless known held 1).2.2.1
      (.array .boolean) #[some ⟨0⟩, some ⟨0⟩] rfl).2.2 ⟨0⟩ rfl
  have whole : after.view (doubled.get 1) =
      .array (.array .boolean) [.boolean true, .boolean true] := keeps.view _ (known _ held)
  obtain ⟨last, done, _, _, replaced, _⟩ :=
    writes (doubled.get 1) ((known _ held).mono keeps.size) nofun
  rw [whole] at replaced
  exact ⟨sound.closed, sound.acyclic.loopless, known, held, handle, after, last, taken, exclusive,
    done, (Option.some.inj replaced).symm⟩

end CoopScript.Heap
