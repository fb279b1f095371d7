import CoopScript.Proofs.Heap.Claiming
import CoopScript.Proofs.Heap.Growing
import CoopScript.Proofs.Heap.Neighbours
import CoopScript.Proofs.Heap.Regions

/-!
Deep copies. Whatever a value shares within itself or with others, its copy is a tree of bodies that
nothing else names, and so nothing that is done to the one shows in the other.
-/

namespace CoopScript

namespace Heap

variable {heap after : Heap} {value copy : Value} {id : BodyId} {body : Body} {index : Nat}
  {roots : List Value}

/-! Counting the places that hold a value. -/

/-- The number of places in the arrays of the heap that hold the value. -/
def holdings (heap : Heap) (value : Value) : Nat :=
  ∑ index ∈ Finset.range heap.size, heap.weight value index

theorem Extends.weight (extended : heap.Extends after) (inside : index < heap.size) (value : Value) :
    after.weight value index = heap.weight value index := by
  unfold Heap.weight
  rw [extended.bodies (some ⟨index⟩) (has_some_iff.mpr inside)]

theorem holdings_allocate (heap : Heap) (body : Body) (value : Value) :
    (heap.allocate body).2.holdings value =
      heap.holdings value + (body.elements?.elim 0 (·.count value)) := by
  have last : (heap.allocate body).2.weight value heap.size =
      body.elements?.elim 0 (·.count value) := by
    have found : (heap.allocate body).2.body? (some ⟨heap.size⟩) = some body :=
      heap.body?_allocate body
    rw [Heap.weight, found, Option.bind_some]
    cases body.elements? <;> rfl
  have others : ∑ index ∈ Finset.range heap.size, (heap.allocate body).2.weight value index =
      heap.holdings value :=
    Finset.sum_congr rfl fun index inside =>
      (heap.extends_allocate body).weight (Finset.mem_range.mp inside) value
  rw [holdings, size_allocate, Finset.sum_range_succ, others, last]

/-- One for an index between the bounds, and else zero. -/
def between (low high index : Nat) : Nat := if low ≤ index ∧ index < high then 1 else 0

theorem between_add {low mid high : Nat} (below : low ≤ mid) (above : mid ≤ high) (index : Nat) :
    between low mid index + between mid high index = between low high index := by
  unfold between
  split_ifs <;> omega

theorem between_self (bound index : Nat) : between bound bound index = 0 := by
  unfold between
  split_ifs <;> omega

theorem between_allocate (heap : Heap) (body : Body) (id : BodyId) :
    between heap.size (heap.allocate body).2.size id.index =
      [(heap.allocate body).1].count (some id) := by
  have same : (heap.allocate body).1 = some id ↔ id.index = heap.size := by
    cases id
    simp [allocate, eq_comm]
  simp only [between, size_allocate, List.count_singleton, beq_iff_eq, same]
  split_ifs <;> omega

mutual

/-- Of the bodies that a building adds, each has one handle: an element of another one, or the value
that was built. The other bodies have as many as before. -/
theorem holdings_build (datum : Datum) (heap : Heap) (id : BodyId) :
    (build datum heap).2.holdings (some id) + [(build datum heap).1].count (some id) =
      heap.holdings (some id) + between heap.size (build datum heap).2.size id.index := by
  cases datum with
  | empty => simp [build, between_self]
  | scalar type payload =>
      rw [build, holdings_allocate, between_allocate]
      rfl
  | array type elements =>
      have all := holdings_buildAll elements #[] heap id
      have sizes := between_add (size_le_buildAll elements #[] heap)
        (extends_allocate _ ⟨type, .array (buildAll elements #[] heap).1⟩).size id.index
      have built : build (.array type elements) heap =
          (buildAll elements #[] heap).2.allocate ⟨type, .array (buildAll elements #[] heap).1⟩ := rfl
      rw [between_allocate] at sizes
      rw [Array.count_empty, Nat.add_zero] at all
      rw [built, holdings_allocate, ← sizes, ← Nat.add_assoc, ← all]
      rfl

theorem holdings_buildAll (data : List Datum) (built : Array Value) (heap : Heap) (id : BodyId) :
    (buildAll data built heap).2.holdings (some id) + (buildAll data built heap).1.count (some id) =
      heap.holdings (some id) + built.count (some id) +
        between heap.size (buildAll data built heap).2.size id.index := by
  cases data with
  | nil => simp [buildAll, between_self]
  | cons datum rest =>
      have first := holdings_build datum heap id
      have others := holdings_buildAll rest (built.push (build datum heap).1) (build datum heap).2 id
      have sizes := between_add (size_le_build datum heap)
        (size_le_buildAll rest (built.push (build datum heap).1) (build datum heap).2) id.index
      have all : buildAll (datum :: rest) built heap =
          buildAll rest (built.push (build datum heap).1) (build datum heap).2 := rfl
      rw [Array.count_push, ← List.count_singleton] at others
      rw [all]
      omega

end

/-! Copies. -/

/-- The value is new with all that it holds, of which each body has one handle. What there was before
is as it was, and leads to none of it. -/
structure Detached (heap after : Heap) (copy : Value) : Prop where
  kept : ∀ value, heap.Has value → after.body? value = heap.body? value
  fresh : ∀ id, after.Reaches copy (some id) → ¬ heap.Has (some id)
  once : ∀ id, after.Reaches copy (some id) → ∀ roots, (∀ root ∈ roots, heap.Has root) →
    after.referenceCount (copy :: roots) (some id) = 1
  apart : ∀ value, heap.Has value → ∀ id, after.Reaches copy (some id) →
    ¬ after.Reaches value (some id)

/-- Nothing holds a body that is still to come. -/
theorem Closed.holdings_eq_zero (closed : heap.Closed) (coming : heap.size ≤ id.index) :
    heap.holdings (some id) = 0 := by
  apply Finset.sum_eq_zero
  intro index _
  by_contra positive
  have holds := weight_pos_iff.mp (Nat.pos_of_ne_zero positive)
  exact coming.not_gt (closed _ _ holds id rfl)

/-- The handles in live arrays are some of those in all arrays. -/
theorem sum_live_le (heap : Heap) (roots : List Value) (value : Value) :
    ∑ index ∈ (heap.live roots).toList.toFinset, heap.weight value index ≤ heap.holdings value := by
  apply Finset.sum_le_sum_of_ne_zero
  intro index _ positive
  obtain ⟨body, found, _⟩ := weight_pos_iff.mp (Nat.pos_of_ne_zero positive)
  exact Finset.mem_range.mpr (lt_size_of_body? found)

/-- Of the one handle on a body of the copy, no other root takes a part. -/
theorem referenceCount_deepCopy (sound : heap.Sound) (done : heap.deepCopy value = (copy, after))
    (reaches : after.Reaches copy (some id)) (known : ∀ root ∈ roots, heap.Has root) :
    after.referenceCount (copy :: roots) (some id) = 1 := by
  have made : heap.Made after copy (heap.view value) := by
    simpa only [done] using made_deepCopy sound value
  have fresh := made.fresh id reaches
  have inside : id.index < after.size := ((made.sound copy made.has).reached reaches).has id rfl
  have total : after.holdings (some id) + [copy].count (some id) = 1 := by
    have counted := holdings_build (heap.view value) heap id
    rw [show build (heap.view value) heap = (copy, after) from done] at counted
    rw [counted, sound.closed.holdings_eq_zero fresh, between, if_pos ⟨fresh, inside⟩]
  have foreign : some id ∉ roots := fun listed => fresh.not_gt (known _ listed id rfl)
  have few := after.sum_live_le (copy :: roots) (some id)
  have counted : (copy :: roots).count (some id) = [copy].count (some id) := by
    rw [List.count_cons, List.count_eq_zero_of_not_mem foreign, List.count_singleton, Nat.zero_add]
  rw [referenceCount_eq, counted]
  by_cases own : copy = some id
  · rw [own, List.count_singleton_self] at total ⊢
    rw [own] at few
    omega
  · -- The last array on the way to the body holds it and is live.
    obtain ⟨holder, leads, holds⟩ := reaches.cases_tail.resolve_left fun same => own same.symm
    obtain ⟨⟨index⟩, rfl⟩ := holds.source
    have positive := weight_pos_iff.mpr holds
    have live := mem_live_of_weight (List.mem_cons_self : copy ∈ copy :: roots) leads positive
    have least := Finset.single_le_sum (fun index _ => Nat.zero_le (after.weight (some id) index)) live
    omega

theorem detached_deepCopy (sound : heap.Sound) (done : heap.deepCopy value = (copy, after)) :
    heap.Detached after copy := by
  have made : heap.Made after copy (heap.view value) := by
    simpa only [done] using made_deepCopy sound value
  refine ⟨made.extended.bodies, ?_, fun id reaches roots => referenceCount_deepCopy sound done reaches,
    ?_⟩
  · intro id reaches has
    exact (made.fresh id reaches).not_gt (has id rfl)
  · intro earlier has id reaches leads
    have old := sound.closed.has_of_reaches made.extended has leads
    exact (made.fresh id reaches).not_gt (old id rfl)

/-- Commands on earlier values do not show in the copy. -/
theorem view_copy_run (sound : heap.Sound) (done : heap.deepCopy value = (copy, after))
    {registers : Registers} (same : registers.heap = after) {commands : List Command}
    (earlier : ∀ command ∈ commands, ∀ register ∈ command.registers,
      heap.Has (registers.get register)) :
    (registers.run commands).heap.view copy = heap.view value := by
  have made : heap.Made after copy (heap.view value) := by
    simpa only [done] using made_deepCopy sound value
  subst same
  -- The region is all but the bodies that the copying added.
  have secludes : registers.heap.Secludes {value | ∀ id : BodyId, value = some id →
      id.index < heap.size ∨ registers.heap.size ≤ id.index} := by
    refine ⟨nofun, ?_, ?_⟩
    · rintro id coming _ ⟨⟩
      exact .inr coming
    · rintro value inside child ⟨body, found, holds⟩ id rfl
      obtain ⟨own, rfl⟩ := exists_of_body? found
      have old := (inside own rfl).resolve_right (lt_size_of_body? found).not_ge
      rw [made.extended.bodies _ (has_some_iff.mpr old)] at found
      exact .inl (holds_known sound found _ holds id rfl)
  have confined := Registers.confines_run secludes fun command listed register named id own =>
    .inl (earlier command listed register named id own)
  have spares : registers.heap.Spares (registers.run commands).heap copy := by
    refine confined.spares fun id reaches inside => ?_
    have present : id.index < registers.heap.size :=
      ((made.sound copy made.has).reached reaches).has id rfl
    rcases inside id rfl with old | coming
    · exact (made.fresh id reaches).not_gt old
    · exact coming.not_gt present
  rw [spares.view (made.sound copy made.has), made.view]

/-- Commands on the copy do not show in earlier values. -/
theorem view_earlier_run (sound : heap.Sound) (done : heap.deepCopy value = (copy, after))
    {registers : Registers} (same : registers.heap = after) {commands : List Command}
    (own : ∀ command ∈ commands, ∀ register ∈ command.registers,
      registers.get register = none ∨ after.Reaches copy (registers.get register))
    {earlier : Value} (has : heap.Has earlier) :
    (registers.run commands).heap.view earlier = heap.view earlier := by
  have made : heap.Made after copy (heap.view value) := by
    simpa only [done] using made_deepCopy sound value
  have secludes := (Secludes.build (heap.view value) heap heap.secludes_coming).1.secludes
  rw [show build (heap.view value) heap = (copy, after) from done] at secludes
  subst same
  have confined := Registers.confines_run secludes fun command listed register named id held => by
    rcases own command listed register named with empty | reaches
    · cases empty.symm.trans held
    · exact made.fresh id (held ▸ reaches)
  have spares : registers.heap.Spares (registers.run commands).heap earlier := by
    refine confined.spares fun id reaches inside => ?_
    have old := sound.closed.has_of_reaches made.extended has reaches
    exact (inside id rfl).not_gt (old id rfl)
  rw [spares.view (made.sound earlier (has.mono made.extended.size)),
    made.extended.view (sound earlier has)]

/-- In a heap without loops, the copy of a value has its tree, with all types, and is made of new bodies
with one handle each. No body that there was changes. Whatever commands follow, those on earlier
values leave the tree of the copy as it is, and those on the copy and what it holds leave the trees of
all earlier values as they are. -/
theorem deepCopy_private (closed : heap.Closed) (loopless : heap.Loopless)
    (done : heap.deepCopy value = (copy, after)) :
    after.view copy = heap.view value ∧ after.type? copy = heap.type? value ∧
    heap.Detached after copy ∧
    ∀ (registers : Registers) (commands : List Command), registers.heap = after →
      ((∀ command ∈ commands, ∀ register ∈ command.registers, heap.Has (registers.get register)) →
        (registers.run commands).heap.view copy = heap.view value) ∧
      ((∀ command ∈ commands, ∀ register ∈ command.registers,
          registers.get register = none ∨ after.Reaches copy (registers.get register)) →
        ∀ earlier, heap.Has earlier →
          (registers.run commands).heap.view earlier = heap.view earlier) := by
  have sound := closed.sound loopless
  have view : after.view copy = heap.view value := by
    simpa only [done] using (made_deepCopy sound value).view
  refine ⟨view, ?_, detached_deepCopy sound done, fun registers commands same => ⟨?_, ?_⟩⟩
  · rw [← type?_view, view, type?_view]
  · exact view_copy_run sound done same
  · exact fun own earlier => view_earlier_run sound done same own

/-- The array that holds a truth value twice is copied. Then that value is overwritten with the array,
or else an element of the copy with the copy. -/
theorem deepCopy_private_doubled :
    doubled.heap.Closed ∧ doubled.heap.Loopless ∧
    ∃ copy after, doubled.heap.deepCopy (doubled.get 1) = (copy, after) ∧
      (let registers : Registers := ⟨after, doubled.values.push copy⟩
      (∀ register ∈ (Command.overwrite 0 1).registers, doubled.heap.Has (registers.get register)) ∧
        (registers.run [.overwrite 0 1]).heap.view copy =
          .array (.array .boolean) [.boolean true, .boolean true]) ∧
      (let registers : Registers := ⟨after, #[copy, none]⟩
      (registers.run [.indexWritable 1 0 0, .overwrite 1 0]).heap.view (doubled.get 2) =
        .array (.array .boolean) [.boolean true]) := by
  have sound := sound_doubled.heap
  obtain ⟨⟨copy, after⟩, done⟩ : ∃ made, doubled.heap.deepCopy (doubled.get 1) = made := ⟨_, rfl⟩
  obtain ⟨_, _, _, later⟩ := deepCopy_private sound.closed sound.acyclic.loopless done
  have earlier (register : Nat) (inside : register ∈ (Command.overwrite 0 1).registers) :
      doubled.heap.Has ((⟨after, doubled.values.push copy⟩ : Registers).get register) := by
    rcases List.mem_cons.mp inside with rfl | inside
    · exact sound_doubled.get 0
    · obtain rfl := List.mem_singleton.mp inside
      exact sound_doubled.get 1
  have whole : doubled.heap.view (doubled.get 1) =
      .array (.array .boolean) [.boolean true, .boolean true] := rfl
  refine ⟨sound.closed, sound.acyclic.loopless, copy, after, done, ⟨earlier, ?_⟩, ?_⟩
  · rw [← whole]
    exact (later _ _ rfl).1 (List.forall_mem_singleton.mpr earlier)
  · refine (later _ _ rfl).2 ?_ (doubled.get 2) (sound_doubled.get 2)
    intro command listed register named
    match register with
    | 0 => exact .inr .refl
    | 1 => exact .inl rfl
    | _ + 2 => exact .inl (by simp [Registers.get])

end Heap

end CoopScript
