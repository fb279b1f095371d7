import CoopScript.Proofs.Heap.Founded
import CoopScript.Value.Sharing
import Mathlib.Algebra.BigOperators.Group.Finset.Basic
import Mathlib.Algebra.GroupWithZero.Nat
import Mathlib.Algebra.Order.BigOperators.Group.Finset

/-!
The search for live arrays finds every array that the roots reach, so that a count of handles misses
none: a body that is not shared has one holder among the roots and the arrays they reach.
-/

namespace CoopScript.Heap

variable {heap : Heap} {marks first second third : Std.TreeSet Nat} {value child target : Value}
  {roots : List Value} {id : BodyId} {fuel : Nat}

theorem holds_iff_elements? : heap.Holds value child ↔
    ∃ elements, (heap.body? value).bind Body.elements? = some elements ∧ child ∈ elements := by
  simp only [Holds, Body.Holds, Option.bind_eq_some_iff]
  constructor
  · intro given
    obtain ⟨body, found, elements, array, inside⟩ := given
    exact ⟨elements, ⟨body, found, array⟩, inside⟩
  · intro given
    obtain ⟨elements, ⟨body, found, array⟩, inside⟩ := given
    exact ⟨body, found, elements, array, inside⟩

/-! The search. -/

/-- If the value is an array, then it is marked. -/
def Marked (heap : Heap) (marks : Std.TreeSet Nat) (value : Value) : Prop :=
  ∀ id, value = some id → (∃ child, heap.Holds value child) → id.index ∈ marks

/-- Marks are only added, and whatever a newly marked array holds is marked as well. -/
structure Spreads (heap : Heap) (before after : Std.TreeSet Nat) : Prop where
  kept : ∀ index, index ∈ before → index ∈ after
  closed : ∀ index, index ∈ after → index ∉ before →
    ∀ child, heap.Holds (some ⟨index⟩) child → heap.Marked after child

theorem Marked.mono (marked : heap.Marked first value) (spreads : heap.Spreads first second) :
    heap.Marked second value :=
  fun id same array => spreads.kept id.index (marked id same array)

theorem Spreads.refl (heap : Heap) (marks : Std.TreeSet Nat) : heap.Spreads marks marks where
  kept := fun _ => id
  closed := fun _ inside outside => (outside inside).elim

theorem Spreads.trans (early : heap.Spreads first second) (late : heap.Spreads second third) :
    heap.Spreads first third where
  kept := fun index inside => late.kept index (early.kept index inside)
  closed := by
    intro index inside outside child holds
    by_cases between : index ∈ second
    · exact (early.closed index between outside child holds).mono late
    · exact late.closed index inside between child holds

/-- The bodies that are not marked. -/
def unmarked (heap : Heap) (marks : Std.TreeSet Nat) : Finset Nat :=
  (Finset.range heap.size).filter (· ∉ marks)

theorem mem_unmarked_iff {index : Nat} :
    index ∈ heap.unmarked marks ↔ index < heap.size ∧ index ∉ marks := by
  rw [unmarked, Finset.mem_filter, Finset.mem_range]

theorem card_unmarked_le (heap : Heap) (marks : Std.TreeSet Nat) :
    (heap.unmarked marks).card ≤ heap.size :=
  (Finset.card_filter_le _ _).trans (Finset.card_range _).le

theorem Spreads.card_unmarked_le (spreads : heap.Spreads first second) :
    (heap.unmarked second).card ≤ (heap.unmarked first).card := by
  apply Finset.card_le_card
  intro index inside
  obtain ⟨inRange, outside⟩ := mem_unmarked_iff.mp inside
  exact mem_unmarked_iff.mpr ⟨inRange, fun early => outside (spreads.kept index early)⟩

theorem card_unmarked_insert_lt {index : Nat} (inRange : index < heap.size) (outside : index ∉ marks) :
    (heap.unmarked (marks.insert index)).card < (heap.unmarked marks).card := by
  apply Finset.card_lt_card
  apply Finset.ssubset_iff_subset_ne.mpr
  constructor
  · intro other inside
    obtain ⟨inRange, apart⟩ := mem_unmarked_iff.mp inside
    exact mem_unmarked_iff.mpr ⟨inRange, fun early => apart (Std.TreeSet.mem_insert.mpr (.inr early))⟩
  · intro same
    have inside : index ∈ heap.unmarked marks := mem_unmarked_iff.mpr ⟨inRange, outside⟩
    rw [← same] at inside
    exact (mem_unmarked_iff.mp inside).2 Std.TreeSet.mem_insert_self

/-- A search from one value after another, as far as the search from each is complete. -/
theorem spreads_foldl {search : Std.TreeSet Nat → Value → Std.TreeSet Nat}
    (complete : ∀ marks value, (heap.unmarked marks).card ≤ fuel →
      heap.Spreads marks (search marks value) ∧ heap.Marked (search marks value) value)
    (values : List Value) (enough : (heap.unmarked marks).card ≤ fuel) :
    heap.Spreads marks (values.foldl search marks) ∧
      ∀ value ∈ values, heap.Marked (values.foldl search marks) value := by
  induction values generalizing marks with
  | nil => exact ⟨.refl heap marks, nofun⟩
  | cons value rest hypothesis =>
      obtain ⟨spreads, marked⟩ := complete marks value enough
      obtain ⟨later, others⟩ := hypothesis (spreads.card_unmarked_le.trans enough)
      refine ⟨spreads.trans later, ?_⟩
      intro other inside
      rcases List.mem_cons.mp inside with rfl | inside
      · exact marked.mono later
      · exact others other inside

/-- An array is marked before its elements are searched. -/
theorem Spreads.of_insert {elements : Array Value}
    (array : (heap.body? (some id)).bind Body.elements? = some elements)
    (spreads : heap.Spreads (first.insert id.index) second)
    (marked : ∀ child ∈ elements, heap.Marked second child) : heap.Spreads first second where
  kept := by
    intro index inside
    exact spreads.kept index (Std.TreeSet.mem_insert.mpr (.inr inside))
  closed := by
    intro index inside apart child holds
    by_cases same : index = id.index
    · subst same
      obtain ⟨others, held, within⟩ := holds_iff_elements?.mp holds
      rw [array] at held
      cases held
      exact marked child within
    · have outside : index ∉ first.insert id.index := by
        intro early
        rcases Std.TreeSet.mem_insert.mp early with equal | early
        · exact same (compare_eq_iff_eq.mp equal).symm
        · exact apart early
      exact spreads.closed index inside outside child holds

/-- With a fuel of one for each unmarked body the search misses no array. -/
theorem spreads_mark (heap : Heap) (fuel : Nat) (marks : Std.TreeSet Nat) (value : Value)
    (enough : (heap.unmarked marks).card ≤ fuel) :
    heap.Spreads marks (heap.mark fuel marks value) ∧
      heap.Marked (heap.mark fuel marks value) value := by
  induction fuel generalizing marks value with
  | zero =>
      refine ⟨.refl heap marks, ?_⟩
      intro id same array
      subst same
      obtain ⟨child, body, found, _⟩ := array
      have all := Finset.card_eq_zero.mp (Nat.le_zero.mp enough)
      show id.index ∈ marks
      by_contra outside
      have inside := mem_unmarked_iff.mpr ⟨lt_size_of_body? found, outside⟩
      rw [all] at inside
      exact Finset.notMem_empty _ inside
  | succ fuel hypothesis =>
      cases value with
      | none => exact ⟨.refl heap marks, nofun⟩
      | some id =>
          rw [mark]
          split
          · next bare =>
              refine ⟨.refl heap marks, ?_⟩
              intro other same held
              cases same
              obtain ⟨child, holds⟩ := held
              obtain ⟨elements, array, _⟩ := holds_iff_elements?.mp holds
              rw [bare] at array
              cases array
          · next elements array =>
              split
              · next marked =>
                  refine ⟨.refl heap marks, ?_⟩
                  intro other same _
                  cases same
                  exact Std.TreeSet.contains_iff_mem.mp marked
              · next outside =>
                  rw [Std.TreeSet.contains_iff_mem] at outside
                  obtain ⟨body, found, _⟩ := Option.bind_eq_some_iff.mp array
                  have fewer := card_unmarked_insert_lt (lt_size_of_body? found) outside
                  obtain ⟨spreads, marked⟩ := spreads_foldl hypothesis elements.toList
                    (show (heap.unmarked (marks.insert id.index)).card ≤ fuel by omega)
                  rw [Array.foldl_toList] at spreads marked
                  have within (child : Value) (inside : child ∈ elements) :=
                    marked child (Array.mem_toList_iff.mpr inside)
                  have own := spreads.kept id.index Std.TreeSet.mem_insert_self
                  refine ⟨spreads.of_insert array within, ?_⟩
                  intro other same _
                  cases same
                  exact own

theorem live_spreads (heap : Heap) (roots : List Value) :
    heap.Spreads ∅ (heap.live roots) ∧ ∀ root ∈ roots, heap.Marked (heap.live roots) root :=
  spreads_foldl (heap.spreads_mark heap.size) roots (heap.card_unmarked_le ∅)

/-- Every array that a root reaches is live. -/
theorem marked_live {root : Value} (inside : root ∈ roots) (reaches : heap.Reaches root value) :
    heap.Marked (heap.live roots) value := by
  obtain ⟨spreads, marked⟩ := heap.live_spreads roots
  induction reaches with
  | refl => exact marked root inside
  | tail _ holds hypothesis =>
      obtain ⟨id, rfl⟩ := holds.source
      exact spreads.closed id.index (hypothesis id rfl ⟨_, holds⟩) Std.TreeSet.not_mem_emptyc _ holds

/-- A search from one value after another marks only what they reach, if the search from each does. -/
theorem mem_foldl_cases {search : Std.TreeSet Nat → Value → Std.TreeSet Nat} {index : Nat}
    (only : ∀ marks value, index ∈ search marks value →
      index ∈ marks ∨ heap.Reaches value (some ⟨index⟩))
    (values : List Value) (inside : index ∈ values.foldl search marks) :
    index ∈ marks ∨ ∃ value ∈ values, heap.Reaches value (some ⟨index⟩) := by
  induction values generalizing marks with
  | nil => exact .inl inside
  | cons value rest hypothesis =>
      rcases hypothesis inside with early | ⟨other, listed, reaches⟩
      · exact (only marks value early).imp_right fun reaches => ⟨value, List.mem_cons_self, reaches⟩
      · exact .inr ⟨other, List.mem_cons_of_mem value listed, reaches⟩

theorem mem_mark_cases {index : Nat} (inside : index ∈ heap.mark fuel marks value) :
    index ∈ marks ∨ heap.Reaches value (some ⟨index⟩) := by
  induction fuel generalizing marks value with
  | zero => exact .inl inside
  | succ fuel hypothesis =>
      cases value with
      | none => exact .inl inside
      | some id =>
          rw [mark] at inside
          split at inside
          · exact .inl inside
          · next elements array =>
              split at inside
              · exact .inl inside
              · rw [← Array.foldl_toList] at inside
                rcases mem_foldl_cases (fun _ _ => hypothesis) elements.toList inside with
                  early | ⟨child, listed, reaches⟩
                · rcases Std.TreeSet.mem_insert.mp early with own | early
                  · obtain rfl := compare_eq_iff_eq.mp own
                    exact .inr .refl
                  · exact .inl early
                · have holds := holds_iff_elements?.mpr ⟨elements, array, Array.mem_toList_iff.mp listed⟩
                  exact .inr (reaches.head holds)

/-- Only what a root reaches is live. -/
theorem reaches_of_mem_live {index : Nat} (live : index ∈ heap.live roots) :
    ∃ root ∈ roots, heap.Reaches root (some ⟨index⟩) := by
  rcases mem_foldl_cases (fun _ _ => mem_mark_cases) roots live with none | reached
  · exact absurd none Std.TreeSet.not_mem_emptyc
  · exact reached

/-! Holders. -/

/-- How often an array of the heap holds the value. -/
def weight (heap : Heap) (value : Value) (index : Nat) : Nat :=
  match (heap.body? (some ⟨index⟩)).bind Body.elements? with
  | some elements => elements.count value
  | none => 0

theorem weight_pos_iff {index : Nat} :
    0 < heap.weight value index ↔ heap.Holds (some ⟨index⟩) value := by
  rw [holds_iff_elements?, weight]
  cases (heap.body? (some ⟨index⟩)).bind Body.elements? with
  | none => simp
  | some elements => simp [Array.count_pos_iff]

theorem foldr_liveElements (heap : Heap) (roots : List Value) (value : Value) (first : Nat) :
    (heap.liveElements roots).foldr (fun elements others => elements.count value + others) first =
      ((heap.live roots).toList.map (heap.weight value)).sum + first := by
  unfold liveElements
  induction (heap.live roots).toList with
  | nil => simp
  | cons index rest hypothesis =>
      simp only [List.filterMap_cons, List.map_cons, List.sum_cons, weight]
      cases (heap.body? (some ⟨index⟩)).bind Body.elements? with
      | none => simpa using hypothesis
      | some elements =>
          simp only [List.foldr_cons, hypothesis]
          omega

theorem nodup_live (heap : Heap) (roots : List Value) : (heap.live roots).toList.Nodup := by
  refine (Std.TreeSet.distinct_toList).imp ?_
  intro first second apart same
  exact apart (compare_eq_iff_eq.mpr same)

/-- The handles among the roots and in the live arrays. -/
theorem referenceCount_eq (heap : Heap) (roots : List Value) (id : BodyId) :
    heap.referenceCount roots (some id) = roots.count (some id) +
      ∑ index ∈ (heap.live roots).toList.toFinset, heap.weight (some id) index := by
  rw [referenceCount, Option.isSome_some, if_pos rfl, foldr_liveElements, Nat.add_comm,
    List.sum_toFinset _ (heap.nodup_live roots)]

theorem mem_live_of_weight {root : Value} {index : Nat} (inside : root ∈ roots)
    (reaches : heap.Reaches root (some ⟨index⟩)) (positive : 0 < heap.weight value index) :
    index ∈ (heap.live roots).toList.toFinset := by
  rw [List.mem_toFinset, Std.TreeSet.mem_toList]
  exact marked_live inside reaches ⟨index⟩ rfl ⟨value, weight_pos_iff.mp positive⟩

/-- What occurs once in a list has one position there. -/
theorem eq_of_count_le_one {list : List Value} {first second : Nat} (few : list.count value ≤ 1)
    (one : list[first]? = some value) (two : list[second]? = some value) : first = second := by
  have twice {low high : Nat} (less : low < high) (early : list[low]? = some value)
      (late : list[high]? = some value) : False := by
    obtain ⟨inRange, early⟩ := List.getElem?_eq_some_iff.mp early
    have parts := congrArg (List.count value) (List.take_append_drop low list)
    rw [List.count_append, List.drop_eq_getElem_cons inRange, early, List.count_cons_self] at parts
    have later : value ∈ list.drop (low + 1) := by
      apply List.mem_of_getElem? (i := high - (low + 1))
      rw [List.getElem?_drop, show low + 1 + (high - (low + 1)) = high by omega]
      exact late
    have positive := List.count_pos_iff.mpr later
    omega
  rcases Nat.lt_trichotomy first second with less | same | more
  · exact (twice less one two).elim
  · exact same
  · exact (twice more two one).elim

section Unshared

variable (unshared : heap.isShared roots (some id) = false)

include unshared

theorem count_le_one : roots.count (some id) ≤ 1 := by
  have few : heap.referenceCount roots (some id) ≤ 1 := by simpa [isShared] using unshared
  rw [referenceCount_eq] at few
  omega

theorem count_add_weight_le {root : Value} {index : Nat} (inside : root ∈ roots)
    (reaches : heap.Reaches root (some ⟨index⟩)) :
    roots.count (some id) + heap.weight (some id) index ≤ 1 := by
  have few : heap.referenceCount roots (some id) ≤ 1 := by simpa [isShared] using unshared
  rw [referenceCount_eq] at few
  rcases Nat.eq_zero_or_pos (heap.weight (some id) index) with none | positive
  · omega
  · have one := Finset.single_le_sum (fun index _ => Nat.zero_le (heap.weight (some id) index))
      (mem_live_of_weight inside reaches positive)
    omega

theorem weight_add_weight_le {root other : Value} {first second : Nat} (apart : first ≠ second)
    (inside : root ∈ roots) (reaches : heap.Reaches root (some ⟨first⟩))
    (within : other ∈ roots) (leads : heap.Reaches other (some ⟨second⟩)) :
    heap.weight (some id) first + heap.weight (some id) second ≤ 1 := by
  have few : heap.referenceCount roots (some id) ≤ 1 := by simpa [isShared] using unshared
  rw [referenceCount_eq] at few
  rcases Nat.eq_zero_or_pos (heap.weight (some id) first) with none | positive
  · have one := count_add_weight_le unshared within leads
    omega
  · rcases Nat.eq_zero_or_pos (heap.weight (some id) second) with none | further
    · have one := count_add_weight_le unshared inside reaches
      omega
    · have pair : {first, second} ⊆ (heap.live roots).toList.toFinset := by
        intro index listed
        rcases Finset.mem_insert.mp listed with rfl | listed
        · exact mem_live_of_weight inside reaches positive
        · obtain rfl := Finset.mem_singleton.mp listed
          exact mem_live_of_weight within leads further
      have two := Finset.sum_le_sum_of_subset (f := heap.weight (some id)) pair
      rw [Finset.sum_pair apart] at two
      omega

/-- If a root is the value, no array that the roots reach holds it. -/
theorem not_holds_of_root {root mid : Value} (own : some id ∈ roots) (inside : root ∈ roots)
    (reaches : heap.Reaches root mid) : ¬ heap.Holds mid (some id) := by
  intro holds
  obtain ⟨⟨index⟩, rfl⟩ := holds.source
  have few := count_add_weight_le unshared inside reaches
  have held := weight_pos_iff.mpr holds
  have named := List.count_pos_iff.mpr own
  omega

/-- If an array that the roots reach holds the value, then no root is the value. -/
theorem not_mem_of_holds {root mid : Value} (inside : root ∈ roots) (reaches : heap.Reaches root mid)
    (holds : heap.Holds mid (some id)) : some id ∉ roots := by
  intro own
  exact not_holds_of_root unshared own inside reaches holds

/-- Only one array that the roots reach holds the value. -/
theorem holder_unique {root other mid further : Value} (inside : root ∈ roots)
    (reaches : heap.Reaches root mid) (holds : heap.Holds mid (some id)) (within : other ∈ roots)
    (leads : heap.Reaches other further) (also : heap.Holds further (some id)) : further = mid := by
  obtain ⟨⟨first⟩, rfl⟩ := holds.source
  obtain ⟨⟨second⟩, rfl⟩ := also.source
  by_contra apart
  have different : first ≠ second := by
    intro same
    exact apart (by rw [same])
  have few := weight_add_weight_le unshared different inside reaches within leads
  have one := weight_pos_iff.mpr holds
  have two := weight_pos_iff.mpr also
  omega

/-- An array that the roots reach holds the value at one position at most. -/
theorem position_unique {root mid : Value} {body : Body} {elements : Array Value} {first second : Nat}
    (inside : root ∈ roots) (reaches : heap.Reaches root mid) (found : heap.body? mid = some body)
    (array : body.elements? = some elements) (one : elements[first]? = some (some id))
    (two : elements[second]? = some (some id)) : first = second := by
  have holds : heap.Holds mid (some id) := ⟨body, found, elements, array, Array.mem_of_getElem? one⟩
  obtain ⟨⟨index⟩, rfl⟩ := holds.source
  have few := count_add_weight_le unshared inside reaches
  simp only [weight, found, Option.bind_some, array, ← Array.count_toList] at few
  rw [← Array.getElem?_toList] at one two
  exact eq_of_count_le_one (show elements.toList.count (some id) ≤ 1 by omega) one two

end Unshared

/-- The search through what a value holds finds every body. -/
theorem reaches_of_reaches (reaches : heap.Reaches value (some id)) :
    heap.reaches value id = true := by
  rw [Heap.reaches, Bool.or_eq_true, decide_eq_true_iff]
  rcases reaches.cases_tail with same | ⟨mid, leads, holds⟩
  · exact .inl same.symm
  · apply Or.inr
    obtain ⟨⟨index⟩, rfl⟩ := holds.source
    obtain ⟨elements, array, inside⟩ := holds_iff_elements?.mp holds
    have live := marked_live (List.mem_singleton_self value) leads ⟨index⟩ rfl ⟨_, holds⟩
    rw [List.any_eq_true]
    refine ⟨elements, ?_, Array.contains_iff_mem.mpr inside⟩
    exact List.mem_filterMap.mpr ⟨index, Std.TreeSet.mem_toList.mpr live, array⟩

theorem reaches_iff : heap.reaches value id = true ↔ heap.Reaches value (some id) := by
  refine ⟨fun found => ?_, reaches_of_reaches⟩
  rw [Heap.reaches, Bool.or_eq_true, decide_eq_true_iff, List.any_eq_true] at found
  rcases found with rfl | ⟨elements, listed, inside⟩
  · exact .refl
  · obtain ⟨index, live, array⟩ := List.mem_filterMap.mp listed
    obtain ⟨root, same, leads⟩ := reaches_of_mem_live (Std.TreeSet.mem_toList.mp live)
    obtain rfl := List.mem_singleton.mp same
    exact leads.tail (holds_iff_elements?.mpr ⟨elements, array, Array.contains_iff_mem.mp inside⟩)

end CoopScript.Heap
