import Mathlib.Data.List.Sort
import CoopScript.Proofs.Threads.Lookup

/-!
The scheduler's books. A live thread that is neither lost nor queued twice is in exactly one place:
in the queue, among the waiting, or at the head of the machine as the current thread.
-/

namespace CoopScript.ThreadSet

/-- The threads that wait for a tick. -/
def waitingIds (set : ThreadSet) : List ThreadId := set.waiting.map (·.1)

/-- The books are in order beside the given current thread. -/
structure Balanced (set : ThreadSet) (current : Option ThreadId) : Prop where
  ids_sorted : set.ids.Pairwise fun first second => first.number < second.number
  ids_lt : ∀ id ∈ set.ids, id.number < set.next.number
  ready_lt : ∀ id ∈ set.ready, id.number < set.next.number
  waiting_sorted : set.waitingIds.Pairwise fun first second => first.number < second.number
  waiting_live : ∀ entry ∈ set.waiting, entry.1 ∈ set.ids ∧ 1 ≤ entry.2
  ready_once : ∀ id ∈ set.ids, set.ready.count id ≤ 1
  ready_apart : ∀ id ∈ set.ids, id ∈ set.ready → id ∉ set.waitingIds
  current_lt : ∀ id, current = some id → id.number < set.next.number
  current_apart : ∀ id, current = some id → id ∉ set.ready ∧ id ∉ set.waitingIds

/-- No live thread is lost. -/
def Placed (set : ThreadSet) (current : Option ThreadId) : Prop :=
  ∀ id ∈ set.ids, id ∈ set.ready ∨ id ∈ set.waitingIds ∨ current = some id

variable {set : ThreadSet} {current : Option ThreadId} {id : ThreadId}

theorem Balanced.empty : Balanced {} none where
  ids_sorted := List.Pairwise.nil
  ids_lt := by simp [ids]
  ready_lt := by simp
  waiting_sorted := List.Pairwise.nil
  waiting_live := by simp
  ready_once := by simp
  ready_apart := by simp
  current_lt := by simp
  current_apart := by simp

theorem Balanced.waitingIds_subset (balanced : Balanced set current) :
    set.waitingIds ⊆ set.ids := by
  intro id inside
  obtain ⟨entry, member, rfl⟩ := List.mem_map.mp inside
  exact (balanced.waiting_live entry member).1

theorem Balanced.next_not_mem (balanced : Balanced set current) : set.next ∉ set.ids :=
  fun inside => Nat.lt_irrefl _ (balanced.ids_lt _ inside)

theorem Balanced.find?_next (balanced : Balanced set current) : set.find? set.next = none := by
  cases found : set.find? set.next with
  | none => rfl
  | some thread => exact (balanced.next_not_mem (mem_ids_iff.mpr ⟨thread, found⟩)).elim

/-! A thread comes in, changes, or goes. -/

theorem ids_spawn (set : ThreadSet) (root : FrameId) :
    (set.spawn root).2.ids = set.ids ++ [set.next] := by
  simp [ids, spawn]

theorem ids_update (set : ThreadSet) (id : ThreadId) (change : Thread → Thread) :
    (set.update id change).ids = set.ids := by
  simp only [ids, update, List.map_map]
  refine List.map_congr_left fun entry _ => ?_
  simp only [Function.comp_apply]
  split <;> rfl

theorem ids_remove (set : ThreadSet) (id : ThreadId) :
    (set.remove id).ids = set.ids.filter fun other => other ≠ id := by
  simp [ids, remove, List.filter_map, Function.comp_def]

theorem waitingIds_remove (set : ThreadSet) (id : ThreadId) :
    (set.remove id).waitingIds = set.waitingIds.filter fun other => other ≠ id := by
  simp [waitingIds, remove, List.filter_map, Function.comp_def]

theorem Balanced.spawn (balanced : Balanced set current) (root : FrameId) :
    Balanced (set.spawn root).2 current := by
  have older {id : ThreadId} (before : id.number < set.next.number) :
      id.number < (set.spawn root).2.next.number := Nat.lt_succ_of_lt before
  have fresh : set.next ∉ set.ready := fun inside => Nat.lt_irrefl _ (balanced.ready_lt _ inside)
  constructor
  case ids_sorted =>
    rw [ids_spawn, List.pairwise_append]
    refine ⟨balanced.ids_sorted, List.pairwise_singleton .., fun id inside last => ?_⟩
    rw [List.mem_singleton]
    intro equal
    subst equal
    exact balanced.ids_lt id inside
  case ids_lt =>
    intro id inside
    rw [ids_spawn, List.mem_append, List.mem_singleton] at inside
    rcases inside with old | rfl
    · exact older (balanced.ids_lt id old)
    · exact Nat.lt_succ_self _
  case ready_lt =>
    intro id inside
    rcases List.mem_append.mp inside with old | new
    · exact older (balanced.ready_lt id old)
    · rw [List.mem_singleton.mp new]
      exact Nat.lt_succ_self _
  case waiting_sorted => exact balanced.waiting_sorted
  case waiting_live =>
    intro entry member
    rw [ids_spawn]
    obtain ⟨live, positive⟩ := balanced.waiting_live entry member
    exact ⟨List.mem_append_left _ live, positive⟩
  case ready_once =>
    intro id inside
    rw [ids_spawn, List.mem_append, List.mem_singleton] at inside
    simp only [ThreadSet.spawn, List.count_append, List.count_singleton]
    rcases inside with old | rfl
    · have different : set.next ≠ id := by
        intro equal
        subst equal
        exact balanced.next_not_mem old
      simpa [different] using balanced.ready_once id old
    · simp [List.count_eq_zero.mpr fresh]
  case ready_apart =>
    intro id inside queued waits
    have old := balanced.waitingIds_subset waits
    rcases List.mem_append.mp queued with earlier | new
    · exact balanced.ready_apart id old earlier waits
    · rw [List.mem_singleton.mp new] at old
      exact balanced.next_not_mem old
  case current_lt =>
    intro id named
    exact older (balanced.current_lt id named)
  case current_apart =>
    intro id named
    obtain ⟨queue, waits⟩ := balanced.current_apart id named
    refine ⟨fun queued => ?_, waits⟩
    rcases List.mem_append.mp queued with earlier | new
    · exact queue earlier
    · have before := balanced.current_lt id named
      rw [List.mem_singleton.mp new] at before
      exact Nat.lt_irrefl _ before

theorem Placed.spawn (placed : Placed set current) (root : FrameId) :
    Placed (set.spawn root).2 current := by
  intro id inside
  rw [ids_spawn, List.mem_append, List.mem_singleton] at inside
  rcases inside with old | rfl
  · exact (placed _ old).imp_left (List.mem_append_left _)
  · exact .inl (List.mem_append_right _ (List.mem_singleton_self _))

theorem Balanced.update (balanced : Balanced set current) (id : ThreadId)
    (change : Thread → Thread) : Balanced (set.update id change) current where
  ids_sorted := ids_update set id change ▸ balanced.ids_sorted
  ids_lt := ids_update set id change ▸ balanced.ids_lt
  ready_lt := balanced.ready_lt
  waiting_sorted := balanced.waiting_sorted
  waiting_live := ids_update set id change ▸ balanced.waiting_live
  ready_once := ids_update set id change ▸ balanced.ready_once
  ready_apart := ids_update set id change ▸ balanced.ready_apart
  current_lt := balanced.current_lt
  current_apart := balanced.current_apart

theorem Placed.update (placed : Placed set current) (id : ThreadId) (change : Thread → Thread) :
    Placed (set.update id change) current := by
  unfold Placed
  rw [ids_update]
  exact placed

/-- The queue may name a removed thread still. -/
theorem Balanced.remove (balanced : Balanced set current) (id : ThreadId) :
    Balanced (set.remove id) current := by
  have live {other : ThreadId} (inside : other ∈ (set.remove id).ids) : other ∈ set.ids := by
    rw [ids_remove] at inside
    exact (List.mem_filter.mp inside).1
  have waits {other : ThreadId} (inside : other ∈ (set.remove id).waitingIds) :
      other ∈ set.waitingIds := by
    rw [waitingIds_remove] at inside
    exact (List.mem_filter.mp inside).1
  constructor
  case ids_sorted => exact ids_remove set id ▸ balanced.ids_sorted.filter _
  case ids_lt => exact fun other inside => balanced.ids_lt other (live inside)
  case ready_lt => exact balanced.ready_lt
  case waiting_sorted => exact waitingIds_remove set id ▸ balanced.waiting_sorted.filter _
  case waiting_live =>
    intro entry member
    obtain ⟨before, different⟩ := List.mem_filter.mp member
    obtain ⟨inside, positive⟩ := balanced.waiting_live entry before
    rw [ids_remove]
    exact ⟨List.mem_filter.mpr ⟨inside, different⟩, positive⟩
  case ready_once => exact fun other inside => balanced.ready_once other (live inside)
  case ready_apart =>
    exact fun other inside queued waiting =>
      balanced.ready_apart other (live inside) queued (waits waiting)
  case current_lt => exact balanced.current_lt
  case current_apart =>
    intro other named
    obtain ⟨queue, waiting⟩ := balanced.current_apart other named
    exact ⟨queue, fun inside => waiting (waits inside)⟩

theorem Placed.remove (placed : Placed set current) (id : ThreadId) :
    Placed (set.remove id) current := by
  intro other inside
  rw [ids_remove] at inside
  obtain ⟨live, different⟩ := List.mem_filter.mp inside
  rw [waitingIds_remove]
  exact (placed other live).imp_right (Or.imp_left fun waits => List.mem_filter.mpr ⟨waits, different⟩)

/-! The turn of a thread. -/

/-- A balanced set stays so with another queue that holds no more live threads. -/
theorem Balanced.requeued (balanced : Balanced set current) {queue : List ThreadId}
    (within : queue.Sublist set.ready) : Balanced { set with ready := queue } current where
  ids_sorted := balanced.ids_sorted
  ids_lt := balanced.ids_lt
  ready_lt := fun id inside => balanced.ready_lt id (within.subset inside)
  waiting_sorted := balanced.waiting_sorted
  waiting_live := balanced.waiting_live
  ready_once := fun id inside => (within.count_le id).trans (balanced.ready_once id inside)
  ready_apart := fun id inside queued => balanced.ready_apart id inside (within.subset queued)
  current_lt := balanced.current_lt
  current_apart := fun id named =>
    ⟨fun queued => (balanced.current_apart id named).1 (within.subset queued),
      (balanced.current_apart id named).2⟩

theorem Balanced.takeReady (balanced : Balanced set none) :
    Balanced set.takeReady.2 set.takeReady.1 := by
  rcases set.takeReady_cases with ⟨taken, _⟩ | ⟨gone, id, rest, queue, live, _, taken⟩
  · rw [taken]
    exact balanced.requeued (List.nil_sublist _)
  · rw [taken]
    have within : rest.Sublist set.ready :=
      queue ▸ (List.sublist_cons_self id rest).trans (List.sublist_append_right ..)
    have right := balanced.requeued within
    have inside := contains_iff_mem_ids.mp live
    have queued : id ∈ set.ready := by simp [queue]
    refine { right with current_lt := ?_, current_apart := ?_ }
    · intro _ equal
      cases equal
      exact balanced.ids_lt id inside
    · intro _ equal
      cases equal
      refine ⟨fun again => ?_, balanced.ready_apart id inside queued⟩
      have once := balanced.ready_once id inside
      have twice : 0 < rest.count id := List.count_pos_iff.mpr again
      simp only [queue, List.count_append, List.count_cons_self] at once
      omega

theorem Placed.takeReady (placed : Placed set none) : Placed set.takeReady.2 set.takeReady.1 := by
  rcases set.takeReady_cases with ⟨taken, stale⟩ | ⟨gone, id, rest, queue, _, stale, taken⟩
  · rw [taken]
    intro other inside
    have live : set.contains other = true := contains_iff_mem_ids.mpr inside
    rcases placed other inside with queued | waits | named
    · rw [stale other queued] at live
      cases live
    · exact .inr (.inl waits)
    · cases named
  · rw [taken]
    intro other inside
    have live : set.contains other = true := contains_iff_mem_ids.mpr inside
    rcases placed other inside with queued | waits | named
    · rw [queue, List.mem_append, List.mem_cons] at queued
      rcases queued with early | rfl | late
      · rw [stale other early] at live
        cases live
      · exact .inr (.inr rfl)
      · exact .inl late
    · exact .inr (.inl waits)
    · cases named

theorem Balanced.relinquish (balanced : Balanced set current) : Balanced set none :=
  { balanced with current_lt := by simp, current_apart := by simp }

theorem Placed.relinquish (placed : Placed set (some id)) (gone : id ∉ set.ids) :
    Placed set none := by
  intro other inside
  refine (placed other inside).imp_right (Or.imp_right ?_)
  intro equal
  cases equal
  exact (gone inside).elim

theorem Balanced.requeue (balanced : Balanced set (some id)) : Balanced (set.requeue id) none := by
  obtain ⟨queue, waits⟩ := balanced.current_apart id rfl
  have absent := List.count_eq_zero.mpr queue
  refine { balanced.relinquish with
    ready_lt := ?_, ready_once := ?_, ready_apart := ?_, current_apart := by simp }
  · intro other queued
    rcases List.mem_append.mp queued with earlier | new
    · exact balanced.ready_lt other earlier
    · exact balanced.current_lt other (by rw [List.mem_singleton.mp new])
  · intro other inside
    have once := balanced.ready_once other inside
    simp only [ThreadSet.requeue, List.count_append, List.count_singleton, beq_iff_eq]
    split
    · next same =>
        subst same
        omega
    · omega
  · intro other inside queued
    rcases List.mem_append.mp queued with earlier | new
    · exact balanced.ready_apart other inside earlier
    · rw [List.mem_singleton.mp new]
      exact waits

theorem Placed.requeue (placed : Placed set (some id)) : Placed (set.requeue id) none := by
  intro other inside
  rcases placed other inside with queued | waits | named
  · exact .inl (List.mem_append_left _ queued)
  · exact .inr (.inl waits)
  · cases named
    exact .inl (List.mem_append_right _ (List.mem_singleton_self _))

/-! Waiting. -/

theorem mem_insertWaiting {ticks : Nat} {waiting : List (ThreadId × Nat)}
    {entry : ThreadId × Nat} (inside : entry ∈ insertWaiting id ticks waiting) :
    entry = (id, ticks) ∨ entry ∈ waiting := by
  induction waiting with
  | nil => exact .inl (List.mem_singleton.mp inside)
  | cons first rest hypothesis =>
      unfold insertWaiting at inside
      split at inside
      · exact List.mem_cons.mp inside
      · split at inside
        · exact (List.mem_cons.mp inside).imp_right (List.mem_cons_of_mem _)
        · rcases List.mem_cons.mp inside with rfl | later
          · exact .inr List.mem_cons_self
          · exact (hypothesis later).imp_right (List.mem_cons_of_mem _)

theorem insertWaiting_perm {ticks : Nat} {waiting : List (ThreadId × Nat)}
    (absent : id ∉ waiting.map (·.1)) :
    (insertWaiting id ticks waiting).Perm ((id, ticks) :: waiting) := by
  induction waiting with
  | nil => exact .refl _
  | cons first rest hypothesis =>
      simp only [List.map_cons, List.mem_cons, not_or] at absent
      unfold insertWaiting
      split
      · exact .refl _
      · rw [if_neg absent.1]
        exact ((hypothesis absent.2).cons first).trans (.swap ..)

theorem insertWaiting_sorted {ticks : Nat} {waiting : List (ThreadId × Nat)}
    (sorted : waiting.Pairwise fun first second => first.1.number < second.1.number) :
    (insertWaiting id ticks waiting).Pairwise
      fun first second => first.1.number < second.1.number := by
  induction waiting with
  | nil => exact List.pairwise_singleton ..
  | cons first rest hypothesis =>
      obtain ⟨before, later⟩ := List.pairwise_cons.mp sorted
      unfold insertWaiting
      split
      · next less =>
          refine List.pairwise_cons.mpr ⟨fun entry inside => ?_, sorted⟩
          rcases List.mem_cons.mp inside with rfl | further
          · exact less
          · exact less.trans (before entry further)
      · split
        · next same =>
            subst same
            exact List.pairwise_cons.mpr ⟨before, later⟩
        · next least different =>
            refine List.pairwise_cons.mpr ⟨fun entry inside => ?_, hypothesis later⟩
            rcases mem_insertWaiting inside with rfl | further
            · have numbers : id.number ≠ first.1.number := by
                intro same
                exact different (congrArg ThreadId.mk same)
              simp only at least ⊢
              omega
            · exact before entry further

theorem mem_waitingIds_park {other : ThreadId} {ticks : Nat} (absent : id ∉ set.waitingIds) :
    other ∈ (set.park id ticks).waitingIds ↔ other = id ∨ other ∈ set.waitingIds := by
  have alike := ((@insertWaiting_perm id ticks _ absent).map (·.1)).mem_iff (a := other)
  simpa [waitingIds, park] using alike

theorem Balanced.park (balanced : Balanced set (some id)) (live : id ∈ set.ids) {ticks : Nat}
    (positive : 1 ≤ ticks) : Balanced (set.park id ticks) none := by
  obtain ⟨queue, waits⟩ := balanced.current_apart id rfl
  refine { balanced.relinquish with
    waiting_sorted := ?_, waiting_live := ?_, ready_apart := ?_, current_apart := by simp }
  · have sorted := List.pairwise_map.mp balanced.waiting_sorted
    exact List.pairwise_map.mpr (insertWaiting_sorted sorted)
  · intro entry inside
    rcases mem_insertWaiting inside with rfl | earlier
    · exact ⟨live, positive⟩
    · exact balanced.waiting_live entry earlier
  · intro other inside queued waiting
    rcases (mem_waitingIds_park waits).mp waiting with rfl | earlier
    · exact queue queued
    · exact balanced.ready_apart other inside queued earlier

theorem Placed.park (balanced : Balanced set (some id)) (placed : Placed set (some id))
    (ticks : Nat) : Placed (set.park id ticks) none := by
  have waits := (balanced.current_apart id rfl).2
  intro other inside
  rcases placed other inside with queued | waiting | named
  · exact .inl queued
  · exact .inr (.inl ((mem_waitingIds_park waits).mpr (.inr waiting)))
  · cases named
    exact .inr (.inl ((mem_waitingIds_park waits).mpr (.inl rfl)))

/-- A thread that waited is due or waits on. -/
theorem wake_parts (set : ThreadSet) :
    ∃ due, set.wake.2.ready = set.ready ++ due ∧
      (due ++ set.wake.2.waitingIds).Perm set.waitingIds ∧
      due.Sublist set.waitingIds ∧ set.wake.2.waitingIds.Sublist set.waitingIds ∧
      ∀ entry ∈ set.wake.2.waiting, entry.1 ∈ set.waitingIds ∧ 1 ≤ entry.2 := by
  have names : (set.waiting.map fun entry => (entry.1, entry.2 - 1)).map (·.1) = set.waitingIds := by
    simp [waitingIds, Function.comp_def]
  refine ⟨_, rfl, ?_, ?_, ?_, fun entry inside => ?_⟩
  · rw [← names, waitingIds, wake, ← List.map_append]
    refine List.Perm.map _ ?_
    simpa using List.filter_append_perm (fun entry : ThreadId × Nat => decide (entry.2 = 0))
      (set.waiting.map fun entry => (entry.1, entry.2 - 1))
  · rw [← names]
    exact List.filter_sublist.map _
  · rw [← names]
    exact List.filter_sublist.map _
  · obtain ⟨member, positive⟩ := List.mem_filter.mp inside
    have named : entry.1 ∈ set.waitingIds := names ▸ List.mem_map_of_mem member
    exact ⟨named, Nat.one_le_iff_ne_zero.mpr (of_decide_eq_true positive)⟩

theorem Balanced.wake (balanced : Balanced set current) : Balanced set.wake.2 current := by
  obtain ⟨due, queue, parts, woken, still, counted⟩ := set.wake_parts
  have distinct : set.waitingIds.Nodup := balanced.waiting_sorted.imp fun less same => by
    rw [same] at less
    exact Nat.lt_irrefl _ less
  have split := (parts.nodup_iff.mpr distinct)
  rw [List.nodup_append'] at split
  obtain ⟨dueOnce, _, disjoint⟩ := split
  constructor
  case ids_sorted => exact balanced.ids_sorted
  case ids_lt => exact balanced.ids_lt
  case ready_lt =>
    intro id queued
    rw [queue, List.mem_append] at queued
    rcases queued with earlier | new
    · exact balanced.ready_lt id earlier
    · exact balanced.ids_lt id (balanced.waitingIds_subset (woken.subset new))
  case waiting_sorted => exact balanced.waiting_sorted.sublist still
  case waiting_live =>
    intro entry inside
    obtain ⟨waited, positive⟩ := counted entry inside
    exact ⟨balanced.waitingIds_subset waited, positive⟩
  case ready_once =>
    intro id inside
    rw [queue, List.count_append]
    have once := balanced.ready_once id inside
    have again := List.nodup_iff_count_le_one.mp dueOnce id
    by_cases new : id ∈ due
    · have absent : id ∉ set.ready :=
        fun queued => balanced.ready_apart id inside queued (woken.subset new)
      rw [List.count_eq_zero.mpr absent]
      omega
    · rw [List.count_eq_zero.mpr new]
      omega
  case ready_apart =>
    intro id inside queued waits
    rw [queue, List.mem_append] at queued
    rcases queued with earlier | new
    · exact balanced.ready_apart id inside earlier (still.subset waits)
    · exact disjoint new waits
  case current_lt => exact balanced.current_lt
  case current_apart =>
    intro id named
    obtain ⟨apart, waits⟩ := balanced.current_apart id named
    rw [queue, List.mem_append]
    exact ⟨fun queued => queued.elim apart fun new => waits (woken.subset new),
      fun waiting => waits (still.subset waiting)⟩

theorem Placed.wake (placed : Placed set current) : Placed set.wake.2 current := by
  obtain ⟨due, queue, parts, _⟩ := set.wake_parts
  intro id inside
  rw [queue, List.mem_append]
  rcases placed id inside with queued | waits | named
  · exact .inl (.inl queued)
  · rcases List.mem_append.mp (parts.mem_iff.mpr waits) with new | still
    · exact .inl (.inr new)
    · exact .inr (.inl still)
  · exact .inr (.inr named)

end CoopScript.ThreadSet
