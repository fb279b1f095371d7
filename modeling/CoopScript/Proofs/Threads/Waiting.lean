import CoopScript.Proofs.Threads.Balanced

/-!
How long threads wait, and which of them the next tick wakes.
-/

namespace CoopScript.ThreadSet

variable {set : ThreadSet} {current : Option ThreadId} {id other : ThreadId} {left : Nat}

/-- The threads whose last tick is next. -/
def due (set : ThreadSet) : List ThreadId :=
  (set.waiting.filter fun entry => entry.2 = 1).map (·.1)

/-- A thread waits once at most. -/
theorem Balanced.waitingTicks?_eq_some_iff (balanced : Balanced set current) :
    set.waitingTicks? id = some left ↔ (id, left) ∈ set.waiting := by
  rw [waitingTicks?, List.lookup_eq_some_iff]
  constructor
  · rintro ⟨before, after, same, _⟩
    simp [same]
  · intro waits
    obtain ⟨before, after, same⟩ := List.append_of_mem waits
    refine ⟨before, after, same, fun entry earlier => bne_iff_ne.mpr ?_⟩
    rintro rfl
    have sorted := balanced.waiting_sorted
    rw [waitingIds, same, List.map_append, List.pairwise_append] at sorted
    have less := sorted.2.2 entry.1 (List.mem_map_of_mem earlier) entry.1 (by simp)
    exact Nat.lt_irrefl _ less

theorem Balanced.mem_due_iff (balanced : Balanced set current) :
    id ∈ set.due ↔ set.waitingTicks? id = some 1 := by
  rw [balanced.waitingTicks?_eq_some_iff]
  simp [due]

theorem Balanced.due_sorted (balanced : Balanced set current) :
    set.due.Pairwise fun first second => first.number < second.number :=
  balanced.waiting_sorted.sublist (List.filter_sublist.map _)

/-- The threads that are woken stand at the end of the queue. -/
theorem Balanced.ready_wake (balanced : Balanced set current) :
    set.wake.2.ready = set.ready ++ set.due := by
  have last : ∀ entry ∈ set.waiting, entry.2 - 1 = 0 ↔ entry.2 = 1 := by
    intro entry inside
    have positive := (balanced.waiting_live entry inside).2
    omega
  have woken : ((set.waiting.map fun entry => (entry.1, entry.2 - 1)).filter
      fun entry => entry.2 = 0).map (·.1) = set.due := by
    rw [List.filter_map, List.map_map, due, Function.comp_def, Function.comp_def]
    dsimp only
    rw [List.filter_congr fun entry inside => decide_eq_decide.mpr (last entry inside)]
  exact congrArg (set.ready ++ ·) woken

/-- A thread that waits for longer waits on. -/
theorem mem_waiting_wake (waits : (id, left) ∈ set.waiting) (longer : 1 < left) :
    (id, left - 1) ∈ set.wake.2.waiting :=
  List.mem_filter.mpr ⟨List.mem_map.mpr ⟨_, waits, rfl⟩, decide_eq_true (Nat.sub_ne_zero_of_lt longer)⟩

theorem waiting_takeReady (set : ThreadSet) : set.takeReady.2.waiting = set.waiting := by
  rcases set.takeReady_cases with ⟨taken, _⟩ | ⟨_, _, _, _, _, _, taken⟩ <;> rw [taken]

/-- Who waits does so whoever else begins to wait. -/
theorem mem_waiting_park (absent : other ∉ set.waitingIds) {ticks : Nat}
    (waits : (id, left) ∈ set.waiting) : (id, left) ∈ (set.park other ticks).waiting :=
  (insertWaiting_perm absent).mem_iff.mpr (List.mem_cons_of_mem _ waits)

theorem mem_waiting_park_self (absent : id ∉ set.waitingIds) (ticks : Nat) :
    (id, ticks) ∈ (set.park id ticks).waiting :=
  (insertWaiting_perm absent).mem_iff.mpr List.mem_cons_self

theorem mem_waiting_remove (waits : (id, left) ∈ set.waiting) (live : id ∈ (set.remove other).ids) :
    (id, left) ∈ (set.remove other).waiting := by
  rw [ids_remove] at live
  exact List.mem_filter.mpr ⟨waits, (List.mem_filter.mp live).2⟩

end CoopScript.ThreadSet
