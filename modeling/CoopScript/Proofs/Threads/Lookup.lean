import Mathlib.Logic.Function.Basic
import Mathlib.Data.List.TakeWhile
import CoopScript.Machine.Thread

/-!
What each operation does to the threads by their numbers, and to the queue.
-/

namespace CoopScript.ThreadSet

variable {set : ThreadSet} {id other : ThreadId} {thread : Thread}

theorem mem_ids_iff : id ∈ set.ids ↔ ∃ thread, set.find? id = some thread := by
  rw [← Option.ne_none_iff_exists', Ne, find?, List.lookup_eq_none_iff]
  simp [ids]

@[simp] theorem contains_iff : set.contains id = true ↔ ∃ thread, set.find? id = some thread := by
  simp [contains, Option.isSome_iff_exists]

theorem contains_iff_mem_ids : set.contains id = true ↔ id ∈ set.ids := by
  rw [contains_iff, mem_ids_iff]

theorem lookup_cons_of_ne {entry : ThreadId × Thread} (different : other ≠ entry.1)
    (rest : List (ThreadId × Thread)) : (entry :: rest).lookup other = rest.lookup other := by
  rw [List.lookup_cons, beq_false_of_ne different]

/-- The new thread stands beside those that were there. -/
theorem find?_spawn (fresh : set.find? set.next = none) (root : FrameId) :
    (set.spawn root).2.find? =
      Function.update set.find? set.next (some { root, current := root }) := by
  funext other
  simp only [find?, spawn, List.lookup_append, List.lookup_cons, List.lookup_nil]
  by_cases same : other = set.next
  · subst same
    simp only [find?] at fresh
    simp [fresh]
  · rw [Function.update_of_ne same, beq_false_of_ne same]
    simp [find?]

theorem find?_update (found : set.find? id = some thread) (change : Thread → Thread) :
    (set.update id change).find? = Function.update set.find? id (some (change thread)) := by
  have mapped (other : ThreadId) : (set.update id change).find? other =
      if other = id then (set.find? other).map change else set.find? other := by
    simp only [find?, update]
    induction set.threads with
    | nil => simp
    | cons entry rest hypothesis =>
        obtain ⟨number, held⟩ := entry
        by_cases same : other = number
        · subst same
          by_cases named : other = id <;> simp [named]
        · rw [List.map_cons, lookup_cons_of_ne same rest, lookup_cons_of_ne (by split <;> exact same)]
          exact hypothesis
  funext other
  rw [mapped]
  by_cases same : other = id
  · subst same
    simp [found]
  · rw [if_neg same, Function.update_of_ne same]

theorem find?_remove (set : ThreadSet) (id : ThreadId) :
    (set.remove id).find? = Function.update set.find? id none := by
  funext other
  simp only [find?, remove]
  by_cases same : other = id
  · subst same
    rw [Function.update_self, List.lookup_eq_none_iff]
    intro entry inside
    exact bne_iff_ne.mpr fun equal => (of_decide_eq_true (List.mem_filter.mp inside).2) equal.symm
  · rw [Function.update_of_ne same, find?]
    induction set.threads with
    | nil => rfl
    | cons entry rest hypothesis =>
        obtain ⟨number, held⟩ := entry
        by_cases named : number = id
        · rw [List.filter_cons_of_neg (by simpa using named), hypothesis,
            lookup_cons_of_ne (fun equal => same (equal.trans named)) rest]
        · rw [List.filter_cons_of_pos (by simpa using named), List.lookup_cons, List.lookup_cons,
            hypothesis]

/-! The queue. -/

/-- The queue gives out its first live thread, if there is one. -/
theorem takeReady_cases (set : ThreadSet) :
    (set.takeReady = (none, { set with ready := [] }) ∧
      ∀ id ∈ set.ready, set.contains id = false) ∨
    ∃ gone id rest, set.ready = gone ++ id :: rest ∧ set.contains id = true ∧
      (∀ other ∈ gone, set.contains other = false) ∧
      set.takeReady = (some id, { set with ready := rest }) := by
  have parts := List.takeWhile_append_dropWhile (p := fun id => !set.contains id) (l := set.ready)
  have gone : ∀ id ∈ set.ready.takeWhile fun id => !set.contains id, set.contains id = false := by
    intro id inside
    simpa using List.mem_takeWhile_imp inside
  unfold takeReady
  cases left : set.ready.dropWhile fun id => !set.contains id with
  | nil =>
      rw [left, List.append_nil] at parts
      exact .inl ⟨rfl, parts ▸ gone⟩
  | cons id rest =>
      rw [left] at parts
      have live := List.head_dropWhile_not (fun id => !set.contains id) (l := set.ready)
        (by simp [left])
      simp only [left, List.head_cons, Bool.not_eq_false'] at live
      exact .inr ⟨_, id, rest, parts.symm, live, gone, rfl⟩

end CoopScript.ThreadSet
