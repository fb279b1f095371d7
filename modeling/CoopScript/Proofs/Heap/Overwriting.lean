import CoopScript.Machine.Reply
import CoopScript.Proofs.Heap.Acyclic
import CoopScript.Proofs.Heap.Replacement

/-!
One value overwritten with another. Whichever of the two holds the other, the body of the target takes
over what the source showed, no other body changes, and no value comes to hold itself.
-/

namespace CoopScript.Heap

open Relation (ReflTransGen TransGen)

/-- No array holds a handle on a body that is missing. -/
def Closed (heap : Heap) : Prop := ∀ value child, heap.Holds value child → heap.Has child

/-- No value holds itself at any depth. -/
def Loopless (heap : Heap) : Prop := ∀ value, ¬ TransGen heap.Holds value value

/-- Of the bodies that there were, only the target's has changed. It shows what the source showed, and
there is still no loop. -/
structure Overwrites (heap after : Heap) (target source : Value) : Prop where
  view : after.view target = heap.view source
  type : after.type? target = heap.type? source
  others : ∀ value, heap.Has value → value ≠ target → after.body? value = heap.body? value
  away : ∀ value, heap.Has value → ¬ heap.Reaches value target → after.view value = heap.view value
  closed : after.Closed
  loopless : after.Loopless

variable {heap after : Heap} {target source value held : Value}

theorem Sound.closed (sound : heap.Sound) : heap.Closed := by
  intro value child holds
  obtain ⟨body, found, inside⟩ := holds
  exact holds_known sound found child inside

theorem Closed.has_of_reaches (closed : heap.Closed) (extended : heap.Extends after)
    (has : heap.Has value) (reaches : after.Reaches value held) : heap.Has held := by
  induction reaches with
  | refl => exact has
  | tail _ holds hypothesis =>
      obtain ⟨body, found, inside⟩ := holds
      rw [extended.bodies _ hypothesis] at found
      exact closed _ _ ⟨body, found, inside⟩

/-- In a heap of finitely many bodies, going down without a loop comes to an end. -/
theorem Closed.sound (closed : heap.Closed) (loopless : heap.Loopless) : heap.Sound := by
  intro value has
  -- The number of bodies that a value reaches falls with each step down.
  induction reached : (heap.reached value).card using Nat.strong_induction_on generalizing value with
  | _ count hypothesis =>
      apply Founded.intro has
      intro child holds
      have away : ¬ heap.Reaches child value := fun back => loopless value (.head' holds back)
      have fewer := card_reached_lt_of_not_reaches holds away
      exact hypothesis _ (reached ▸ fewer) child (closed value child holds) rfl

theorem overwrite_of_handles {id other : BodyId} {body : Body}
    (found : heap.body? (some other) = some body) :
    heap.overwrite (some id) (some other) = .ok (heap.takeOver id (some other)) := by
  simp [overwrite, overwritten, get_eq_ok_iff.mpr found, bind, Except.bind, pure, Except.pure]

theorem overwrite_of_empty (empty : target = none ∨ source = none) :
    heap.overwrite target source = .error .empty := by
  rcases empty with rfl | rfl
  · rfl
  · cases target <;> rfl

/-- The body of a handle takes over the source in place, also when one of the two holds the other. -/
theorem overwrites_takeOver (sound : heap.Sound) {id : BodyId} {body : Body}
    (has : heap.Has (some id)) (found : heap.body? source = some body) :
    heap.Overwrites (heap.takeOver id source) (some id) source := by
  have replaces := replaces_takeOver sound has found
  constructor
  case view => exact replaces.view
  case type => rw [← type?_view, ← type?_view, replaces.view]
  case others => exact replaces.others
  case away =>
    intro value has away
    exact (replaces.spares sound has away).view (sound value has)
  case closed => exact replaces.sound.closed
  case loopless => exact replaces.sound.acyclic.loopless

/-- In a heap without loops, overwriting fails if one of the two values is empty, and changes nothing.
Otherwise it succeeds: every handle on the body of the target shows what the source showed, with its
type, every other body stays as it was, every value that does not reach the target shows what it
showed, and there is no loop. -/
theorem overwrite_in_place (closed : heap.Closed) (loopless : heap.Loopless)
    (has : heap.Has target) (given : heap.Has source) :
    (target = none ∨ source = none → heap.overwrite target source = .error .empty ∧
      ∀ machine : Machine, machine.heap = heap →
        Request.perform (.overwrite target source) machine = (.error .empty, machine)) ∧
    (target ≠ none → source ≠ none → ∃ after, heap.overwrite target source = .ok after ∧
      heap.Overwrites after target source ∧
      ∀ machine : Machine, machine.heap = heap →
        Request.perform (.overwrite target source) machine =
          (.ok (), { machine with heap := after })) := by
  refine ⟨fun empty => ?_, fun handle other => ?_⟩
  · have failed := @overwrite_of_empty heap target source empty
    refine ⟨failed, fun machine same => ?_⟩
    rw [← same] at failed
    simp only [Request.perform, failed]
  · obtain ⟨id, rfl⟩ := Option.ne_none_iff_exists'.mp handle
    obtain ⟨further, rfl⟩ := Option.ne_none_iff_exists'.mp other
    obtain ⟨body, found⟩ := exists_body? given
    have done := @overwrite_of_handles heap id further body found
    refine ⟨_, done, overwrites_takeOver (closed.sound loopless) has found, fun machine same => ?_⟩
    subst same
    simp only [Request.perform, done]

/-! An array overwritten with one that holds it. -/

/-- An array of truth values, within an array of such arrays. -/
def nested : Heap :=
  (build (.array (.array (.array .boolean)) [.array (.array .boolean) [.boolean true]]) .empty).2

theorem overwrite_in_place_nested : nested.Holds (some ⟨2⟩) (some ⟨1⟩) ∧
    ∃ after, nested.overwrite (some ⟨1⟩) (some ⟨2⟩) = .ok after ∧
      after.view (some ⟨1⟩) =
        .array (.array (.array .boolean)) [.array (.array .boolean) [.boolean true]] ∧
      after.view (some ⟨0⟩) = .boolean true ∧ after.Loopless := by
  have sound : nested.Sound := (made_build _ .empty sound_empty).sound
  have holds : nested.Holds (some ⟨2⟩) (some ⟨1⟩) :=
    ⟨⟨.array (.array .boolean), .array #[some ⟨1⟩]⟩, rfl, #[some ⟨1⟩], rfl, by simp⟩
  have target : nested.Has (some ⟨1⟩) := has_some_iff.mpr (by decide)
  have source : nested.Has (some ⟨2⟩) := has_some_iff.mpr (by decide)
  have outside : nested.Has (some ⟨0⟩) := has_some_iff.mpr (by decide)
  have away : ¬ nested.Reaches (some ⟨0⟩) (some ⟨1⟩) := by
    rw [← reaches_iff]
    decide +kernel
  obtain ⟨after, done, overwrites, _⟩ :=
    (overwrite_in_place sound.closed sound.acyclic.loopless target source).2 nofun nofun
  exact ⟨holds, after, done, overwrites.view, overwrites.away _ outside away, overwrites.loopless⟩

end CoopScript.Heap
