import CoopScript.Value.Heap
import Mathlib.Data.Finset.Card
import Mathlib.Data.Finset.Range
import Mathlib.Logic.Relation

/-!
Heaps in which no value holds itself at any depth. There a value has one tree, which its own body
and the trees of its elements make up, and which no change of bodies that it does not reach affects.
-/

namespace CoopScript

open Relation (ReflTransGen)

/-- The body is an array with this element. -/
def Body.Holds (body : Body) (child : Value) : Prop :=
  ∃ elements, body.elements? = some elements ∧ child ∈ elements

/-- The tree of a body whose elements have the given trees. -/
def Body.datum (view : Value → Datum) : Body → Datum
  | ⟨type, .scalar payload⟩ => .scalar type payload
  | ⟨type, .array elements⟩ => .array type (elements.toList.map view)

theorem Body.datum_congr {body : Body} {view other : Value → Datum}
    (same : ∀ child, body.Holds child → view child = other child) :
    body.datum view = body.datum other := by
  obtain ⟨type, data⟩ := body
  cases data with
  | scalar payload => rfl
  | array elements =>
      apply congrArg (Datum.array type)
      apply List.map_congr_left
      intro child inside
      exact same child ⟨elements, rfl, Array.mem_toList_iff.mp inside⟩

theorem Body.datum_ne_empty (body : Body) (view : Value → Datum) : body.datum view ≠ .empty := by
  obtain ⟨type, data⟩ := body
  cases data <;> nofun

namespace Heap

/-- The value is empty or a handle on a body of the heap. -/
def Has (heap : Heap) (value : Value) : Prop := ∀ id, value = some id → id.index < heap.size

/-- The value is an array with this element. -/
def Holds (heap : Heap) (value child : Value) : Prop :=
  ∃ body, heap.body? value = some body ∧ body.Holds child

/-- The value is the other one or holds it at any depth. -/
abbrev Reaches (heap : Heap) : Value → Value → Prop := ReflTransGen heap.Holds

/-- The heap has the value and all that it holds, down to a depth where nothing holds anything. -/
inductive Founded (heap : Heap) : Value → Prop
  | intro {value : Value} : heap.Has value → (∀ child, heap.Holds value child → heap.Founded child) →
      heap.Founded value

/-- No body holds itself, and none holds a handle on a body that is missing. -/
def Sound (heap : Heap) : Prop := ∀ value, heap.Has value → heap.Founded value

variable {heap after : Heap} {value child target : Value} {id : BodyId} {body : Body}

theorem has_none (heap : Heap) : heap.Has none := nofun

theorem has_some_iff : heap.Has (some id) ↔ id.index < heap.size := by
  constructor
  · intro has
    exact has id rfl
  · intro inside _ equal
    cases equal
    exact inside

theorem exists_body? (has : heap.Has (some id)) : ∃ body, heap.body? (some id) = some body :=
  ⟨_, Array.getElem?_eq_getElem (has_some_iff.mp has)⟩

theorem Has.of_body? (found : heap.body? value = some body) : heap.Has value := by
  intro id same
  subst same
  exact lt_size_of_body? found

theorem Has.mono (has : heap.Has value) (size : heap.size ≤ after.size) : after.Has value := by
  intro id same
  exact lt_of_lt_of_le (has id same) size

theorem Holds.of_body? (found : heap.body? value = some body) (holds : body.Holds child) :
    heap.Holds value child := ⟨body, found, holds⟩

theorem Holds.source (holds : heap.Holds value child) : ∃ id, value = some id := by
  obtain ⟨body, found, _⟩ := holds
  cases value with
  | none => cases found
  | some id => exact ⟨id, rfl⟩

theorem Reaches.eq_none (reaches : heap.Reaches none target) : target = none := by
  rcases reaches.cases_head with same | ⟨child, holds, _⟩
  · exact same.symm
  · obtain ⟨id, missing⟩ := holds.source
    cases missing

theorem founded_none (heap : Heap) : heap.Founded none := by
  refine .intro heap.has_none fun child holds => ?_
  obtain ⟨_, ⟨⟩⟩ := holds.source

theorem sound_empty : empty.Sound := by
  intro value has
  apply Founded.intro has
  intro child given
  obtain ⟨body, found, _⟩ := given
  cases value with
  | none => cases found
  | some id => exact (Nat.not_lt_zero _ (has id rfl)).elim

namespace Founded

theorem has (founded : heap.Founded value) : heap.Has value := by
  cases founded with
  | intro has _ => exact has

theorem element (founded : heap.Founded value) (holds : heap.Holds value child) :
    heap.Founded child := by
  cases founded with
  | intro _ children => exact children child holds

theorem reached (founded : heap.Founded value) (reaches : heap.Reaches value target) :
    heap.Founded target := by
  induction reaches with
  | refl => exact founded
  | tail _ holds hypothesis => exact hypothesis.element holds

/-- What a value holds does not lead back to it. -/
theorem not_reaches (founded : heap.Founded value) (holds : heap.Holds value child) :
    ¬ heap.Reaches child value := by
  induction founded generalizing child with
  | intro _ _ hypothesis =>
      intro back
      rcases back.cases_head with same | ⟨next, step, rest⟩
      · subst same
        exact hypothesis child holds holds .refl
      · exact hypothesis child holds step (rest.tail holds)

end Founded

/-! The tree of a value. -/

open Classical in
/-- The bodies that a value reaches, by their positions. -/
noncomputable def reached (heap : Heap) (value : Value) : Finset Nat :=
  (Finset.range heap.size).filter fun index => heap.Reaches value (some ⟨index⟩)

theorem mem_reached_iff {index : Nat} :
    index ∈ heap.reached value ↔ index < heap.size ∧ heap.Reaches value (some ⟨index⟩) := by
  classical
  simp [reached]

theorem card_reached_le (heap : Heap) (value : Value) : (heap.reached value).card ≤ heap.size := by
  classical
  exact (Finset.card_filter_le _ _).trans (Finset.card_range _).le

theorem card_reached_pos (has : heap.Has (some id)) : 0 < (heap.reached (some id)).card :=
  Finset.card_pos.mpr ⟨id.index, mem_reached_iff.mpr ⟨has id rfl, .refl⟩⟩

/-- An element reaches fewer bodies than the array that holds it, unless it leads back to it. -/
theorem card_reached_lt_of_not_reaches (holds : heap.Holds value child)
    (away : ¬ heap.Reaches child value) :
    (heap.reached child).card < (heap.reached value).card := by
  obtain ⟨id, rfl⟩ := holds.source
  have inRange : id.index < heap.size := by
    obtain ⟨body, found, _⟩ := holds
    exact lt_size_of_body? found
  apply Finset.card_lt_card
  apply Finset.ssubset_iff_subset_ne.mpr
  constructor
  · intro index inside
    obtain ⟨inRange, reaches⟩ := mem_reached_iff.mp inside
    exact mem_reached_iff.mpr ⟨inRange, reaches.head holds⟩
  · intro same
    have own : id.index ∈ heap.reached (some id) := mem_reached_iff.mpr ⟨inRange, .refl⟩
    rw [← same] at own
    exact away (mem_reached_iff.mp own).2

theorem Founded.card_reached_lt (founded : heap.Founded value) (holds : heap.Holds value child) :
    (heap.reached child).card < (heap.reached value).card :=
  card_reached_lt_of_not_reaches holds (founded.not_reaches holds)

theorem viewWithin_succ (heap : Heap) (depth : Nat) (value : Value) :
    heap.viewWithin (depth + 1) value =
      match heap.body? value with
      | none => .empty
      | some body => body.datum (heap.viewWithin depth) := by
  rw [viewWithin]
  cases heap.body? value with
  | none => rfl
  | some body =>
      obtain ⟨type, data⟩ := body
      cases data <;> rfl

/-- As many levels as there are bodies to reach show the whole tree. -/
theorem Founded.viewWithin_add (founded : heap.Founded value) {depth : Nat}
    (enough : (heap.reached value).card ≤ depth) (further : Nat) :
    heap.viewWithin (depth + further) value = heap.viewWithin depth value := by
  induction founded generalizing depth with
  | @intro value has children hypothesis =>
      cases found : heap.body? value with
      | none =>
          have blank (depth : Nat) : heap.viewWithin depth value = .empty := by
            cases depth with
            | zero => rfl
            | succ depth => rw [viewWithin_succ, found]
          rw [blank, blank]
      | some body =>
          have founded : heap.Founded value := .intro has children
          cases depth with
          | zero =>
              cases value with
              | none => cases found
              | some id =>
                  have positive := card_reached_pos has
                  omega
          | succ depth =>
              rw [Nat.succ_add, viewWithin_succ, viewWithin_succ, found]
              apply Body.datum_congr
              intro child inside
              have holds : heap.Holds value child := .of_body? found inside
              have fewer := founded.card_reached_lt holds
              exact hypothesis child holds (by omega)

/-- The tree of a value is its body's, made of the trees of its elements. -/
theorem Founded.view_eq (founded : heap.Founded value) :
    heap.view value =
      match heap.body? value with
      | none => .empty
      | some body => body.datum heap.view := by
  rw [view, ← founded.viewWithin_add (heap.card_reached_le value) 1, viewWithin_succ]
  rfl

theorem Founded.view_of_body? (founded : heap.Founded value) (found : heap.body? value = some body) :
    heap.view value = body.datum heap.view := by
  rw [founded.view_eq, found]

theorem view_none (heap : Heap) : heap.view none = .empty := by
  unfold view
  cases heap.size <;> rfl

theorem view_of_body?_eq_none (missing : heap.body? value = none) : heap.view value = .empty := by
  unfold view
  cases heap.size with
  | zero => rfl
  | succ depth => rw [viewWithin_succ, missing]

/-! Changes elsewhere. -/

/-- The heap has grown or stayed, and no body changed among those that the value reaches. -/
structure Spares (heap after : Heap) (value : Value) : Prop where
  size : heap.size ≤ after.size
  bodies : ∀ target, heap.Reaches value target → after.body? target = heap.body? target

namespace Spares

theorem element (spares : heap.Spares after value) (holds : heap.Holds value child) :
    heap.Spares after child where
  size := spares.size
  bodies := fun target reaches => spares.bodies target (reaches.head holds)

theorem body? (spares : heap.Spares after value) : after.body? value = heap.body? value :=
  spares.bodies value .refl

theorem holds_iff (spares : heap.Spares after value) :
    after.Holds value child ↔ heap.Holds value child := by
  simp only [Holds, spares.body?]

theorem founded (spares : heap.Spares after value) (founded : heap.Founded value) :
    after.Founded value := by
  induction founded with
  | intro has _ hypothesis =>
      apply Founded.intro (has.mono spares.size)
      intro child holds
      have earlier := spares.holds_iff.mp holds
      exact hypothesis child earlier (spares.element earlier)

/-- The tree of a value stays as long as the bodies that it reaches stay. -/
theorem view (spares : heap.Spares after value) (founded : heap.Founded value) :
    after.view value = heap.view value := by
  induction founded with
  | @intro value has children hypothesis =>
      have before : heap.Founded value := .intro has children
      rw [before.view_eq, (spares.founded before).view_eq, spares.body?]
      cases found : heap.body? value with
      | none => rfl
      | some body =>
          apply Body.datum_congr
          intro child inside
          have holds : heap.Holds value child := .of_body? found inside
          exact hypothesis child holds (spares.element holds)

theorem reaches_iff (spares : heap.Spares after value) :
    after.Reaches value target ↔ heap.Reaches value target := by
  constructor
  · intro reaches
    induction reaches using ReflTransGen.head_induction_on with
    | refl => exact .refl
    | head holds _ hypothesis =>
        have earlier := spares.holds_iff.mp holds
        exact (hypothesis (spares.element earlier)).head earlier
  · intro reaches
    induction reaches using ReflTransGen.head_induction_on with
    | refl => exact .refl
    | head holds _ hypothesis =>
        exact (hypothesis (spares.element holds)).head (spares.holds_iff.mpr holds)

end Spares

end Heap

end CoopScript
