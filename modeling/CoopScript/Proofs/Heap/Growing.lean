import CoopScript.Proofs.Actions.Keeping
import CoopScript.Proofs.Heap.Commands
import CoopScript.Proofs.Heap.Descents
import CoopScript.Proofs.Heap.Extension
import CoopScript.Proofs.Heap.Overwriting
import CoopScript.Proofs.Heap.Typing

/-!
Arrays that grow into new ones. The result of an appending or a concatenation that copies is a body of
its own, in which nothing that there was before can be told to have any part.
-/

namespace CoopScript

namespace Body

/-- Two arrays of these types and elements go together: one has no elements, or the types agree. -/
def Joins (type : Ty) (elements : Array Value) (other : Ty) (others : Array Value) : Prop :=
  elements = #[] ∨ others = #[] ∨ type = other

/-- The type of the elements of two arrays: that of the first array that has any. -/
def joinType (type : Ty) (elements : Array Value) (other : Ty) (others : Array Value) : Ty :=
  if elements = #[] ∧ others ≠ #[] then other else type

variable {type other found third : Ty} {elements others more : Array Value} {element : Value}
  {grown : Body}

theorem concatenate_eq_ok_iff :
    (⟨type, .array elements⟩ : Body).concatenate other others = .ok grown ↔
      Joins type elements other others ∧
        grown = ⟨joinType type elements other others, .array (elements ++ others)⟩ := by
  simp only [concatenate, Body.elements, bind, Except.bind, pure, Except.pure, Joins, joinType,
    Array.isEmpty_iff]
  by_cases none : others = #[]
  · subst none
    simp [eq_comm]
  · by_cases empty : elements = #[]
    · subst empty
      simp [none, eq_comm]
    · by_cases same : type = other <;> simp [none, empty, same, throw, throwThe, MonadExceptOf.throw,
        eq_comm]

theorem append_eq_ok_iff :
    (⟨type, .array elements⟩ : Body).append found element = .ok grown ↔
      (elements = #[] ∨ type.element? = some found) ∧
        grown = ⟨if elements = #[] then .array found else type, .array (elements.push element)⟩ := by
  simp only [append, Body.elements, bind, Except.bind, pure, Except.pure, Array.isEmpty_iff]
  by_cases empty : elements = #[]
  · subst empty
    simp [eq_comm]
  · by_cases same : type.element? = some found <;> simp [empty, same, throw, throwThe,
      MonadExceptOf.throw, eq_comm]

/-- Of three arrays in a row it makes no difference which two go together first. -/
theorem joins_assoc :
    (Joins type elements other others ∧
      Joins (joinType type elements other others) (elements ++ others) third more) ↔
    (Joins other others third more ∧
      Joins type elements (joinType other others third more) (others ++ more)) := by
  simp only [Joins, joinType, Array.append_eq_empty_iff]
  by_cases first : elements = #[] <;> by_cases second : others = #[] <;> by_cases last : more = #[] <;>
    simp only [first, second, last, not_true, not_false_iff, ne_eq, and_true, and_false, true_and,
      true_or, or_true, false_or, if_true, if_false]
  -- All three have elements.
  constructor
  · rintro ⟨rfl, rfl⟩
    exact ⟨rfl, rfl⟩
  · rintro ⟨rfl, rfl⟩
    exact ⟨rfl, rfl⟩

theorem joinType_assoc :
    joinType (joinType type elements other others) (elements ++ others) third more =
      joinType type elements (joinType other others third more) (others ++ more) := by
  simp only [joinType, Array.append_eq_empty_iff]
  by_cases first : elements = #[] <;> by_cases second : others = #[] <;> by_cases last : more = #[] <;>
    simp [first, second, last]

end Body

namespace Heap

/-- The result is a new body. What there was before is as it was, and nothing of it leads to the
result. -/
structure Grows (heap after : Heap) (result : Value) (body : Body) : Prop where
  body : after.body? result = some body
  fresh : ¬ heap.Has result
  apart : ∀ value, heap.Has value → ¬ after.Reaches value result
  kept : ∀ value, heap.Has value → after.body? value = heap.body? value

variable {heap after : Heap} {value array element first second third : Value} {body grown : Body}
  {answer : Value × Heap}

theorem grows_allocate (closed : heap.Closed) (body : Body) :
    heap.Grows (heap.allocate body).2 (heap.allocate body).1 body where
  body := heap.body?_allocate body
  fresh := heap.not_has_allocate body
  apart := fun _ has reaches => heap.not_has_allocate body
    (closed.has_of_reaches (heap.extends_allocate body) has reaches)
  kept := (heap.extends_allocate body).bodies

theorem concatenated_eq_ok_iff : heap.concatenated first second = .ok answer ↔
    ∃ type elements other others, heap.body? first = some ⟨type, .array elements⟩ ∧
      heap.body? second = some ⟨other, .array others⟩ ∧ Body.Joins type elements other others ∧
      answer = heap.allocate
        ⟨Body.joinType type elements other others, .array (elements ++ others)⟩ := by
  unfold concatenated concatenatedBody
  constructor
  · intro done
    obtain ⟨grown, made, done⟩ := exists_of_bind_eq_ok done
    obtain ⟨others, listed, made⟩ := exists_of_bind_eq_ok made
    obtain ⟨_, typed, made⟩ := exists_of_bind_eq_ok made
    obtain ⟨⟨own, data⟩, held, made⟩ := exists_of_bind_eq_ok made
    obtain ⟨other, source⟩ := elements_eq_ok_iff.mp listed
    obtain rfl := Option.some.inj ((type?_of_body? source).symm.trans (typeOf_eq_ok_iff.mp typed))
    cases data with
    | scalar payload => cases made
    | array elements =>
        obtain ⟨joins, rfl⟩ := Body.concatenate_eq_ok_iff.mp made
        cases done
        exact ⟨own, elements, other, others, get_eq_ok_iff.mp held, source, joins, rfl⟩
  · rintro ⟨type, elements, other, others, found, source, joins, rfl⟩
    have grows := Body.concatenate_eq_ok_iff.mpr ⟨joins, rfl⟩
    rw [elements_eq_ok_iff.mpr ⟨other, source⟩, typeOf_eq_ok_iff.mpr (type?_of_body? source),
      get_eq_ok_iff.mpr found]
    simp only [bind, Except.bind, grows, pure, Except.pure]

theorem exists_concatenated_iff : (∃ answer, heap.concatenated first second = .ok answer) ↔
    ∃ type elements other others, heap.body? first = some ⟨type, .array elements⟩ ∧
      heap.body? second = some ⟨other, .array others⟩ ∧ Body.Joins type elements other others := by
  simp only [concatenated_eq_ok_iff]
  constructor
  · rintro ⟨answer, type, elements, other, others, found, source, joins, -⟩
    exact ⟨type, elements, other, others, found, source, joins⟩
  · rintro ⟨type, elements, other, others, found, source, joins⟩
    exact ⟨_, type, elements, other, others, found, source, joins, rfl⟩

theorem grows_concatenated {type other : Ty} {elements others : Array Value} (closed : heap.Closed)
    (found : heap.body? first = some ⟨type, .array elements⟩)
    (source : heap.body? second = some ⟨other, .array others⟩)
    (done : heap.concatenated first second = .ok answer) :
    heap.Grows answer.2 answer.1
      ⟨Body.joinType type elements other others, .array (elements ++ others)⟩ := by
  obtain ⟨_, _, _, _, held, given, -, rfl⟩ := concatenated_eq_ok_iff.mp done
  cases found.symm.trans held
  cases source.symm.trans given
  exact grows_allocate closed _

theorem appended_eq_ok_iff : heap.appended array element = .ok answer ↔
    ∃ type elements found, heap.body? array = some ⟨type, .array elements⟩ ∧
      heap.type? element = some found ∧ (elements = #[] ∨ type.element? = some found) ∧
      answer = heap.allocate
        ⟨if elements = #[] then .array found else type, .array (elements.push element)⟩ := by
  unfold appended appendedBody
  constructor
  · intro done
    obtain ⟨grown, made, done⟩ := exists_of_bind_eq_ok done
    obtain ⟨found, typed, made⟩ := exists_of_bind_eq_ok made
    obtain ⟨⟨own, data⟩, held, made⟩ := exists_of_bind_eq_ok made
    cases data with
    | scalar payload => cases made
    | array elements =>
        obtain ⟨fits, rfl⟩ := Body.append_eq_ok_iff.mp made
        cases done
        exact ⟨own, elements, found, get_eq_ok_iff.mp held, typeOf_eq_ok_iff.mp typed, fits, rfl⟩
  · rintro ⟨type, elements, found, held, typed, fits, rfl⟩
    have grows := (@Body.append_eq_ok_iff type found elements element _).mpr ⟨fits, rfl⟩
    rw [typeOf_eq_ok_iff.mpr typed, get_eq_ok_iff.mpr held]
    simp only [bind, Except.bind, grows, pure, Except.pure]

theorem exists_appended_iff : (∃ answer, heap.appended array element = .ok answer) ↔
    ∃ type elements found, heap.body? array = some ⟨type, .array elements⟩ ∧
      heap.type? element = some found ∧ (elements = #[] ∨ type.element? = some found) := by
  simp only [appended_eq_ok_iff]
  constructor
  · rintro ⟨answer, type, elements, found, held, typed, fits, -⟩
    exact ⟨type, elements, found, held, typed, fits⟩
  · rintro ⟨type, elements, found, held, typed, fits⟩
    exact ⟨_, type, elements, found, held, typed, fits, rfl⟩

theorem grows_appended {type found : Ty} {elements : Array Value} (closed : heap.Closed)
    (held : heap.body? array = some ⟨type, .array elements⟩) (typed : heap.type? element = some found)
    (done : heap.appended array element = .ok answer) :
    heap.Grows answer.2 answer.1
      ⟨if elements = #[] then .array found else type, .array (elements.push element)⟩ := by
  obtain ⟨_, _, _, own, given, -, rfl⟩ := appended_eq_ok_iff.mp done
  cases held.symm.trans own
  cases typed.symm.trans given
  exact grows_allocate closed _

/-! Three arrays in a row. -/

/-- The new value of a result has the body. -/
def Makes (answer : Except ValueError (Value × Heap)) (body : Body) : Prop :=
  ∃ made, answer = .ok made ∧ made.2.body? made.1 = some body

theorem makes_concatenated_iff : Makes (heap.concatenated first second) body ↔
    ∃ type elements other others, heap.body? first = some ⟨type, .array elements⟩ ∧
      heap.body? second = some ⟨other, .array others⟩ ∧ Body.Joins type elements other others ∧
      body = ⟨Body.joinType type elements other others, .array (elements ++ others)⟩ := by
  constructor
  · rintro ⟨made, done, held⟩
    obtain ⟨type, elements, other, others, found, source, joins, rfl⟩ :=
      concatenated_eq_ok_iff.mp done
    rw [body?_allocate] at held
    exact ⟨type, elements, other, others, found, source, joins, (Option.some.inj held).symm⟩
  · rintro ⟨type, elements, other, others, found, source, joins, rfl⟩
    exact ⟨_, concatenated_eq_ok_iff.mpr ⟨type, elements, other, others, found, source, joins, rfl⟩,
      heap.body?_allocate _⟩

theorem makes_left_iff (has : heap.Has third) :
    Makes (heap.concatenated first second >>= fun made => made.2.concatenated made.1 third) body ↔
      ∃ type elements other others last more, heap.body? first = some ⟨type, .array elements⟩ ∧
        heap.body? second = some ⟨other, .array others⟩ ∧
        heap.body? third = some ⟨last, .array more⟩ ∧
        (Body.Joins type elements other others ∧
          Body.Joins (Body.joinType type elements other others) (elements ++ others) last more) ∧
        body = ⟨Body.joinType (Body.joinType type elements other others) (elements ++ others) last
          more, .array (elements ++ others ++ more)⟩ := by
  constructor
  · rintro ⟨answer, done, held⟩
    obtain ⟨made, early, late⟩ := exists_of_bind_eq_ok done
    obtain ⟨type, elements, other, others, found, source, joins, rfl⟩ :=
      concatenated_eq_ok_iff.mp early
    obtain ⟨_, _, last, more, both, rest, further, same⟩ :=
      makes_concatenated_iff.mp ⟨answer, late, held⟩
    rw [body?_allocate] at both
    rw [(heap.extends_allocate _).bodies third has] at rest
    cases both
    exact ⟨type, elements, other, others, last, more, found, source, rest, ⟨joins, further⟩, same⟩
  · rintro ⟨type, elements, other, others, last, more, found, source, rest, ⟨joins, further⟩, same⟩
    have early := concatenated_eq_ok_iff.mpr ⟨type, elements, other, others, found, source, joins, rfl⟩
    rw [early]
    refine makes_concatenated_iff.mpr
      ⟨_, _, last, more, body?_allocate _ _, ?_, further, same⟩
    rw [(heap.extends_allocate _).bodies third has, rest]

theorem makes_right_iff (has : heap.Has first) :
    Makes (heap.concatenated second third >>= fun made => made.2.concatenated first made.1) body ↔
      ∃ type elements other others last more, heap.body? first = some ⟨type, .array elements⟩ ∧
        heap.body? second = some ⟨other, .array others⟩ ∧
        heap.body? third = some ⟨last, .array more⟩ ∧
        (Body.Joins other others last more ∧
          Body.Joins type elements (Body.joinType other others last more) (others ++ more)) ∧
        body = ⟨Body.joinType type elements (Body.joinType other others last more) (others ++ more),
          .array (elements ++ (others ++ more))⟩ := by
  constructor
  · rintro ⟨answer, done, held⟩
    obtain ⟨made, early, late⟩ := exists_of_bind_eq_ok done
    obtain ⟨other, others, last, more, source, rest, joins, rfl⟩ :=
      concatenated_eq_ok_iff.mp early
    obtain ⟨type, elements, _, _, found, both, further, same⟩ :=
      makes_concatenated_iff.mp ⟨answer, late, held⟩
    rw [body?_allocate] at both
    rw [(heap.extends_allocate _).bodies first has] at found
    cases both
    exact ⟨type, elements, other, others, last, more, found, source, rest, ⟨joins, further⟩, same⟩
  · rintro ⟨type, elements, other, others, last, more, found, source, rest, ⟨joins, further⟩, same⟩
    have early := concatenated_eq_ok_iff.mpr ⟨other, others, last, more, source, rest, joins, rfl⟩
    rw [early]
    refine makes_concatenated_iff.mpr
      ⟨type, elements, _, _, ?_, body?_allocate _ _, further, same⟩
    rw [(heap.extends_allocate _).bodies first has, found]

/-- Of three arrays in a row it makes no difference which two are put together first. -/
theorem makes_assoc (left : heap.Has first) (right : heap.Has third) :
    Makes (heap.concatenated first second >>= fun made => made.2.concatenated made.1 third) body ↔
      Makes (heap.concatenated second third >>= fun made => made.2.concatenated first made.1) body := by
  rw [makes_left_iff right, makes_right_iff left]
  simp only [Body.joins_assoc, Body.joinType_assoc, Array.append_assoc]

theorem exists_makes (done : heap.concatenated first second = .ok answer) :
    ∃ body, answer.2.body? answer.1 = some body := by
  obtain ⟨type, elements, other, others, _, _, _, rfl⟩ := concatenated_eq_ok_iff.mp done
  exact ⟨_, body?_allocate _ _⟩

/-- What succeeds makes a body, if its last part does. -/
theorem exists_bind_iff {early : Except ValueError (Value × Heap)}
    {late : Value × Heap → Except ValueError (Value × Heap)}
    (makes : ∀ made answer, late made = .ok answer → ∃ body, answer.2.body? answer.1 = some body) :
    (∃ answer, early >>= late = .ok answer) ↔ ∃ body, Makes (early >>= late) body := by
  constructor
  · rintro ⟨answer, done⟩
    obtain ⟨made, _, last⟩ := exists_of_bind_eq_ok done
    obtain ⟨body, held⟩ := makes made answer last
    exact ⟨body, answer, done, held⟩
  · rintro ⟨_, answer, done, _⟩
    exact ⟨answer, done⟩

/-! Growing in place. -/

theorem allocate_fst (heap : Heap) (body : Body) : (heap.allocate body).1 = some ⟨heap.size⟩ := rfl

theorem write_allocate (heap : Heap) (body grown : Body) :
    (heap.allocate body).2.write ⟨heap.size⟩ grown = (heap.allocate grown).2 := by
  simp only [allocate, write, size]
  congr 1
  apply Array.ext
  · simp
  · intro index left right
    simp only [Array.size_push] at right
    by_cases last : index = heap.bodies.size
    · subst last
      simp
    · have inside : index < heap.bodies.size := by omega
      rw [Array.getElem_setIfInBounds_ne (by simpa using right) (Ne.symm last),
        Array.getElem_push_lt inside, Array.getElem_push_lt inside]

/-- A second handle on a body gets a body of its own. -/
theorem uniquify_of_mem {roots : List Value} (inside : array ∈ roots) :
    heap.uniquify (array :: roots) array = heap.copy array := by
  cases array with
  | none => rfl
  | some id =>
      have shared : heap.isShared (some id :: roots) (some id) = true := by
        have counted : 0 < roots.count (some id) := List.count_pos_iff.mpr inside
        rw [isShared, decide_eq_true_iff, referenceCount_eq, List.count_cons_self]
        omega
      rw [uniquify, if_pos shared]

theorem copy_of_body? (found : heap.body? array = some body) : heap.copy array = heap.allocate body := by
  rw [copy, found]

theorem copy_of_missing (missing : heap.body? array = none) : heap.copy array = (none, heap) := by
  rw [copy, missing]

theorem Closed.founded_of_extends (closed : heap.Closed) (extended : heap.Extends after)
    (has : heap.Has value) (founded : after.Founded value) : heap.Founded value := by
  induction founded with
  | intro _ _ hypothesis =>
      refine .intro has fun child holds => ?_
      obtain ⟨body, found, inside⟩ := holds
      exact hypothesis child ⟨body, (extended.bodies _ has).trans found, inside⟩
        (closed _ child ⟨body, found, inside⟩)

/-- The new array is looked for in all of the element, since it is not there. -/
theorem appendedEnds_iff (closed : heap.Closed) (has : heap.Has array) (given : heap.Has element) :
    heap.AppendedEnds array element ↔ array = none ∨ heap.Founded element := by
  have extended := heap.extends_copy array
  cases array with
  | none => exact iff_of_true nofun (.inl rfl)
  | some id =>
      obtain ⟨body, found⟩ := exists_body? has
      rw [or_iff_right (Option.some_ne_none id)]
      rw [AppendedEnds, copy_of_body? found] at *
      refine (settles_iff_founded fun held leads => ?_).trans
        ⟨closed.founded_of_extends extended given, extended.founded⟩
      exact (closed.has_of_reaches extended given leads).mono extended.size

theorem appends_iff (closed : heap.Closed) :
    (heap.AppendedEnds array element ∧ ∃ answer, heap.appended array element = .ok answer) ↔
      ∃ type elements found, heap.body? array = some ⟨type, .array elements⟩ ∧
        heap.type? element = some found ∧ (elements = #[] ∨ type.element? = some found) ∧
        heap.Founded element := by
  rw [exists_appended_iff]
  constructor
  · rintro ⟨ends, type, elements, found, held, typed, fits⟩
    refine ⟨type, elements, found, held, typed, fits, ?_⟩
    obtain ⟨_, source, _⟩ := exists_of_type? typed
    rcases (appendedEnds_iff closed (.of_body? held) (.of_body? source)).mp ends with rfl | founded
    · cases held
    · exact founded
  · rintro ⟨type, elements, found, held, typed, fits, founded⟩
    exact ⟨(appendedEnds_iff closed (.of_body? held) founded.has).mpr (.inr founded),
      type, elements, found, held, typed, fits⟩

/-- A new array with the elements of both is a second handle on the first one, made unique and grown in
place. -/
theorem concatenated_eq_concatenate {roots : List Value} (inside : first ∈ roots)
    (has : heap.Has second) :
    heap.concatenated first second =
      ((heap.uniquify (first :: roots) first).2.concatenate (heap.uniquify (first :: roots) first).1
        second).map ((heap.uniquify (first :: roots) first).1, ·) := by
  rw [uniquify_of_mem inside, concatenated, concatenatedBody]
  cases found : heap.body? first with
  | none =>
      have failed : heap.get first = .error .empty := by rw [get, found]
      rw [copy_of_missing found, concatenate, failed]
      cases heap.elements second with
      | error cause => rfl
      | ok others => cases heap.typeOf second <;> rfl
  | some body =>
      have same := (heap.extends_allocate body).bodies second has
      have listed : (heap.allocate body).2.elements second = heap.elements second := by
        rw [elements, elements, get, get, same]
      have typed : (heap.allocate body).2.typeOf second = heap.typeOf second := by
        rw [typeOf, typeOf, get, get, same]
      rw [copy_of_body? found, concatenate, listed, typed, get_eq_ok_iff.mpr found,
        get_eq_ok_iff.mpr (heap.body?_allocate body)]
      cases heap.elements second with
      | error cause => rfl
      | ok others =>
          cases heap.typeOf second with
          | error cause => rfl
          | ok other =>
              simp only [allocate_fst, bind, Except.bind, pure, Except.pure]
              cases body.concatenate other others with
              | error cause => rfl
              | ok grown =>
                  simp only [Except.map, write_allocate]
                  rfl

/-- A new array with the element added is a second handle on the array, made unique and grown in
place. -/
theorem appended_eq_append {roots : List Value} (inside : array ∈ roots)
    (closed : heap.Closed) (has : heap.Has element) :
    heap.appended array element =
      ((heap.uniquify (array :: roots) array).2.append (heap.uniquify (array :: roots) array).1
        element).map ((heap.uniquify (array :: roots) array).1, ·) := by
  rw [uniquify_of_mem inside, appended, appendedBody]
  cases found : heap.body? array with
  | none =>
      have failed : heap.get array = .error .empty := by rw [get, found]
      rw [copy_of_missing found, append, failed]
      cases heap.typeOf element <;> rfl
  | some body =>
      have same := (heap.extends_allocate body).bodies element has
      have typed : (heap.allocate body).2.typeOf element = heap.typeOf element := by
        rw [typeOf, typeOf, get, get, same]
      -- What is added was there before the copy and does not lead to it.
      have away : ¬ (heap.allocate body).2.reaches element ⟨heap.size⟩ := by
        rw [reaches_iff]
        exact (grows_allocate closed body).apart element has
      have own := get_eq_ok_iff.mpr (heap.body?_allocate body)
      rw [copy_of_body? found, append, typed, get_eq_ok_iff.mpr found]
      cases heap.typeOf element with
      | error cause => rfl
      | ok found =>
          simp only [allocate_fst, bind, Except.bind, pure, Except.pure, if_neg away] at own ⊢
          rw [own]
          dsimp only
          cases body.append found element with
          | error cause => rfl
          | ok grown =>
              simp only [Except.map, write_allocate]
              rfl

/-! Machines. -/

/-- Neither instruction changes a body, whether it has a result or fails. -/
theorem keepsHeap_execute {instruction : Instruction}
    (grows : instruction = .append ∨ instruction = .concatenate) (natives : Natives)
    (thread : ThreadId) (frame : FrameId) :
    Action.KeepsHeap heap.Extends (Action.execute natives thread frame instruction) := by
  have allocating (body : Body) : Action.KeepsHeap heap.Extends (Action.allocate body) :=
    Action.keeps_changeHeap fun middle extended => extended.trans (middle.extends_allocate body)
  rcases grows with rfl | rfl
  · unfold Action.execute
    infer_instance
  · unfold Action.execute
    infer_instance

/-- Growth into a new array is appending lists, and nothing of it is seen by what there was before. Two
arrays can be put together if one is empty or their types agree. An array takes an element if it is
empty or the element has its element type, and if the element holds nothing that holds itself: else the
search for the new array in the element never comes to an end. The result is a new body with aliases of
all elements, under the type of the first operand that has any, and no earlier value leads to it. It is
what a second handle on the first operand becomes that is made unique and then grows in place. Whether
the instructions for it succeed or fail, all bodies stay as they are. Of three arrays it makes no
difference which two are put together first. -/
theorem growth_appends (closed : heap.Closed) :
    (∀ first second,
      ((∃ answer, heap.concatenated first second = .ok answer) ↔
        ∃ type elements other others, heap.body? first = some ⟨type, .array elements⟩ ∧
          heap.body? second = some ⟨other, .array others⟩ ∧
          (elements = #[] ∨ others = #[] ∨ type = other)) ∧
      ∀ type elements other others result after, heap.body? first = some ⟨type, .array elements⟩ →
        heap.body? second = some ⟨other, .array others⟩ →
        heap.concatenated first second = .ok (result, after) →
        heap.Grows after result ⟨if elements = #[] ∧ others ≠ #[] then other else type,
          .array (elements ++ others)⟩) ∧
    (∀ array element, heap.Has array → heap.Has element →
      (heap.AppendedEnds array element ↔ array = none ∨ heap.Founded element)) ∧
    (∀ array element,
      (heap.AppendedEnds array element ∧ (∃ answer, heap.appended array element = .ok answer) ↔
        ∃ type elements found, heap.body? array = some ⟨type, .array elements⟩ ∧
          heap.type? element = some found ∧ (elements = #[] ∨ type.element? = some found) ∧
          heap.Founded element) ∧
      ∀ type elements found result after, heap.body? array = some ⟨type, .array elements⟩ →
        heap.type? element = some found → heap.appended array element = .ok (result, after) →
        heap.Grows after result ⟨if elements = #[] then .array found else type,
          .array (elements.push element)⟩) ∧
    (∀ roots, ∀ array ∈ roots, ∀ other, heap.Has other →
      heap.concatenated array other =
        ((heap.uniquify (array :: roots) array).2.concatenate
          (heap.uniquify (array :: roots) array).1 other).map
            ((heap.uniquify (array :: roots) array).1, ·) ∧
      heap.appended array other =
        ((heap.uniquify (array :: roots) array).2.append
          (heap.uniquify (array :: roots) array).1 other).map
            ((heap.uniquify (array :: roots) array).1, ·)) ∧
    (∀ natives thread frame,
      Action.KeepsHeap heap.Extends (Action.execute natives thread frame .append) ∧
      Action.KeepsHeap heap.Extends (Action.execute natives thread frame .concatenate)) ∧
    ∀ first second third, heap.Has first → heap.Has third →
      let left := heap.concatenated first second >>= fun made => made.2.concatenated made.1 third
      let right := heap.concatenated second third >>= fun made => made.2.concatenated first made.1
      ((∃ answer, left = .ok answer) ↔ ∃ answer, right = .ok answer) ∧
        ∀ one other, left = .ok one → right = .ok other →
          one.2.body? one.1 = other.2.body? other.1 := by
  refine ⟨fun first second => ⟨exists_concatenated_iff, ?_⟩,
    fun array element has given => appendedEnds_iff closed has given,
    fun array element => ⟨appends_iff closed, ?_⟩, ?_, ?_, ?_⟩
  · exact fun _ _ _ _ _ _ found source done => grows_concatenated closed found source done
  · exact fun _ _ _ _ _ held typed done => grows_appended closed held typed done
  · exact fun roots array inside other has =>
      ⟨concatenated_eq_concatenate inside has, appended_eq_append inside closed has⟩
  · exact fun natives thread frame => ⟨keepsHeap_execute (.inl rfl) natives thread frame,
      keepsHeap_execute (.inr rfl) natives thread frame⟩
  · intro first second third one other left right
    have assoc (body : Body) : Makes left body ↔ Makes right body := makes_assoc one other
    have makes : (∃ answer, left = .ok answer) ↔ ∃ body, Makes left body :=
      exists_bind_iff fun _ _ => exists_makes
    have makes' : (∃ answer, right = .ok answer) ↔ ∃ body, Makes right body :=
      exists_bind_iff fun _ _ => exists_makes
    refine ⟨by rw [makes, makes', exists_congr assoc], fun one other done ended => ?_⟩
    obtain ⟨body, answer, given, held⟩ := makes.mp ⟨one, done⟩
    cases done.symm.trans given
    obtain ⟨answer, also, same⟩ := (assoc body).mp ⟨one, done, held⟩
    cases ended.symm.trans also
    rw [held, same]

/-- An array in another one, put together with itself and with its element. -/
theorem growth_appends_nested : nested.Holds (some ⟨2⟩) (some ⟨1⟩) ∧
    (∃ result after, nested.concatenated (some ⟨1⟩) (some ⟨1⟩) = .ok (result, after) ∧
      after.body? result = some ⟨.array .boolean, .array #[some ⟨0⟩, some ⟨0⟩]⟩ ∧
      ¬ after.Reaches (some ⟨2⟩) result ∧
      after.body? (some ⟨1⟩) = some ⟨.array .boolean, .array #[some ⟨0⟩]⟩) ∧
    nested.AppendedEnds (some ⟨1⟩) (some ⟨0⟩) ∧
    ∃ answer, nested.appended (some ⟨1⟩) (some ⟨0⟩) = .ok answer := by
  have sound : nested.Sound := (made_build _ .empty sound_empty).sound
  have found : nested.body? (some ⟨1⟩) = some ⟨.array .boolean, .array #[some ⟨0⟩]⟩ := rfl
  have inner : nested.Has (some ⟨0⟩) := has_some_iff.mpr (by decide)
  have outer : nested.Has (some ⟨2⟩) := has_some_iff.mpr (by decide)
  have holds : nested.Holds (some ⟨2⟩) (some ⟨1⟩) :=
    ⟨⟨.array (.array .boolean), .array #[some ⟨1⟩]⟩, rfl, #[some ⟨1⟩], rfl, by simp⟩
  obtain ⟨together, _, adding, _⟩ := growth_appends sound.closed
  obtain ⟨succeeds, becomes⟩ := together (some ⟨1⟩) (some ⟨1⟩)
  obtain ⟨⟨result, after⟩, done⟩ := succeeds.mpr ⟨_, _, _, _, found, found, .inr (.inr rfl)⟩
  have grows := becomes _ _ _ _ result after found found done
  have added := (adding (some ⟨1⟩) (some ⟨0⟩)).1.mpr
    ⟨_, _, .boolean, found, rfl, .inr rfl, sound _ inner⟩
  exact ⟨holds, ⟨result, after, done, grows.body, grows.apart _ outer,
    (grows.kept _ (.of_body? found)).trans found⟩, added⟩

/-! An empty string that holds itself, and an empty array to which it would be added. -/

def entangled : Registers :=
  (Registers.empty 3).run (Registers.entangling ++ [.makeArray 2 (.array .string) []])

/-- The element fits the array, but the search for the new body in it answers at no depth. -/
theorem never_appends_entangled :
    entangled.heap.body? (entangled.get 2) = some ⟨.array .string, .array #[]⟩ ∧
      entangled.heap.type? (entangled.get 0) = some (.array .string) ∧
      (entangled.heap.copy (entangled.get 2)).1 = some ⟨3⟩ ∧
      ∀ depth, (entangled.heap.copy (entangled.get 2)).2.seekWithin ⟨3⟩ depth (entangled.get 0) = none := by
  refine ⟨rfl, rfl, rfl, fun depth => ?_⟩
  induction depth with
  | zero => rfl
  | succ depth hypothesis =>
      -- The only element is the string itself.
      change List.anyM _ [entangled.get 0] = none
      rw [List.anyM, hypothesis]
      rfl

end Heap

end CoopScript
