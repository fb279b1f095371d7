import CoopScript.Proofs.Heap.Replacement

/-!
Paths into a value that own what they lead to: nothing else in the value leads there. A change of a
body that a path owns shows in the value at that path and nowhere else. Handles for writing extend
such paths, whatever bodies were shared before.
-/

namespace CoopScript

/-- The tree with another one in place of the one that a path of positions leads to. -/
def Datum.replace? (datum : Datum) (path : List Nat) (new : Datum) : Option Datum :=
  match path, datum with
  | [], _ => some new
  | index :: path, .array type elements => do
    let element ← elements[index]?
    return .array type (elements.set index (← element.replace? path new))
  | _ :: _, _ => none

namespace Heap

/-- The path leads from the value to the target, and no element beside the path does. -/
inductive Sole (heap : Heap) (target : Value) : Value → List Nat → Prop
  | here : heap.Sole target target []
  | there {value element : Value} {type : Ty} {elements : Array Value} {index : Nat}
      {path : List Nat} : heap.body? value = some ⟨type, .array elements⟩ →
      elements[index]? = some element →
      (∀ place sibling, elements[place]? = some sibling → place ≠ index →
        ¬ heap.Reaches sibling target) →
      heap.Sole target element path → heap.Sole target value (index :: path)

variable {heap after : Heap} {value target new : Value} {path : List Nat} {id : BodyId}
  {type : Ty} {elements : Array Value} {index : Nat} {datum : Datum}

theorem Holds.of_getElem? (found : heap.body? value = some ⟨type, .array elements⟩)
    (there : elements[index]? = some new) : heap.Holds value new :=
  .of_body? found ⟨elements, rfl, Array.mem_of_getElem? there⟩

/-- When the tree of only one element changes, the trees change at that position. -/
theorem map_view_set {before later : Value → Datum} (there : elements[index]? = some new)
    (others : ∀ place sibling, elements[place]? = some sibling → place ≠ index →
      later sibling = before sibling) :
    (elements.toList.map before).set index (later new) = elements.toList.map later := by
  apply List.ext_getElem?
  intro place
  rw [List.getElem?_set, List.getElem?_map, List.getElem?_map, Array.getElem?_toList]
  split
  · next same =>
      subst same
      obtain ⟨inRange, _⟩ := Array.getElem?_eq_some_iff.mp there
      rw [there, List.length_map, Array.length_toList, if_pos inRange, Option.map_some]
  · next beside =>
      cases sibling : elements[place]? with
      | none => rfl
      | some other =>
          rw [Option.map_some, Option.map_some, others place other sibling (Ne.symm beside)]

namespace Sole

theorem reaches (sole : heap.Sole target value path) : heap.Reaches value target := by
  induction sole with
  | here => exact .refl
  | there found there _ _ hypothesis => exact hypothesis.head (.of_getElem? found there)

theorem extend (extended : heap.Extends after) (founded : heap.Founded value)
    (sole : heap.Sole target value path) : after.Sole target value path := by
  induction sole with
  | here => exact .here
  | @there value element type elements index path found there apart _ hypothesis =>
      have same := (extended.bodies value founded.has).trans found
      refine .there same there ?_ (hypothesis (founded.element (.of_getElem? found there)))
      intro place sibling beside different reaches
      have spares := extended.spares (founded.element (.of_getElem? found beside))
      exact apart place sibling beside different (spares.reaches_iff.mp reaches)

/-- What leads to a body stays as it is when the body is replaced. -/
theorem replaced (sound : heap.Sound) (has : heap.Has value)
    (replaces : heap.Replaces after id datum) (sole : heap.Sole (some id) value path) :
    after.Sole (some id) value path := by
  induction sole with
  | here => exact .here
  | @there value element type elements index path found there apart rest hypothesis =>
      have founded := sound value has
      have holds := Holds.of_getElem? found there
      have different : value ≠ some id := by
        intro same
        subst same
        exact founded.not_reaches holds rest.reaches
      refine .there ((replaces.others value has different).trans found) there ?_
        (hypothesis (founded.element holds).has)
      intro place sibling beside apartness reaches
      have known := (founded.element (.of_getElem? found beside)).has
      exact apart place sibling beside apartness (replaces.reaches_of_reaches sound known reaches)

/-- The tree of the value changes at the path. -/
theorem view_replaced (sound : heap.Sound) (has : heap.Has value)
    (replaces : heap.Replaces after id datum) (sole : heap.Sole (some id) value path) :
    (heap.view value).replace? path datum = some (after.view value) := by
  induction sole with
  | here =>
      rw [replaces.view]
      rfl
  | @there value element type elements index path found there apart rest hypothesis =>
      have founded := sound value has
      have holds := Holds.of_getElem? found there
      have different : value ≠ some id := by
        intro same
        subst same
        exact founded.not_reaches holds rest.reaches
      have kept := (replaces.others value has different).trans found
      have later := replaces.sound value (has.mono replaces.size)
      have inner := hypothesis (founded.element holds).has
      rw [founded.view_of_body? found, later.view_of_body? kept]
      simp only [Body.datum, Datum.replace?, List.getElem?_map, Array.getElem?_toList, there,
        Option.map_some, Option.bind_eq_bind, Option.bind_some, inner, Option.pure_def,
        Option.some.injEq, Datum.array.injEq, true_and]
      apply map_view_set there
      intro place sibling beside apartness
      have known := (founded.element (.of_getElem? found beside)).has
      have away := apart place sibling beside apartness
      exact (replaces.spares sound known away).view (sound sibling known)

end Sole

/-- What only one body holds is reached through that body alone. -/
theorem not_reaches_of_single (away : ¬ heap.Reaches value (some id)) (different : value ≠ new)
    (single : ∀ holder, heap.Reaches value holder → heap.Holds holder new → holder = some id) :
    ¬ heap.Reaches value new := by
  intro reaches
  rcases reaches.cases_tail with same | ⟨holder, leads, holds⟩
  · exact different same.symm
  · have only := single holder leads holds
    subst only
    exact away leads

/-- A path that owns an array goes on to an element that this array alone holds, and only once. -/
theorem Sole.snoc (founded : heap.Founded value) (sole : heap.Sole (some id) value path)
    (found : heap.body? (some id) = some ⟨type, .array elements⟩)
    (there : elements[index]? = some new)
    (once : ∀ place, elements[place]? = some new → place = index)
    (single : ∀ holder, heap.Reaches value holder → heap.Holds holder new → holder = some id) :
    heap.Sole new value (path ++ [index]) := by
  induction sole with
  | here =>
      refine .there found there ?_ .here
      intro place sibling beside different
      have holds := Holds.of_getElem? found beside
      apply not_reaches_of_single (founded.not_reaches holds)
      · intro same
        subst same
        exact different (once place beside)
      · intro holder reaches
        exact single holder (reaches.head holds)
  | @there value element _ elements _ path found' there' apart rest hypothesis =>
      have holds := Holds.of_getElem? found' there'
      refine .there found' there' ?_ (hypothesis (founded.element holds) ?_)
      · intro place sibling beside different
        have held := Holds.of_getElem? found' beside
        apply not_reaches_of_single (apart place sibling beside different)
        · intro same
          subst same
          have only := single value .refl held
          subst only
          exact founded.not_reaches holds rest.reaches
        · intro holder reaches
          exact single holder (reaches.head held)
      · intro holder reaches
        exact single holder (reaches.head holds)

/-! Handles for writing. -/

/-- A path into the root owns a body that none of the other values leads to. -/
structure Owns (heap : Heap) (others : Set Value) (root : Value) (path : List Nat) (id : BodyId) :
    Prop where
  sound : heap.Sound
  has : heap.Has root
  sole : heap.Sole (some id) root path
  known : ∀ value ∈ others, heap.Has value
  away : ∀ value ∈ others, ¬ heap.Reaches value (some id)

variable {others : Set Value} {roots : List Value} {root shared element : Value}

theorem Owns.has_target (owns : heap.Owns others root path id) : heap.Has (some id) :=
  ((owns.sound root owns.has).reached owns.sole.reaches).has

/-- New bodies do not matter. -/
theorem Owns.extend (owns : heap.Owns others root path id) (extended : heap.Extends after)
    (sound : after.Sound) : after.Owns others root path id where
  sound := sound
  has := owns.has.mono extended.size
  sole := owns.sole.extend extended (owns.sound root owns.has)
  known := fun value inside => (owns.known value inside).mono extended.size
  away := by
    intro value inside reaches
    have spares := extended.spares (owns.sound value (owns.known value inside))
    exact owns.away value inside (spares.reaches_iff.mp reaches)

/-- A root that is made unique owns its body. -/
theorem owns_uniquify (sound : heap.Sound) (has : heap.Has shared) (own : shared ∈ roots)
    (known : ∀ value ∈ others, heap.Has value) (listed : ∀ value ∈ others, value ∈ roots)
    (twice : shared ≠ none → shared ∈ others → 2 ≤ roots.count shared)
    (made : heap.uniquify roots shared = (root, after)) :
    heap.Keeps after ∧ after.Has root ∧ after.view root = heap.view shared ∧
      ∀ id, root = some id → after.Owns others root [] id := by
  unfold uniquify at made
  split at made
  · next isShared =>
      cases shared with
      | none => cases isShared
      | some id =>
          obtain ⟨body, found⟩ := exists_body? has
          simp only [copy, found] at made
          cases made
          have extended := heap.extends_allocate body
          have sounder := sound.allocate (holds_known sound found)
          refine ⟨extended.keeps sound sounder, heap.has_allocate body, view_copy sound found, ?_⟩
          intro _ equal
          cases equal
          refine ⟨sounder, heap.has_allocate body, .here,
            fun value inside => (known value inside).mono extended.size, ?_⟩
          intro value inside reaches
          have founded := sound value (known value inside)
          have earlier := (extended.spares founded).reaches_iff.mp reaches
          exact heap.not_has_allocate body (founded.reached earlier).has
  · next unshared =>
      cases made
      refine ⟨.refl sound, has, rfl, ?_⟩
      intro id equal
      subst equal
      have unshared := Bool.not_eq_true _ ▸ unshared
      refine ⟨sound, has, .here, known, ?_⟩
      intro value inside reaches
      rcases reaches.cases_tail with same | ⟨holder, leads, holds⟩
      · have few := count_le_one unshared
        have more := twice nofun (same ▸ inside)
        omega
      · exact not_holds_of_root unshared own (listed value inside) leads holds

/-- An element that no other position shares is owned as it is. -/
theorem Owns.unshared (owns : heap.Owns others root path id)
    (found : heap.body? (some id) = some ⟨type, .array elements⟩) {own : BodyId}
    (there : elements[index]? = some (some own)) (top : root ∈ roots)
    (listed : ∀ value ∈ others, value ∈ roots)
    (unshared : heap.isShared (some id :: roots) (some own) = false) :
    heap.Owns others root (path ++ [index]) own := by
  have holds := Holds.of_getElem? found there
  have target : some id ∈ some id :: roots := List.mem_cons_self
  have single {value : Value} (inside : value ∈ roots) (holder : Value)
      (reaches : heap.Reaches value holder) (also : heap.Holds holder (some own)) :
      holder = some id :=
    holder_unique unshared target .refl holds (List.mem_cons_of_mem _ inside) reaches also
  refine ⟨owns.sound, owns.has, ?_, owns.known, ?_⟩
  · apply owns.sole.snoc (owns.sound root owns.has) found there
    · intro place also
      exact position_unique unshared target .refl found rfl also there
    · exact single top
  · intro value inside
    apply not_reaches_of_single (owns.away value inside)
    · intro same
      subst same
      exact not_mem_of_holds unshared target .refl holds
        (List.mem_cons_of_mem _ (listed _ inside))
    · exact single (listed value inside)

/-! Copies that take the place of elements. -/

/-- The heap with a new body of an element of an array. -/
def copyInto (heap : Heap) (id : BodyId) (index : Nat) (body : Body) : Heap :=
  (heap.allocate body).2.setElement (some id) index (heap.allocate body).1

section Copies

variable {body : Body} {holder : Value} (sound : heap.Sound)
  (found : heap.body? (some id) = some ⟨type, .array elements⟩)
  (there : elements[index]? = some element) (held : heap.body? element = some body)

include found

theorem size_copyInto : (heap.copyInto id index body).size = (heap.allocate body).2.size := by
  rw [copyInto, setElement_eq_write (body?_allocate_of_body? body found), size_write]

theorem body?_copyInto : (heap.copyInto id index body).body? (some id) =
    some ⟨type, .array (elements.setIfInBounds index (heap.allocate body).1)⟩ := by
  have array := body?_allocate_of_body? body found
  rw [copyInto, setElement_eq_write array]
  exact body?_write_self _ (lt_size_of_body? array)

include sound there held

/-- The copy holds what the element holds, which does not lead back to the array. -/
theorem not_reaches_copy : ¬ (heap.allocate body).2.Reaches (heap.allocate body).1 (some id) := by
  intro back
  rcases reaches_allocate sound (holds_known sound held) back with same | ⟨child, within, leads⟩
  · exact heap.not_has_allocate body (same ▸ .of_body? found)
  · have holds := Holds.of_getElem? found there
    exact (sound _ (.of_body? found)).not_reaches holds (leads.head (.of_body? held within))

/-- The array keeps its tree. -/
theorem replaces_copyInto : (heap.allocate body).2.Replaces (heap.copyInto id index body) id
    ((heap.allocate body).2.view (some id)) := by
  have sounder := sound.allocate (holds_known sound held)
  have array := body?_allocate_of_body? body found
  have element := (sound _ (.of_body? found)).element (.of_getElem? found there)
  have same : Datum.array type ((elements.setIfInBounds index (heap.allocate body).1).toList.map
      (heap.allocate body).2.view) = (heap.allocate body).2.view (some id) := by
    rw [(sounder _ (.of_body? array)).view_of_body? array]
    apply congrArg (Datum.array type)
    rw [Array.toList_setIfInBounds, List.map_set, view_copy sound held,
      ← (heap.extends_allocate body).view element]
    exact map_view_set there fun _ _ _ _ => rfl
  rw [← same]
  exact replaces_setElement sounder array (heap.has_allocate body)
    (not_reaches_copy sound found there held)

theorem keeps_copyInto : heap.Keeps (heap.copyInto id index body) := by
  have sounder := sound.allocate (holds_known sound held)
  have replaces := replaces_copyInto sound found there held
  exact ((heap.extends_allocate body).keeps sound sounder).trans (replaces.keeps sounder rfl)

/-- No older body can hold the copy, and the copy does not hold itself. -/
theorem holder_of_copy (holds : (heap.copyInto id index body).Holds holder (heap.allocate body).1) :
    holder = some id := by
  have fresh := heap.not_has_allocate body
  have replaces := replaces_copyInto sound found there held
  by_contra different
  obtain ⟨owner, owned, within⟩ := holds
  have has : (heap.allocate body).2.Has holder :=
    (Has.of_body? owned).mono (size_copyInto found).le
  rw [replaces.others holder has different] at owned
  rcases has_allocate_iff.mp has with old | rfl
  · rw [(heap.extends_allocate body).bodies holder old] at owned
    exact fresh (holds_known sound owned _ within)
  · rw [body?_allocate] at owned
    cases owned
    exact fresh (holds_known sound held _ within)

omit sound

/-- A copy that takes the place of an element is owned. -/
theorem Owns.copied (owns : heap.Owns others root path id) :
    (heap.copyInto id index body).Owns others root (path ++ [index]) ⟨heap.size⟩ := by
  have sound := owns.sound
  have fresh := heap.not_has_allocate body
  have sounder := sound.allocate (holds_known sound held)
  have grown := owns.extend (heap.extends_allocate body) sounder
  have replaces := replaces_copyInto sound found there held
  have keeps := keeps_copyInto sound found there held
  constructor
  case sound => exact replaces.sound
  case has => exact owns.has.mono keeps.size
  case sole =>
    apply (grown.sole.replaced sounder grown.has replaces).snoc
      (replaces.sound root (owns.has.mono keeps.size)) (body?_copyInto found)
    · obtain ⟨inRange, _⟩ := Array.getElem?_eq_some_iff.mp there
      exact Array.getElem?_setIfInBounds_self_of_lt inRange
    · intro place also
      by_contra different
      rw [Array.getElem?_setIfInBounds_ne (Ne.symm different)] at also
      exact fresh ((sound _ (.of_body? found)).element (.of_getElem? found also)).has
    · intro holder _
      exact holder_of_copy sound found there held
  case known =>
    intro value inside
    exact (owns.known value inside).mono keeps.size
  case away =>
    intro value inside
    apply not_reaches_of_single
    · intro reaches
      exact grown.away value inside
        (replaces.reaches_of_reaches sounder (grown.known value inside) reaches)
    · intro same
      subst same
      exact fresh (owns.known _ inside)
    · intro holder _
      exact holder_of_copy sound found there held

end Copies

/-- A handle on an element of an owned array, taken for writing, is owned as well. -/
theorem Owns.claim (owns : heap.Owns others root path id)
    (found : heap.body? (some id) = some ⟨type, .array elements⟩)
    (there : elements[index]? = some element) (top : root ∈ roots)
    (listed : ∀ value ∈ others, value ∈ roots)
    (claimed : heap.claim (some id :: roots) (some id) index element = (new, after)) :
    ∀ own, new = some own → after.Owns others root (path ++ [index]) own := by
  unfold Heap.claim at claimed
  split at claimed
  · next shared =>
      cases element with
      | none => cases shared
      | some own =>
          have holds := Holds.of_getElem? found there
          obtain ⟨body, held⟩ := exists_body? ((owns.sound _ (.of_body? found)).element holds).has
          simp only [copy, held] at claimed
          cases claimed
          intro _ equal
          cases equal
          exact owns.copied found there held
  · next unshared =>
      cases claimed
      intro own equal
      subst equal
      exact owns.unshared found there top listed (Bool.not_eq_true _ ▸ unshared)

/-- Taking an element for writing keeps all trees, whether the array is owned or not. -/
theorem keeps_claim (sound : heap.Sound)
    (found : heap.body? (some id) = some ⟨type, .array elements⟩)
    (there : elements[index]? = some element)
    (claimed : heap.claim roots (some id) index element = (new, after)) :
    heap.Keeps after ∧ after.Has new := by
  have known := ((sound _ (.of_body? found)).element (.of_getElem? found there)).has
  unfold Heap.claim at claimed
  split at claimed
  · next shared =>
      cases element with
      | none => cases shared
      | some own =>
          obtain ⟨body, held⟩ := exists_body? known
          simp only [copy, held] at claimed
          cases claimed
          refine ⟨keeps_copyInto sound found there held, ?_⟩
          exact (heap.has_allocate body).mono (size_copyInto found).ge
  · cases claimed
    exact ⟨.refl sound, known⟩

/-- Writing through an owned handle changes the tree of the root at the path, and no other tree. -/
theorem Owns.takeOver (owns : heap.Owns others root path id) {source : Value} {body : Body}
    (found : heap.body? source = some body) :
    (heap.view root).replace? path (heap.view source) =
        some ((heap.takeOver id source).view root) ∧
      ∀ value ∈ others, (heap.takeOver id source).view value = heap.view value := by
  have replaces := replaces_takeOver owns.sound owns.has_target found
  refine ⟨owns.sole.view_replaced owns.sound owns.has replaces, ?_⟩
  intro value inside
  have founded := owns.sound value (owns.known value inside)
  exact (replaces.spares owns.sound founded.has (owns.away value inside)).view founded

end Heap

end CoopScript
