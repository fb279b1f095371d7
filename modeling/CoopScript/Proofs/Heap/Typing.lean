import CoopScript.Proofs.Heap.Lodging
import CoopScript.Proofs.Heap.Ownership
import CoopScript.Value.Update

/-!
Types of the elements of arrays. A relation says which types fit an element type; with equality the
arrays of a heap are homogeneous. The operations keep such heaps, as long as what is written into an
element fits wherever the element stands.
-/

namespace CoopScript

/-- Two types that are the same, or both types of arrays. -/
def Ty.Alike (found expected : Ty) : Prop :=
  found = expected ∨ found.isArray = true ∧ expected.isArray = true

theorem Ty.Alike.refl (type : Ty) : type.Alike type := .inl rfl

section Typed

variable {fits looser : Ty → Ty → Prop}

/-- The type of a scalar is that of its payload. An array has the type of an array, and the types of
its elements fit. -/
def Body.Typed (fits : Ty → Ty → Prop) (type? : Value → Option Ty) : Body → Prop
  | ⟨type, .scalar payload⟩ => type = .scalar payload.kind
  | ⟨type, .array elements⟩ => ∃ expected, type = .array expected ∧
      ∀ element ∈ elements, ∃ found, type? element = some found ∧ fits found expected

/-- The same of all scalars and arrays in a tree. -/
inductive Datum.Typed (fits : Ty → Ty → Prop) : Datum → Prop
  | empty : Typed fits .empty
  | scalar {type : Ty} {payload : Scalar} : type = .scalar payload.kind →
      Typed fits (.scalar type payload)
  | array {expected : Ty} {elements : List Datum} : (∀ element ∈ elements, Typed fits element) →
      (∀ element ∈ elements, ∃ found, element.type? = some found ∧ fits found expected) →
      Typed fits (.array (.array expected) elements)

theorem Datum.Typed.weaken {datum : Datum} (typed : datum.Typed fits)
    (implied : ∀ found expected, fits found expected → looser found expected) :
    datum.Typed looser := by
  induction typed with
  | empty => exact .empty
  | scalar same => exact .scalar same
  | array _ types hypothesis =>
      refine .array hypothesis fun element inside => ?_
      obtain ⟨found, typed, fit⟩ := types element inside
      exact ⟨found, typed, implied found _ fit⟩

/-- A well-typed value of the type. -/
structure Datum.HasType (datum : Datum) (type : Ty) : Prop where
  typed : datum.Typed (· = ·)
  has : datum.type? = some type

namespace Datum.HasType

variable {datum : Datum} {kind : ScalarKind} {expected : Ty} {elements : List Datum}

theorem exists_scalar (typed : datum.HasType (.scalar kind)) :
    ∃ payload, datum = .scalar (.scalar kind) payload ∧ payload.kind = kind := by
  obtain ⟨typed, has⟩ := typed
  cases typed with
  | empty => cases has
  | array => cases has
  | scalar same =>
      cases same
      cases has
      exact ⟨_, rfl, rfl⟩

theorem exists_array (typed : datum.HasType (.array expected)) :
    ∃ elements, datum = .array (.array expected) elements ∧
      ∀ element ∈ elements, element.HasType expected := by
  obtain ⟨typed, has⟩ := typed
  cases typed with
  | empty => cases has
  | scalar same =>
      cases same
      cases has
  | array within types =>
      cases has
      refine ⟨_, rfl, fun element inside => ⟨within element inside, ?_⟩⟩
      obtain ⟨found, has, rfl⟩ := types element inside
      exact has

theorem scalar (payload : Scalar) :
    (Datum.scalar (.scalar payload.kind) payload).HasType (.scalar payload.kind) :=
  ⟨.scalar rfl, rfl⟩

theorem array (typed : ∀ element ∈ elements, element.HasType expected) :
    (Datum.array (.array expected) elements).HasType (.array expected) where
  typed := .array (fun element inside => (typed element inside).typed)
    fun element inside => ⟨expected, (typed element inside).has, rfl⟩
  has := rfl

end Datum.HasType

namespace Body.Typed

variable {body grown : Body} {type? other : Value → Option Ty} {element : Value} {found : Ty}

/-- Of the types of values only those of the elements matter. -/
theorem mono (typed : body.Typed fits type?)
    (kept : ∀ element found, body.Holds element → type? element = some found →
      other element = some found) : body.Typed fits other := by
  obtain ⟨type, data⟩ := body
  cases data with
  | scalar payload => exact typed
  | array elements =>
      obtain ⟨expected, same, types⟩ := typed
      refine ⟨expected, same, fun element inside => ?_⟩
      obtain ⟨found, had, fit⟩ := types element inside
      exact ⟨found, kept element found ⟨elements, rfl, inside⟩ had, fit⟩

theorem of_holds (typed : body.Typed fits type?) (holds : body.Holds element) :
    ∃ expected found, body.type = .array expected ∧ type? element = some found ∧
      fits found expected := by
  obtain ⟨type, data⟩ := body
  cases data with
  | scalar payload =>
      obtain ⟨elements, missing, _⟩ := holds
      cases missing
  | array elements =>
      obtain ⟨others, ⟨⟩, inside⟩ := holds
      obtain ⟨expected, same, types⟩ := typed
      obtain ⟨found, had, fit⟩ := types element inside
      exact ⟨expected, found, same, had, fit⟩

/-- An element with the type of the one whose place it takes. -/
theorem setElement {elements : Array Value} {type : Ty} {index : Nat} {old new : Value}
    (typed : Body.Typed fits type? ⟨type, .array elements⟩) (there : elements[index]? = some old)
    (same : type? new = type? old) :
    Body.Typed fits type? (Body.setElement ⟨type, .array elements⟩ index new) := by
  obtain ⟨expected, array, types⟩ := typed
  refine ⟨expected, array, fun element inside => ?_⟩
  rcases Array.mem_or_eq_of_mem_setIfInBounds inside with kept | rfl
  · exact types element kept
  · rw [same]
    exact types old (Array.mem_of_getElem? there)

theorem append (reflexive : ∀ type, fits type type) (typed : body.Typed fits type?)
    (had : type? element = some found) (done : body.append found element = .ok grown) :
    grown.Typed fits type? := by
  obtain ⟨type, data⟩ := body
  cases data with
  | scalar payload => cases done
  | array elements =>
      simp only [Body.append, Body.elements, bind, Except.bind, pure, Except.pure] at done
      split at done
      · cases done
        refine ⟨found, rfl, fun other inside => ?_⟩
        rw [List.mem_singleton.mp (List.mem_toArray.mp inside)]
        exact ⟨found, had, reflexive found⟩
      · split at done
        · next fitting =>
            cases done
            obtain ⟨expected, rfl, types⟩ := typed
            cases fitting
            refine ⟨found, rfl, fun other inside => ?_⟩
            rcases Array.mem_push.mp inside with kept | rfl
            · exact types other kept
            · exact ⟨found, had, reflexive found⟩
        · cases done

theorem concatenate {type : Ty} {incoming : Array Value} (typed : body.Typed fits type?)
    (source : Body.Typed fits type? ⟨type, .array incoming⟩)
    (done : body.concatenate type incoming = .ok grown) : grown.Typed fits type? := by
  obtain ⟨own, data⟩ := body
  cases data with
  | scalar payload => cases done
  | array elements =>
      simp only [Body.concatenate, Body.elements, bind, Except.bind, pure, Except.pure] at done
      split at done
      · cases done
        exact typed
      · split at done
        · cases done
          exact source
        · split at done
          · next same =>
              cases done
              cases same
              obtain ⟨expected, rfl, types⟩ := typed
              obtain ⟨_, ⟨⟩, others⟩ := source
              refine ⟨expected, rfl, fun other inside => ?_⟩
              rcases Array.mem_append.mp inside with kept | new
              · exact types other kept
              · exact others other new
          · cases done

end Body.Typed

end Typed

namespace Heap

/-- A sound heap all of whose bodies have the types of what they hold. -/
structure Homogeneous (fits : Ty → Ty → Prop) (heap : Heap) : Prop where
  sound : heap.Sound
  typed : ∀ value body, heap.body? value = some body → body.Typed fits heap.type?

/-- What is written over the target fits wherever the target does, or no array holds the target. -/
def Admits (fits : Ty → Ty → Prop) (heap : Heap) (target source : Value) : Prop :=
  (∀ holder, ¬ heap.Holds holder target) ∨
    ∀ old new expected, heap.type? target = some old → heap.type? source = some new →
      fits old expected → fits new expected

variable {fits : Ty → Ty → Prop} {heap after : Heap} {value target source element array : Value}
  {body : Body} {id : BodyId} {datum : Datum} {type : Ty} {index : Nat}

theorem type?_of_body? (found : heap.body? value = some body) : heap.type? value = some body.type := by
  rw [type?, found]
  rfl

theorem exists_of_type? (typed : heap.type? value = some type) :
    ∃ body, heap.body? value = some body ∧ body.type = type := Option.map_eq_some_iff.mp typed

theorem Has.of_type? (typed : heap.type? value = some type) : heap.Has value := by
  obtain ⟨body, found, _⟩ := exists_of_type? typed
  exact .of_body? found

theorem Extends.type? (extended : heap.Extends after) (typed : heap.type? value = some type) :
    after.type? value = some type := by
  rw [Heap.type?, extended.bodies value (.of_type? typed)]
  exact typed

theorem typeOf_eq_ok_iff : heap.typeOf value = .ok type ↔ heap.type? value = some type := by
  unfold typeOf Heap.type? get
  cases heap.body? value <;> simp [bind, Except.bind, pure, Except.pure]

theorem holds_of_body? {elements : Array Value} (found : heap.body? array = some ⟨type, .array elements⟩)
    (inside : element ∈ elements) : heap.Holds array element :=
  .of_body? found ⟨elements, rfl, inside⟩

theorem write_of_missing (missing : heap.body? (some id) = none) : heap.write id body = heap := by
  have outside : heap.bodies.size ≤ id.index := Array.getElem?_eq_none_iff.mp missing
  rw [Heap.write, Array.setIfInBounds_eq_of_size_le outside]

theorem type?_of_checkElements {elements : List Value}
    (checked : heap.checkElements type elements = .ok ()) (element : Value)
    (inside : element ∈ elements) : heap.type? element = some type := by
  obtain ⟨found, typed, compared⟩ := exists_of_bind_eq_ok (eq_ok_of_forM_eq_ok checked inside)
  split at compared
  · cases compared
  · next same => rw [typeOf_eq_ok_iff.mp typed, not_not.mp same]

/-- Elements have the types that they have in the tree of the array. -/
theorem Founded.fits_of_view (founded : heap.Founded value) (typed : (heap.view value).Typed fits)
    (holds : heap.Holds value element) : ∃ expected found,
      heap.type? value = some (.array expected) ∧ heap.type? element = some found ∧
        fits found expected := by
  obtain ⟨⟨type, data⟩, found, elements, array, inside⟩ := holds
  rw [founded.view_of_body? found] at typed
  cases data with
  | scalar payload => cases array
  | array others =>
      cases array
      cases typed with
      | @array expected _ _ types =>
          obtain ⟨own, had, fit⟩ := types _ (List.mem_map_of_mem (Array.mem_toList_iff.mpr inside))
          rw [type?_view] at had
          exact ⟨expected, own, type?_of_body? found, had, fit⟩

/-- All of a tree is typed if the bodies are. -/
theorem Founded.typed_view (founded : heap.Founded value)
    (typed : ∀ value body, heap.body? value = some body → body.Typed fits heap.type?) :
    (heap.view value).Typed fits := by
  induction founded with
  | @intro value has children hypothesis =>
      rw [(Founded.intro has children).view_eq]
      cases found : heap.body? value with
      | none => exact .empty
      | some body =>
          have typed := typed value body found
          obtain ⟨type, data⟩ := body
          cases data with
          | scalar payload => exact .scalar typed
          | array elements =>
              obtain ⟨expected, rfl, types⟩ := typed
              refine .array ?_ ?_
              · intro element inside
                obtain ⟨child, within, rfl⟩ := List.mem_map.mp inside
                have within := Array.mem_toList_iff.mp within
                exact hypothesis child (holds_of_body? found within)
              · intro element inside
                obtain ⟨child, within, rfl⟩ := List.mem_map.mp inside
                rw [type?_view]
                exact types child (Array.mem_toList_iff.mp within)

namespace Homogeneous

theorem empty (fits : Ty → Ty → Prop) : Heap.empty.Homogeneous fits where
  sound := sound_empty
  typed := by
    intro value body found
    cases value with
    | none => cases found
    | some id => cases found

/-- A typed body holds what there is. -/
theorem known (typed : body.Typed fits heap.type?) (element : Value) (holds : body.Holds element) :
    heap.Has element := by
  obtain ⟨_, _, _, had, _⟩ := typed.of_holds holds
  exact .of_type? had

theorem allocate (homogeneous : heap.Homogeneous fits) (typed : body.Typed fits heap.type?) :
    (heap.allocate body).2.Homogeneous fits where
  sound := homogeneous.sound.allocate (known typed)
  typed := by
    intro value other found
    have extended := heap.extends_allocate body
    have kept {other : Body} (typed : other.Typed fits heap.type?) :
        other.Typed fits (heap.allocate body).2.type? :=
      typed.mono fun _ _ _ had => extended.type? had
    rw [body?_allocate_eq] at found
    split at found
    · cases found
      exact kept typed
    · exact kept (homogeneous.typed value other found)

theorem view (homogeneous : heap.Homogeneous fits) (value : Value) : (heap.view value).Typed fits := by
  cases found : heap.body? value with
  | none =>
      rw [view_of_body?_eq_none found]
      exact .empty
  | some body => exact (homogeneous.sound value (.of_body? found)).typed_view homogeneous.typed

mutual

theorem build (datum : Datum) (heap : Heap) (homogeneous : heap.Homogeneous fits)
    (typed : datum.Typed fits) : (Heap.build datum heap).2.Homogeneous fits := by
  cases datum with
  | empty => exact homogeneous
  | scalar type payload =>
      cases typed with
      | scalar same => exact homogeneous.allocate same
  | array type elements =>
      cases typed with
      | array trees types =>
          have all := buildAll elements #[] heap homogeneous trees
          obtain ⟨added, same, views, _⟩ :=
            (made_buildAll elements #[] heap homogeneous.sound).values
          refine all.allocate ⟨_, rfl, fun value inside => ?_⟩
          rw [← Array.mem_toList_iff, same, List.nil_append] at inside
          have tree : (Heap.buildAll elements #[] heap).2.view value ∈
              added.map (Heap.buildAll elements #[] heap).2.view := List.mem_map_of_mem inside
          rw [views] at tree
          rw [← type?_view]
          exact types _ tree

theorem buildAll (data : List Datum) (built : Array Value) (heap : Heap)
    (homogeneous : heap.Homogeneous fits) (typed : ∀ datum ∈ data, datum.Typed fits) :
    (Heap.buildAll data built heap).2.Homogeneous fits := by
  cases data with
  | nil => exact homogeneous
  | cons datum rest =>
      have first := build datum heap homogeneous (typed datum List.mem_cons_self)
      exact buildAll rest _ _ first fun other inside => typed other (List.mem_cons_of_mem _ inside)

end

theorem deepCopy (homogeneous : heap.Homogeneous fits) (value : Value) :
    (heap.deepCopy value).2.Homogeneous fits :=
  build _ heap homogeneous (homogeneous.view value)

theorem copy (homogeneous : heap.Homogeneous fits) (value : Value) :
    (heap.copy value).2.Homogeneous fits := by
  unfold Heap.copy
  split
  · next body found => exact homogeneous.allocate (homogeneous.typed value body found)
  · exact homogeneous

theorem uniquify (homogeneous : heap.Homogeneous fits) (roots : List Value) (value : Value) :
    (heap.uniquify roots value).2.Homogeneous fits := by
  unfold Heap.uniquify
  split
  · exact homogeneous.copy value
  · exact homogeneous

/-- A body may be replaced by another one whose type fits where the old one did. -/
theorem write (homogeneous : heap.Homogeneous fits) (sound : (heap.write id body).Sound)
    (typed : body.Typed fits heap.type?)
    (fit : ∀ holder, heap.Holds holder (some id) → ∀ old expected,
      heap.type? (some id) = some old → fits old expected → fits body.type expected) :
    (heap.write id body).Homogeneous fits where
  sound := sound
  typed := by
    have others {value : Value} (different : value ≠ some id) :
        (heap.write id body).type? value = heap.type? value := by
      rw [Heap.type?, body?_write_of_ne body different, Heap.type?]
    intro value other found
    by_cases same : value = some id
    · subst same
      have there := found
      rw [body?_write_same] at found
      obtain ⟨_, _, rfl⟩ := Option.map_eq_some_iff.mp found
      apply typed.mono
      intro element type holds had
      rw [others, had]
      rintro rfl
      have loop : (heap.write id body).Holds (some id) (some id) := .of_body? there holds
      exact (sound _ (.of_body? there)).not_reaches loop .refl
    · rw [body?_write_of_ne body same] at found
      have before := homogeneous.typed value other found
      obtain ⟨type, data⟩ := other
      cases data with
      | scalar payload => exact before
      | array elements =>
          obtain ⟨expected, rfl, types⟩ := before
          refine ⟨expected, rfl, fun element inside => ?_⟩
          obtain ⟨old, had, fits⟩ := types element inside
          by_cases target : element = some id
          · subst target
            obtain ⟨replaced, held, _⟩ := exists_of_type? had
            refine ⟨body.type, ?_, fit value (holds_of_body? found inside) old expected had fits⟩
            exact type?_of_body? (body?_write_self body (lt_size_of_body? held))
          · exact ⟨old, (others target).trans had, fits⟩

/-- What is read off a homogeneous heap for a new body is typed. -/
theorem claim (homogeneous : heap.Homogeneous fits) (found : heap.index array index = .ok element)
    (roots : List Value) : (heap.claim roots array index element).2.Homogeneous fits := by
  obtain ⟨type, elements, held, there⟩ := index_eq_ok_iff.mp found
  cases array with
  | none => cases held
  | some id =>
      unfold Heap.claim
      split
      · have typed := homogeneous.typed _ _ held
        obtain ⟨_, old, _, had, _⟩ := typed.of_holds ⟨elements, rfl, Array.mem_of_getElem? there⟩
        obtain ⟨body, copied, rfl⟩ := exists_of_type? had
        have grown := homogeneous.allocate (homogeneous.typed element body copied)
        have array := body?_allocate_of_body? body held
        have sound := (replaces_copyInto homogeneous.sound held there copied).sound
        simp only [Heap.copy, copied]
        rw [copyInto, setElement_eq_write array] at sound
        rw [setElement_eq_write array]
        refine grown.write sound ((grown.typed _ _ array).setElement there ?_) ?_
        · rw [type?_of_body? (heap.body?_allocate body), (heap.extends_allocate body).type? had]
        · intro _ _ old expected had
          rw [type?_of_body? array] at had
          cases had
          exact fun fit => fit
      · exact homogeneous

/-- Taking over another value keeps a heap homogeneous if the heap admits it. -/
theorem takeOver (homogeneous : heap.Homogeneous fits) (admits : heap.Admits fits (some id) source) :
    (heap.takeOver id source).Homogeneous fits := by
  by_cases same : source = some id
  · rw [Heap.takeOver, if_pos same]
    exact homogeneous
  cases found : heap.body? source with
  | none =>
      have apart : heap.reaches source id = false := by
        rw [← Bool.not_eq_true, reaches_iff]
        intro leads
        obtain ⟨child, ⟨body, there, _⟩, _⟩ :=
          leads.cases_head.resolve_left fun equal => same equal
        rw [found] at there
        cases there
      simp only [Heap.takeOver, if_neg same, apart, Bool.false_eq_true, if_false, found]
      exact homogeneous
  | some body =>
      have typed := type?_of_body? found
      cases contained : heap.reaches source id with
      | false =>
          simp only [Heap.takeOver, if_neg same, contained, Bool.false_eq_true, if_false, found]
          cases target : heap.body? (some id) with
          | none =>
              rw [write_of_missing target]
              exact homogeneous
          | some old =>
              have sound := (replaces_takeOver homogeneous.sound (.of_body? target) found).sound
              simp only [Heap.takeOver, if_neg same, contained, Bool.false_eq_true, if_false,
                found] at sound
              refine homogeneous.write sound (homogeneous.typed source body found) ?_
              intro holder holds type expected had
              rcases admits with apart | implied
              · exact (apart holder holds).elim
              · exact implied type body.type expected had typed
      | true =>
          have leads := reaches_iff.mp contained
          have inside := ((homogeneous.sound source (.of_body? found)).reached leads).has
          have sound := (replaces_takeOver homogeneous.sound inside found).sound
          have made := made_deepCopy homogeneous.sound source
          have grown := homogeneous.deepCopy source
          simp only [Heap.takeOver, if_neg same, contained, if_true] at sound ⊢
          cases copied : (heap.deepCopy source).2.body? (heap.deepCopy source).1 with
          | none => exact grown
          | some copy =>
              simp only [copied] at sound
              refine grown.write sound (grown.typed _ copy copied) ?_
              intro holder _ type expected had
              -- An array holds the target, as the source leads there.
              obtain ⟨last, _, holds⟩ := leads.cases_tail.resolve_left fun equal => same equal.symm
              rcases admits with apart | implied
              · exact (apart last holds).elim
              · obtain ⟨old, target⟩ := exists_body? inside
                have before := type?_of_body? target
                rw [made.extended.type? before] at had
                cases had
                apply implied _ _ expected before
                rw [← type?_view, ← made.view, type?_view, type?_of_body? copied]

/-! Bodies of new arrays. -/

theorem arrayBody (reflexive : ∀ type, fits type type) {elements : List Value}
    (made : heap.arrayBody type elements = .ok body) : body.Typed fits heap.type? := by
  unfold Heap.arrayBody at made
  split at made
  · cases made
  · next expected =>
      obtain ⟨_, checked, made⟩ := exists_of_bind_eq_ok made
      cases made
      refine ⟨expected, rfl, fun element inside => ⟨expected, ?_, reflexive expected⟩⟩
      exact type?_of_checkElements checked element (List.mem_toArray.mp inside)

theorem appendedBody (reflexive : ∀ type, fits type type) (homogeneous : heap.Homogeneous fits)
    (made : heap.appendedBody array element = .ok body) : body.Typed fits heap.type? := by
  obtain ⟨found, typed, made⟩ := exists_of_bind_eq_ok made
  obtain ⟨old, held, made⟩ := exists_of_bind_eq_ok made
  exact (homogeneous.typed array old (get_eq_ok_iff.mp held)).append reflexive
    (typeOf_eq_ok_iff.mp typed) made

theorem concatenatedBody (homogeneous : heap.Homogeneous fits) {first second : Value}
    (made : heap.concatenatedBody first second = .ok body) : body.Typed fits heap.type? := by
  obtain ⟨incoming, listed, made⟩ := exists_of_bind_eq_ok made
  obtain ⟨type, typed, made⟩ := exists_of_bind_eq_ok made
  obtain ⟨old, held, made⟩ := exists_of_bind_eq_ok made
  obtain ⟨own, found⟩ := elements_eq_ok_iff.mp listed
  have same := (type?_of_body? found).symm.trans (typeOf_eq_ok_iff.mp typed)
  cases same
  exact (homogeneous.typed first old (get_eq_ok_iff.mp held)).concatenate
    (homogeneous.typed second _ found) made

end Homogeneous

end Heap

end CoopScript
