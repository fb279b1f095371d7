import CoopScript.Proofs.Trees.Elementwise
import CoopScript.Proofs.Trees.Rendering
import CoopScript.Proofs.Trees.Stepping

/-!
What readers can depend on where the type of every body goes with what it keeps: the kind of a value
says which reads succeed, and nothing that is read of a value with a body reports an empty one.
-/

namespace CoopScript

/-- Why a value that is no array has no elements. -/
def Heap.noElements (heap : Heap) (value : Value) : ValueError :=
  match heap.type? value with
  | some type => .notAnArray type.display
  | none => .empty

/-- All reads of the elements of arrays succeed, but for positions that are out of range. All of them
fail alike for other values, which have a payload of their kind unless they are empty. Operations that
follow the elements of a value down to where it ends report an empty value only if one was given. -/
structure Heap.Dependable (heap : Heap) : Prop where
  arrays : ∀ value, heap.isArray value = true → ∃ elements : Array Value,
    heap.elements value = .ok elements ∧ heap.length value = .ok elements.size ∧
    ∀ position roots,
      (∃ element made, elements[position]? = some element ∧ heap.index value position = .ok element ∧
        heap.indexWritable roots value position = .ok made) ∨
      elements[position]? = none ∧
        heap.index value position = .error (indexError position elements.size) ∧
        heap.indexWritable roots value position = .error (indexError position elements.size)
  others : ∀ value, heap.isArray value = false →
    heap.elements value = .error (heap.noElements value) ∧
    heap.length value = .error (heap.noElements value) ∧
    ∀ position roots, heap.index value position = .error (heap.noElements value) ∧
      heap.indexWritable roots value position = .error (heap.noElements value)
  scalars : ∀ value expected, heap.Present value → heap.isArray value = false →
    ∃ payload, (heap.view value).payload expected = .ok payload ∧
      heap.kind? value = some payload.kind.toKind
  texts : ∀ value, heap.Founded value → (heap.view value).text = .error .empty → value = none
  orders : ∀ left right, heap.Has left → heap.Has right → heap.Founded left ∨ heap.Founded right →
    heap.order left right = .error .empty → left = none ∨ right = none
  ariths : ∀ operator left right, heap.Has left → heap.Has right →
    heap.Founded left ∨ heap.Founded right →
    heap.arith operator left right = .error (.value .empty) → left = none ∨ right = none
  unaries : ∀ operator value, heap.Founded value →
    heap.unary operator value = .error (.value .empty) → value = none

theorem lexicographic_ne_error {Element Error : Type} {cause : Error}
    {compare : Element → Element → Except Error Ordering} {left right : List Element}
    (each : ∀ first ∈ left, ∀ second ∈ right, compare first second ≠ .error cause) :
    lexicographic compare left right ≠ .error cause := by
  induction left generalizing right with
  | nil => cases right <;> nofun
  | cons first rest hypothesis =>
      cases right with
      | nil => nofun
      | cons second others =>
          have one := each first List.mem_cons_self second List.mem_cons_self
          rw [lexicographic]
          split
          · exact hypothesis fun other inside another within =>
              each other (List.mem_cons_of_mem _ inside) another (List.mem_cons_of_mem _ within)
          · exact one

namespace Datum

variable {fits : Ty → Ty → Prop} {datum letter result : Datum} {elements results : List Datum}

theorem mem_lettersAll {string : Bool} (inside : letter ∈ lettersAll string elements) :
    letter ∈ elements ∨ ∃ element ∈ elements, letter ∈ element.letters := by
  induction elements with
  | nil => cases inside
  | cons element rest hypothesis =>
      rcases List.mem_append.mp inside with here | later
      · have one : letter = element ∨ letter ∈ element.letters := by
          cases string with
          | true => exact List.mem_cons.mp here
          | false => exact .inr here
        rcases one with rfl | within
        · exact .inl List.mem_cons_self
        · exact .inr ⟨element, List.mem_cons_self, within⟩
      · rcases hypothesis later with other | ⟨other, held, within⟩
        · exact .inl (List.mem_cons_of_mem _ other)
        · exact .inr ⟨other, List.mem_cons_of_mem _ held, within⟩

theorem Typed.ne_empty_of_mem_letters (typed : datum.Typed fits) (inside : letter ∈ datum.letters) :
    letter ≠ .empty := by
  induction typed with
  | empty => cases inside
  | scalar _ => cases inside
  | array _ types hypothesis =>
      rcases mem_lettersAll inside with held | ⟨element, held, within⟩
      · rintro rfl
        obtain ⟨_, ⟨⟩, _⟩ := types _ held
      · exact hypothesis element held within

theorem eq_empty_of_toChar (failed : datum.toChar = .error .empty) : datum = .empty := by
  cases datum with
  | empty => rfl
  | array type elements => cases failed
  | scalar type payload =>
      obtain ⟨character, same⟩ | ⟨cause, other, same⟩ : (∃ character, payload.toChar = .ok character) ∨
          ∃ cause, cause ≠ .empty ∧ payload.toChar = .error cause := by
        cases payload with
        | real value =>
            rw [Scalar.toChar]
            split
            · exact .inl ⟨_, rfl⟩
            · exact .inr ⟨.kindMismatch .., nofun, rfl⟩
        | _ => exact .inl ⟨_, rfl⟩
      · cases same.symm.trans failed
      · cases same.symm.trans failed
        exact absurd rfl other

theorem Typed.text_ne_empty (typed : datum.Typed fits) (given : datum ≠ .empty) :
    datum.text ≠ .error .empty := by
  intro failed
  obtain ⟨before, letter, after, same, _, refused⟩ := (text_eq_error_iff typed given).mp failed
  have inside : letter ∈ datum.letters := by
    rw [same]
    exact List.mem_append_right _ List.mem_cons_self
  exact typed.ne_empty_of_mem_letters inside (eq_empty_of_toChar refused)

theorem unary_ne_empty {operator : UnaryOp} (made : unary operator datum = .ok result) :
    result ≠ .empty := by
  rintro rfl
  cases datum with
  | array type elements =>
      cases operator with
      | not => cases made
      | _ =>
          obtain ⟨results, _, made⟩ := exists_of_bind_eq_ok made
          exact collect_ne_empty _ _ made
  | _ => cases operator <;> obtain ⟨_, _, made⟩ := exists_of_bind_eq_ok made <;> cases made

/-- Of elements that are not empty an array is made, or fails to be, without a word of empty ones. -/
theorem makeArray_ne_error (type : Ty) (given : ∀ element ∈ elements, element ≠ .empty) :
    makeArray type elements ≠ .error .empty := by
  cases type with
  | scalar kind => rintro ⟨⟩
  | array expected =>
      simp only [makeArray]
      rcases forM_outcome _ elements with ⟨checked, _⟩ | ⟨element, inside, cause, failed, checked⟩
      · rw [checked]
        rintro ⟨⟩
      · rw [checked]
        rintro ⟨⟩
        cases typed : element.type? with
        | none =>
            cases element with
            | empty => exact given _ inside rfl
            | _ => cases typed
        | some found =>
            simp only [typed] at failed
            split at failed <;> cases failed

theorem collect_ne_error (type : Ty) (given : ∀ result ∈ results, result ≠ .empty) :
    collect type results ≠ .error (.value .empty) := by
  intro failed
  unfold collect MachineError.ofValueResult at failed
  extract_lets own at failed
  cases array : makeArray own results with
  | ok result =>
      rw [array] at failed
      cases failed
  | error cause =>
      rw [array] at failed
      cases failed
      exact makeArray_ne_error own given array

theorem collect_mapM_ne_error {Element : Type} {apply : Element → Except MachineError Datum}
    {list : List Element} (type : Ty)
    (fails : ∀ element ∈ list, apply element ≠ .error (.value .empty))
    (made : ∀ element result, apply element = .ok result → result ≠ .empty) :
    (do collect type (← list.mapM apply)) ≠ .error (.value .empty) := by
  rcases mapM_outcome apply list with ⟨results, all, length, each⟩ | ⟨element, inside, cause, failed, all⟩
  · rw [all]
    apply collect_ne_error
    intro result inside
    obtain ⟨index, inRange, rfl⟩ := List.getElem_of_mem inside
    have bound : index < list.length := length ▸ inRange
    obtain ⟨own, there, applied⟩ := each index list[index] (List.getElem?_eq_getElem bound)
    cases there.symm.trans (List.getElem?_eq_getElem inRange)
    exact made _ _ applied
  · rw [all]
    rintro ⟨⟩
    exact fails element inside failed

end Datum

namespace Heap

variable {heap : Heap} {value left right : Value} {depth : Nat}

namespace Tagged

variable (tagged : heap.Tagged)

include tagged

/-- One level down, for the elements of two arrays of which one is shallow. -/
theorem descend {leftType rightType : Ty} {lefts rights : Array Value}
    (shallow : heap.Shallow (depth + 1) left ∨ heap.Shallow (depth + 1) right)
    (foundLeft : heap.body? left = some ⟨leftType, .array lefts⟩)
    (foundRight : heap.body? right = some ⟨rightType, .array rights⟩) {first second : Value}
    (inside : first ∈ lefts.toList) (within : second ∈ rights.toList) :
    (heap.Shallow depth first ∨ heap.Shallow depth second) ∧ heap.Present first ∧
      heap.Present second := by
  have holdsLeft := holds_of_body? foundLeft (Array.mem_toList_iff.mp inside)
  have holdsRight := holds_of_body? foundRight (Array.mem_toList_iff.mp within)
  exact ⟨shallow.imp (· first holdsLeft) (· second holdsRight), tagged.present holdsLeft,
    tagged.present holdsRight⟩

theorem orderWithin_ne_empty (shallow : heap.Shallow depth left ∨ heap.Shallow depth right)
    (one : heap.Present left) (two : heap.Present right) :
    heap.orderWithin depth left right ≠ .error .empty := by
  induction depth generalizing left right with
  | zero => exact (shallow.elim one.not_shallow_zero two.not_shallow_zero).elim
  | succ depth hypothesis =>
      obtain ⟨⟨leftType, leftPayload | lefts⟩, foundLeft⟩ := one.exists_body? <;>
        obtain ⟨⟨rightType, rightPayload | rights⟩, foundRight⟩ := two.exists_body? <;>
        simp only [orderWithin, surface, viewWithin, foundLeft, foundRight, Datum.compare]
      · cases leftPayload.order? rightPayload <;> rintro ⟨⟩
      · rintro ⟨⟩
      · rintro ⟨⟩
      · split
        · apply lexicographic_ne_error
          intro first inside second within
          obtain ⟨still, one, two⟩ := tagged.descend shallow foundLeft foundRight inside within
          exact hypothesis still one two
        · rintro ⟨⟩

theorem arithWithin_ne_empty (operator : ArithOp)
    (shallow : heap.Shallow depth left ∨ heap.Shallow depth right)
    (one : heap.Present left) (two : heap.Present right) :
    heap.arithWithin operator depth left right ≠ .error (.value .empty) := by
  induction depth generalizing left right with
  | zero => exact (shallow.elim one.not_shallow_zero two.not_shallow_zero).elim
  | succ depth hypothesis =>
      obtain ⟨⟨leftType, leftPayload | lefts⟩, foundLeft⟩ := one.exists_body? <;>
        obtain ⟨⟨rightType, rightPayload | rights⟩, foundRight⟩ := two.exists_body? <;>
        simp only [arithWithin, surface, viewWithin, foundLeft, foundRight, Datum.arith]
      · rintro ⟨⟩
      · rintro ⟨⟩
      · rintro ⟨⟩
      · split
        · rintro ⟨⟩
        · refine Datum.collect_mapM_ne_error leftType ?_ ?_
          · rintro ⟨first, second⟩ inside
            obtain ⟨inside, within⟩ := List.of_mem_zip inside
            obtain ⟨still, one, two⟩ := tagged.descend shallow foundLeft foundRight inside within
            exact hypothesis still one two
          · intro pair result made
            rw [arithWithin_eq] at made
            exact Datum.arith_ne_empty made

theorem unaryWithin_ne_empty (operator : UnaryOp) (shallow : heap.Shallow depth value)
    (present : heap.Present value) :
    heap.unaryWithin operator depth value ≠ .error (.value .empty) := by
  induction depth generalizing value with
  | zero => exact (present.not_shallow_zero shallow).elim
  | succ depth hypothesis =>
      obtain ⟨⟨type, payload | elements⟩, found⟩ := present.exists_body?
      · cases operator <;> simp only [unaryWithin, surface, viewWithin, found] <;> rintro ⟨⟩
      · have computes : (do Datum.collect type (← elements.toList.mapM (heap.unaryWithin operator depth))) ≠
            .error (.value .empty) := by
          refine Datum.collect_mapM_ne_error type ?_ ?_
          · intro child inside
            have holds := holds_of_body? found (Array.mem_toList_iff.mp inside)
            exact hypothesis (shallow child holds) (tagged.present holds)
          · intro child result made
            rw [unaryWithin_eq] at made
            exact Datum.unary_ne_empty made
        cases operator with
        | not =>
            simp only [unaryWithin, surface, viewWithin, found]
            rintro ⟨⟩
        | _ => simpa only [unaryWithin, found] using computes

/-! What is read of one body. -/

omit tagged in
theorem kind?_of_body? {body : Body} (found : heap.body? value = some body) :
    heap.kind? value = some body.type.kind := by
  rw [kind?, type?_of_body? found]
  rfl

/-- Nothing, a scalar or an array, and the kind of the value tells which. -/
theorem body?_cases (value : Value) :
    (heap.body? value = none ∧ heap.isArray value = false) ∨
    (∃ type payload, heap.body? value = some ⟨type, .scalar payload⟩ ∧
      heap.isArray value = false ∧ heap.kind? value = some payload.kind.toKind) ∨
    ∃ type elements, heap.body? value = some ⟨type, .array elements⟩ ∧
      heap.isArray value = true := by
  cases found : heap.body? value with
  | none => exact .inl ⟨rfl, by simp [isArray, kind?, type?, found]⟩
  | some body =>
      have kind := kind?_of_body? found
      have goes := tagged.bodies value body found
      obtain ⟨type, payload | elements⟩ := body
      · rw [show type.kind = payload.kind.toKind from goes] at kind
        have other : heap.isArray value = false := by
          rw [isArray, kind]
          cases payload <;> rfl
        exact .inr (.inl ⟨type, payload, rfl, other, kind⟩)
      · rw [show type.kind = .array from goes] at kind
        exact .inr (.inr ⟨type, elements, rfl, by rw [isArray, kind]; rfl⟩)

theorem dependable : heap.Dependable where
  arrays := by
    intro value array
    rcases tagged.body?_cases value with ⟨_, other⟩ | ⟨_, _, _, other, _⟩ | ⟨type, elements, found, _⟩
    · cases other.symm.trans array
    · cases other.symm.trans array
    · have listed : heap.elements value = .ok elements := elements_eq_ok_iff.mpr ⟨type, found⟩
      refine ⟨elements, listed, by rw [Heap.length, listed]; rfl, fun position roots => ?_⟩
      cases there : elements[position]? with
      | none =>
          have outside : heap.index value position = .error (indexError position elements.size) := by
            simp only [Heap.index, listed, there, bind, Except.bind]
            rfl
          exact .inr ⟨rfl, outside, by rw [Heap.indexWritable, outside]; rfl⟩
      | some element =>
          have inside : heap.index value position = .ok element :=
            index_eq_ok_iff.mpr ⟨type, elements, found, there⟩
          exact .inl ⟨element, _, rfl, inside, by rw [Heap.indexWritable, inside]; rfl⟩
  others := by
    intro value other
    have fails : heap.elements value = .error (heap.noElements value) := by
      rcases tagged.body?_cases value with ⟨found, _⟩ | ⟨_, _, found, _⟩ | ⟨_, _, _, array⟩
      · simp [Heap.elements, get, noElements, type?, found, bind, Except.bind]
      · simp [Heap.elements, get, noElements, type?, found, bind, Except.bind, Body.elements]
      · cases other.symm.trans array
    have nowhere (position : Nat) : heap.index value position = .error (heap.noElements value) := by
      rw [Heap.index, fails]
      rfl
    refine ⟨fails, by rw [Heap.length, fails]; rfl, fun position roots => ⟨nowhere position, ?_⟩⟩
    rw [Heap.indexWritable, nowhere]
    rfl
  scalars := by
    intro value expected present other
    obtain ⟨body, there⟩ := present.exists_body?
    rcases tagged.body?_cases value with ⟨found, _⟩ | ⟨_, payload, found, _, kind⟩ | ⟨_, _, _, array⟩
    · cases found.symm.trans there
    · refine ⟨payload, ?_, kind⟩
      rw [← payload_surface, surface, viewWithin, found]
      rfl
    · cases other.symm.trans array
  texts := by
    intro value founded failed
    by_contra given
    obtain ⟨body, found⟩ := Present.exists_body? ⟨founded.has, given⟩
    have typed := founded.typed_view fun _ _ => tagged.typed
    refine typed.text_ne_empty ?_ failed
    rw [founded.view_of_body? found]
    exact body.datum_ne_empty _
  orders := by
    intro left right one two founded failed
    by_contra given
    obtain ⟨first, second⟩ := not_or.mp given
    exact tagged.orderWithin_ne_empty
      (founded.imp (·.shallow (card_reached_le ..)) (·.shallow (card_reached_le ..)))
      ⟨one, first⟩ ⟨two, second⟩ failed
  ariths := by
    intro operator left right one two founded failed
    by_contra given
    obtain ⟨first, second⟩ := not_or.mp given
    exact tagged.arithWithin_ne_empty operator
      (founded.imp (·.shallow (card_reached_le ..)) (·.shallow (card_reached_le ..)))
      ⟨one, first⟩ ⟨two, second⟩ failed
  unaries := by
    intro operator value founded failed
    by_contra given
    exact tagged.unaryWithin_ne_empty operator (founded.shallow (card_reached_le ..))
      ⟨founded.has, given⟩ failed

end Tagged

end Heap

end CoopScript
