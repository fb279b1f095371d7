import CoopScript.Proofs.Heap.Founded
import CoopScript.Value.Update

/-!
What is read off a heap: the elements of arrays, and bodies for new arrays, which hold nothing but
what they were made of.
-/

namespace CoopScript

/-- A result in two steps has a result of the first step. -/
theorem exists_of_bind_eq_ok {Error First Last : Type} {first : Except Error First}
    {next : First → Except Error Last} {last : Last} (done : first >>= next = .ok last) :
    ∃ middle, first = .ok middle ∧ next middle = .ok last := by
  cases first with
  | error cause => cases done
  | ok middle => exact ⟨middle, rfl, done⟩

/-- A check of all items that has a result has one for every item. -/
theorem eq_ok_of_forM_eq_ok {Error Item : Type} {check : Item → Except Error Unit}
    {items : List Item} (checked : items.forM check = .ok ()) {item : Item} (inside : item ∈ items) :
    check item = .ok () := by
  induction items with
  | nil => cases inside
  | cons first rest hypothesis =>
      obtain ⟨_, checks, others⟩ := exists_of_bind_eq_ok checked
      rcases List.mem_cons.mp inside with rfl | inside
      · exact checks
      · exact hypothesis others inside

namespace Body

variable {body grown : Body} {child element : Value}

theorem holds_of_append {found : Ty} (done : body.append found element = .ok grown)
    (holds : grown.Holds child) : child = element ∨ body.Holds child := by
  obtain ⟨type, data⟩ := body
  cases data with
  | scalar payload => cases done
  | array elements =>
      simp only [Body.append, Body.elements, bind, Except.bind, pure, Except.pure] at done
      split at done
      · cases done
        obtain ⟨others, ⟨⟩, inside⟩ := holds
        exact .inl (List.mem_singleton.mp (List.mem_toArray.mp inside))
      · split at done
        · cases done
          obtain ⟨others, ⟨⟩, inside⟩ := holds
          rcases Array.mem_push.mp inside with old | new
          · exact .inr ⟨elements, rfl, old⟩
          · exact .inl new
        · cases done

theorem holds_of_concatenate {type : Ty} {incoming : Array Value}
    (done : body.concatenate type incoming = .ok grown) (holds : grown.Holds child) :
    child ∈ incoming ∨ body.Holds child := by
  obtain ⟨type, data⟩ := body
  cases data with
  | scalar payload => cases done
  | array elements =>
      simp only [Body.concatenate, Body.elements, bind, Except.bind, pure, Except.pure] at done
      split at done
      · cases done
        exact .inr holds
      · split at done
        · cases done
          obtain ⟨others, ⟨⟩, inside⟩ := holds
          exact .inl inside
        · split at done
          · cases done
            obtain ⟨others, ⟨⟩, inside⟩ := holds
            rcases Array.mem_append.mp inside with old | new
            · exact .inr ⟨elements, rfl, old⟩
            · exact .inl new
          · cases done

/-- The elements of both arrays, and no others. -/
theorem holds_concatenate_iff {type : Ty} {incoming : Array Value}
    (done : body.concatenate type incoming = .ok grown) :
    grown.Holds child ↔ child ∈ incoming ∨ body.Holds child := by
  refine ⟨holds_of_concatenate done, ?_⟩
  obtain ⟨own, data⟩ := body
  cases data with
  | scalar payload => cases done
  | array elements =>
      intro given
      have among : child ∈ elements ++ incoming := by
        rcases given with new | ⟨_, ⟨⟩, old⟩
        · exact Array.mem_append.mpr (.inr new)
        · exact Array.mem_append.mpr (.inl old)
      simp only [Body.concatenate, Body.elements, bind, Except.bind, pure, Except.pure] at done
      split at done
      · next nothing =>
          cases done
          rw [Array.isEmpty_iff.mp nothing, Array.append_empty] at among
          exact ⟨elements, rfl, among⟩
      · split at done
        · next blank =>
            cases done
            rw [Array.isEmpty_iff.mp blank, Array.empty_append] at among
            exact ⟨incoming, rfl, among⟩
        · split at done
          · cases done
            exact ⟨_, rfl, among⟩
          · cases done

end Body

namespace Heap

variable {heap : Heap} {value array element child target source : Value} {elements : Array Value}
  {body : Body} {id : BodyId}

theorem get_eq_ok_iff : heap.get value = .ok body ↔ heap.body? value = some body := by
  unfold get
  cases heap.body? value <;> simp

theorem elements_eq_ok_iff :
    heap.elements value = .ok elements ↔ ∃ type, heap.body? value = some ⟨type, .array elements⟩ := by
  unfold Heap.elements get
  cases heap.body? value with
  | none => simp [bind, Except.bind]
  | some body =>
      obtain ⟨type, data⟩ := body
      cases data <;> simp [bind, Except.bind, Body.elements]

theorem holds_iff_of_elements (listed : heap.elements value = .ok elements) :
    heap.Holds value child ↔ child ∈ elements := by
  obtain ⟨type, found⟩ := elements_eq_ok_iff.mp listed
  constructor
  · intro holds
    obtain ⟨body, held, others, array, inside⟩ := holds
    rw [found] at held
    cases held
    cases array
    exact inside
  · intro inside
    exact .of_body? found ⟨elements, rfl, inside⟩

theorem index_eq_ok_iff {position : Nat} : heap.index array position = .ok element ↔
    ∃ type elements, heap.body? array = some ⟨type, .array elements⟩ ∧
      elements[position]? = some element := by
  unfold Heap.index
  cases found : heap.elements array with
  | error cause =>
      simp only [bind, Except.bind, reduceCtorEq, false_iff]
      intro given
      obtain ⟨type, elements, array, _⟩ := given
      rw [elements_eq_ok_iff.mpr ⟨type, array⟩] at found
      cases found
  | ok elements =>
      obtain ⟨type, array⟩ := elements_eq_ok_iff.mp found
      simp only [bind, Except.bind, array, Option.some.injEq, Body.mk.injEq, Data.array.injEq]
      cases there : elements[position]? with
      | none => simp [there, throw, throwThe, MonadExceptOf.throw]
      | some other => simp [there, pure, Except.pure]

theorem body?_of_overwritten (overwrites : heap.overwritten target source = .ok id) :
    target = some id ∧ ∃ body, heap.body? source = some body := by
  unfold overwritten at overwrites
  cases target with
  | none => cases overwrites
  | some own =>
      cases found : heap.get source with
      | error cause =>
          rw [found] at overwrites
          cases overwrites
      | ok body =>
          rw [found] at overwrites
          cases overwrites
          exact ⟨rfl, body, get_eq_ok_iff.mp found⟩

/-! Bodies of new arrays. -/

theorem holds_of_arrayBody {type : Ty} {elements : List Value} 
    (made : heap.arrayBody type elements = .ok body) (holds : body.Holds child) :
    child ∈ elements := by
  unfold arrayBody at made
  split at made
  · cases made
  · next expected =>
    cases checked : heap.checkElements expected elements with
    | error cause => 
        rw [checked] at made
        cases made
    | ok _ =>
        rw [checked] at made
        cases made
        obtain ⟨others, ⟨⟩, inside⟩ := holds
        exact List.mem_toArray.mp inside

theorem holds_of_appendedBody (made : heap.appendedBody array element = .ok body)
    (holds : body.Holds child) : child = element ∨ heap.Holds array child := by
  unfold appendedBody at made
  cases typed : heap.typeOf element with
  | error cause =>
      rw [typed] at made
      cases made
  | ok found =>
      cases held : heap.get array with
      | error cause =>
          rw [typed, held] at made
          cases made
      | ok old =>
          rw [typed, held] at made
          rcases Body.holds_of_append made holds with new | kept
          · exact .inl new
          · exact .inr ⟨old, get_eq_ok_iff.mp held, kept⟩

theorem holds_of_concatenatedBody {first second : Value}
    (made : heap.concatenatedBody first second = .ok body) (holds : body.Holds child) :
    heap.Holds first child ∨ heap.Holds second child := by
  unfold concatenatedBody at made
  cases listed : heap.elements second with
  | error cause =>
      rw [listed] at made
      cases made
  | ok incoming =>
      cases typed : heap.typeOf second with
      | error cause =>
          rw [listed, typed] at made
          cases made
      | ok type =>
          cases held : heap.get first with
          | error cause =>
              rw [listed, typed, held] at made
              cases made
          | ok old =>
              rw [listed, typed, held] at made
              obtain ⟨own, found⟩ := elements_eq_ok_iff.mp listed
              rcases Body.holds_of_concatenate made holds with new | kept
              · exact .inr ⟨_, found, incoming, rfl, new⟩
              · exact .inl ⟨old, get_eq_ok_iff.mp held, kept⟩

end Heap

end CoopScript
