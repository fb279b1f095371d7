import CoopScript.Proofs.Heap.Extension
import CoopScript.Proofs.Heap.Results

/-!
Operators on trees, leaf by leaf. Operands of one shape give a result of that shape, unless the
elements of an array get results of different types: an element without scalars keeps the type that
it has, while the scalars of its siblings become reals.
-/

namespace CoopScript

/-- The type with reals in place of any scalars. -/
def Ty.promoted : Ty → Ty
  | scalar _ => real
  | array element => .array element.promoted

/-- The unary operators that work on numbers. -/
inductive UnaryOp.Computes : UnaryOp → (Float → Float) → Prop
  | neg : Computes .neg fun number => -number
  | abs : Computes .abs Float.abs

/-- Two arrays have different lengths, or an array meets a scalar. -/
inductive MachineError.Misshapen : MachineError → Prop
  | lengths {left right : Nat} : Misshapen (.value (.lengthMismatch left right))
  | types {text : String} : Misshapen (.typeMismatch text)

/-- An element has another type than its siblings. -/
inductive MachineError.Uneven : MachineError → Prop
  | mk {expected found : String} : Uneven (.value (.elementTypeMismatch expected found))

/-! Lists. -/

theorem mapM_outcome {Element Result Error : Type} (apply : Element → Except Error Result)
    (list : List Element) :
    (∃ results, list.mapM apply = .ok results ∧ results.length = list.length ∧
      ∀ (index : Nat) (element : Element), list[index]? = some element →
        ∃ result, results[index]? = some result ∧ apply element = .ok result) ∨
    ∃ element ∈ list, ∃ error, apply element = .error error ∧ list.mapM apply = .error error := by
  induction list with
  | nil => exact .inl ⟨[], rfl, rfl, nofun⟩
  | cons first rest hypothesis =>
      rw [List.mapM_cons]
      cases one : apply first with
      | error cause => exact .inr ⟨first, List.mem_cons_self, cause, one, rfl⟩
      | ok result =>
          rcases hypothesis with ⟨results, all, length, each⟩ | ⟨element, inside, cause, failed, all⟩
          · refine .inl ⟨result :: results, ?_, congrArg (· + 1) length, ?_⟩
            · rw [all]
              rfl
            · rintro (_ | index) element there
              · cases there
                exact ⟨result, rfl, one⟩
              · exact each index element there
          · refine .inr ⟨element, List.mem_cons_of_mem _ inside, cause, failed, ?_⟩
            rw [all]
            rfl

theorem forM_outcome {Item Error : Type} (check : Item → Except Error Unit) (items : List Item) :
    (items.forM check = .ok () ∧ ∀ item ∈ items, check item = .ok ()) ∨
    ∃ item ∈ items, ∃ error, check item = .error error ∧ items.forM check = .error error := by
  induction items with
  | nil => exact .inl ⟨rfl, nofun⟩
  | cons first rest hypothesis =>
      simp only [List.forM]
      cases one : check first with
      | error cause => exact .inr ⟨first, List.mem_cons_self, cause, one, rfl⟩
      | ok =>
          rcases hypothesis with ⟨all, each⟩ | ⟨item, inside, cause, failed, all⟩
          · exact .inl ⟨all, List.forall_mem_cons.mpr ⟨one, each⟩⟩
          · exact .inr ⟨item, List.mem_cons_of_mem _ inside, cause, failed, all⟩

namespace Datum

/-- Two scalars, or arrays of one length whose elements have one shape each. -/
inductive SameShape : Datum → Datum → Prop
  | scalar {leftType rightType : Ty} {left right : Scalar} :
      SameShape (.scalar leftType left) (.scalar rightType right)
  | array {leftType rightType : Ty} {left right : List Datum} : left.length = right.length →
      (∀ (index : Nat) (first second : Datum), left[index]? = some first →
        right[index]? = some second → SameShape first second) →
      SameShape (.array leftType left) (.array rightType right)

/-- The scalar that a path of positions leads to. -/
def leaf? : List Nat → Datum → Option Scalar
  | [], .scalar _ payload => some payload
  | index :: path, .array _ elements => elements[index]?.bind (leaf? path)
  | _, _ => none

/-- A tree without a scalar. -/
inductive Blank : Datum → Prop
  | array {type : Ty} {elements : List Datum} : (∀ element ∈ elements, Blank element) →
      Blank (.array type elements)

/-- Somewhere in the tree an array holds an element without scalars beside one with scalars. -/
inductive Mixed : Datum → Prop
  | here {type : Ty} {elements : List Datum} {element other : Datum} : element ∈ elements →
      other ∈ elements → element.Blank → ¬ other.Blank → Mixed (.array type elements)
  | within {type : Ty} {elements : List Datum} {element : Datum} : element ∈ elements →
      Mixed element → Mixed (.array type elements)

/-- A value of reals, or one in which no array holds elements with scalars beside others without. -/
def Regular (datum : Datum) (type : Ty) : Prop := type.promoted = type ∨ ¬ datum.Mixed

/-- The type of the result of an operator on numbers: that of reals and of arrays of such results,
all of one type, and for an array without elements its own. -/
inductive Promotes : Datum → Ty → Prop
  | scalar {type : Ty} {payload : Scalar} : Promotes (.scalar type payload) .real
  | nil {type : Ty} : Promotes (.array type []) type
  | cons {type expected : Ty} {first : Datum} {rest : List Datum} :
      (∀ element ∈ first :: rest, Promotes element expected) →
      Promotes (.array type (first :: rest)) (.array expected)

variable {operand left right datum : Datum} {type other expected : Ty} {elements : List Datum}
  {operator : ArithOp}

/-! The types of results. -/

theorem Promotes.unique (promotes : datum.Promotes type) (also : datum.Promotes other) :
    type = other := by
  induction promotes generalizing other with
  | scalar => cases also with | scalar => rfl
  | nil => cases also with | nil => rfl
  | cons _ hypothesis =>
      cases also with
      | cons others =>
          exact congrArg Ty.array
            (hypothesis _ List.mem_cons_self (others _ List.mem_cons_self))

theorem Promotes.of_forall (nonempty : elements ≠ [])
    (promote : ∀ element ∈ elements, element.Promotes expected) :
    (Datum.array type elements).Promotes (.array expected) := by
  cases elements with
  | nil => exact absurd rfl nonempty
  | cons first rest => exact .cons promote

theorem blank_array_iff : (Datum.array type elements).Blank ↔ ∀ element ∈ elements, element.Blank :=
  ⟨fun blank => by cases blank; assumption, .array⟩

theorem not_blank_scalar {payload : Scalar} : ¬ (Datum.scalar type payload).Blank := nofun

theorem not_mixed_scalar {payload : Scalar} : ¬ (Datum.scalar type payload).Mixed := nofun

/-- What has no scalars keeps its type. -/
theorem HasType.promotes_of_blank (typed : datum.HasType type) (blank : datum.Blank) :
    datum.Promotes type := by
  induction type generalizing datum with
  | scalar kind =>
      obtain ⟨payload, rfl, _⟩ := typed.exists_scalar
      cases blank
  | array expected hypothesis =>
      obtain ⟨elements, rfl, types⟩ := typed.exists_array
      rw [blank_array_iff] at blank
      by_cases empty : elements = []
      · subst empty
        exact .nil
      · exact .of_forall empty fun element inside =>
          hypothesis (types element inside) (blank element inside)

theorem HasType.promotes_of_not_blank (typed : datum.HasType type)
    (regular : datum.Regular type) (filled : ¬ datum.Blank) :
    datum.Promotes type.promoted := by
  induction type generalizing datum with
  | scalar kind =>
      obtain ⟨payload, rfl, _⟩ := typed.exists_scalar
      exact .scalar
  | array expected hypothesis =>
      obtain ⟨elements, rfl, types⟩ := typed.exists_array
      rw [blank_array_iff] at filled
      push Not at filled
      obtain ⟨witness, among, full⟩ := filled
      refine .of_forall (List.ne_nil_of_mem among) fun element inside => ?_
      have within : element.Regular expected :=
        regular.imp Ty.array.inj fun alike mixed => alike (.within inside mixed)
      by_cases blank : element.Blank
      · rcases regular with reals | alike
        · rw [Ty.array.inj reals]
          exact (types element inside).promotes_of_blank blank
        · exact absurd (.here inside among blank full) alike
      · exact hypothesis (types element inside) within blank

/-- The type of the result tells whether there are scalars, unless these are reals already. -/
theorem HasType.type_of_promotes (typed : datum.HasType type) (promotes : datum.Promotes other) :
    datum.Blank ∧ other = type ∨ ¬ datum.Blank ∧ other = type.promoted := by
  induction type generalizing datum other with
  | scalar kind =>
      obtain ⟨payload, rfl, _⟩ := typed.exists_scalar
      cases promotes
      exact .inr ⟨not_blank_scalar, rfl⟩
  | array expected hypothesis =>
      obtain ⟨elements, rfl, types⟩ := typed.exists_array
      cases promotes with
      | nil => exact .inl ⟨.array (List.forall_mem_nil _), rfl⟩
      | @cons _ common first rest promote =>
          have parts (element : Datum) (inside : element ∈ first :: rest) :=
            hypothesis (types element inside) (promote element inside)
          rw [blank_array_iff]
          by_cases blank : ∀ element ∈ first :: rest, element.Blank
          · rcases parts first List.mem_cons_self with ⟨_, rfl⟩ | ⟨full, _⟩
            · exact .inl ⟨blank, rfl⟩
            · exact absurd (blank first List.mem_cons_self) full
          · have filled := blank
            push Not at filled
            obtain ⟨element, inside, full⟩ := filled
            rcases parts element inside with ⟨also, _⟩ | ⟨_, rfl⟩
            · exact absurd also full
            · exact .inr ⟨blank, rfl⟩

theorem HasType.regular_of_promotes (typed : datum.HasType type) (promotes : datum.Promotes other) :
    datum.Regular type := by
  induction type generalizing datum other with
  | scalar kind =>
      obtain ⟨payload, rfl, _⟩ := typed.exists_scalar
      exact .inr not_mixed_scalar
  | array expected hypothesis =>
      obtain ⟨elements, rfl, types⟩ := typed.exists_array
      by_cases reals : expected.promoted = expected
      · exact .inl (congrArg Ty.array reals)
      · refine .inr fun mixed => ?_
        cases promotes with
        | nil =>
            cases mixed with
            | here inside => cases inside
            | within inside => cases inside
        | cons promote =>
            cases mixed with
            | here inside among blank full =>
                rcases (types _ inside).type_of_promotes (promote _ inside) with
                  ⟨_, same⟩ | ⟨filled, _⟩
                · rcases (types _ among).type_of_promotes (promote _ among) with ⟨also, _⟩ | ⟨_, also⟩
                  · exact full also
                  · exact reals (also.symm.trans same)
                · exact filled blank
            | within inside mixed =>
                rcases hypothesis (types _ inside) (promote _ inside) with same | regular
                · exact reals same
                · exact regular mixed

theorem HasType.promotes_iff (typed : datum.HasType type) :
    (∃ other, datum.Promotes other) ↔ datum.Regular type := by
  constructor
  · rintro ⟨other, promotes⟩
    exact typed.regular_of_promotes promotes
  · intro regular
    by_cases blank : datum.Blank
    · exact ⟨type, typed.promotes_of_blank blank⟩
    · exact ⟨type.promoted, typed.promotes_of_not_blank regular blank⟩

theorem HasType.sameShape (typed : datum.HasType type) : datum.SameShape datum := by
  induction type generalizing datum with
  | scalar kind =>
      obtain ⟨payload, rfl, _⟩ := typed.exists_scalar
      exact .scalar
  | array expected hypothesis =>
      obtain ⟨elements, rfl, types⟩ := typed.exists_array
      refine .array rfl fun index first second there also => ?_
      cases there.symm.trans also
      exact hypothesis (types first (List.mem_of_getElem? there))

/-! Arrays of results. -/

theorem makeArray_outcome (expected : Ty)
    (typed : ∀ element ∈ elements, ∃ found, element.HasType found) :
    ((∀ element ∈ elements, element.HasType expected) ∧
      makeArray (.array expected) elements = .ok (.array (.array expected) elements)) ∨
    ((∃ element ∈ elements, ¬ element.HasType expected) ∧ ∃ found,
      makeArray (.array expected) elements = .error (.elementTypeMismatch expected.display found)) := by
  simp only [makeArray]
  rcases forM_outcome _ elements with ⟨checked, each⟩ | ⟨element, inside, cause, failed, checked⟩
  · refine .inl ⟨fun element inside => ?_, by rw [checked]; rfl⟩
    obtain ⟨found, has⟩ := typed element inside
    have checks := each element inside
    simp only [has.has] at checks
    split at checks
    · cases checks
    · next same => exact not_not.mp same ▸ has
  · obtain ⟨found, has⟩ := typed element inside
    simp only [has.has] at failed
    split at failed
    · next differ =>
        cases failed
        refine .inr ⟨⟨element, inside, fun also => differ ?_⟩, found.display, by rw [checked]; rfl⟩
        exact Option.some.inj (has.has.symm.trans also.has)
    · cases failed

/-- An operator on numbers has made the result of the operand: it has the same shape, at each path the
number that is given there, and the type of results. -/
structure Mapped (operand result : Datum) (numbers : List Nat → Option Float) : Prop where
  shape : operand.SameShape result
  leaves : ∀ path, result.leaf? path = (numbers path).map .real
  typed : ∃ type, operand.Promotes type ∧ result.HasType type

variable {results : List Datum} {numbers : List Nat → Option Float}

theorem Mapped.real {payload : Scalar} {number : Float} (here : numbers [] = some number)
    (nowhere : ∀ index path, numbers (index :: path) = none) :
    (Datum.scalar type payload).Mapped (.real number) numbers where
  shape := .scalar
  leaves := by
    rintro (_ | ⟨index, path⟩)
    · rw [here]
      rfl
    · rw [nowhere]
      rfl
  typed := ⟨.real, .scalar, .scalar (.real number)⟩

/-- Each element of a list has a result in the other, and nothing is given elsewhere. -/
structure MappedAll (elements results : List Datum) (numbers : List Nat → Option Float) : Prop where
  length : results.length = elements.length
  each : ∀ (index : Nat) (element : Datum), elements[index]? = some element →
    ∃ result, results[index]? = some result ∧
      element.Mapped result fun path => numbers (index :: path)
  here : numbers [] = none
  outside : ∀ index path, elements[index]? = none → numbers (index :: path) = none

namespace MappedAll

theorem exists_mapped (all : MappedAll elements results numbers) {result : Datum}
    (inside : result ∈ results) : ∃ element ∈ elements, ∃ numbers, element.Mapped result numbers := by
  obtain ⟨index, there⟩ := List.getElem?_of_mem inside
  obtain ⟨inRange, _⟩ := List.getElem?_eq_some_iff.mp there
  have stands := List.getElem?_eq_getElem (all.length ▸ inRange)
  obtain ⟨other, also, mapped⟩ := all.each index _ stands
  cases there.symm.trans also
  exact ⟨_, List.mem_of_getElem? stands, _, mapped⟩

theorem shape (all : MappedAll elements results numbers) :
    (Datum.array type elements).SameShape (.array other results) := by
  refine .array all.length.symm fun index element result there also => ?_
  obtain ⟨other, stands, mapped⟩ := all.each index element there
  cases also.symm.trans stands
  exact mapped.shape

theorem leaves (all : MappedAll elements results numbers) (path : List Nat) :
    (Datum.array type results).leaf? path = (numbers path).map .real := by
  cases path with
  | nil =>
      rw [all.here]
      rfl
  | cons index path =>
      rw [leaf?]
      cases there : elements[index]? with
      | none =>
          have beyond := all.length ▸ List.getElem?_eq_none_iff.mp there
          rw [List.getElem?_eq_none beyond, all.outside index path there]
          rfl
      | some element =>
          obtain ⟨result, stands, mapped⟩ := all.each index element there
          rw [stands]
          exact mapped.leaves path

/-- The results have the type that the elements promise. -/
theorem forall_hasType_iff (all : MappedAll elements results numbers) :
    (∀ result ∈ results, result.HasType type) ↔ ∀ element ∈ elements, element.Promotes type := by
  constructor
  · intro typed element inside
    obtain ⟨index, there⟩ := List.getElem?_of_mem inside
    obtain ⟨result, stands, mapped⟩ := all.each index element there
    obtain ⟨found, promotes, also⟩ := mapped.typed
    have same := also.has.symm.trans (typed result (List.mem_of_getElem? stands)).has
    exact Option.some.inj same ▸ promotes
  · intro promote result inside
    obtain ⟨element, among, _, mapped⟩ := all.exists_mapped inside
    obtain ⟨found, promotes, also⟩ := mapped.typed
    exact promotes.unique (promote element among) ▸ also

end MappedAll

/-- Results of the elements make a result of the array, if they have one type. -/
theorem collect_outcome (expected : Ty) (all : MappedAll elements results numbers) :
    (∃ result, collect (.array expected) results = .ok result ∧
      (Datum.array (.array expected) elements).Mapped result numbers) ∨
    ((¬ ∃ type, (Datum.array (.array expected) elements).Promotes type) ∧
      ∃ error, collect (.array expected) results = .error error ∧ error.Uneven) := by
  cases results with
  | nil =>
      obtain rfl := List.length_eq_zero_iff.mp all.length.symm
      exact .inl ⟨_, rfl, all.shape, all.leaves, _, .nil, .array (List.forall_mem_nil _)⟩
  | cons result others =>
      have typed (other : Datum) (inside : other ∈ result :: others) : ∃ found, other.HasType found := by
        obtain ⟨_, _, _, mapped⟩ := all.exists_mapped inside
        exact mapped.typed.imp fun _ typed => typed.2
      obtain ⟨type, has⟩ := typed result List.mem_cons_self
      have made : collect (.array expected) (result :: others) =
          MachineError.ofValueResult (makeArray (.array type) (result :: others)) := by
        simp only [collect, List.head?_cons, Option.bind_some, has.has]
      rw [made]
      rcases makeArray_outcome type typed with ⟨alike, done⟩ | ⟨differs, found, failed⟩
      · rw [done]
        refine .inl ⟨_, rfl, all.shape, all.leaves, .array type, .of_forall ?_ ?_, .array alike⟩
        · rintro rfl
          cases all.length
        · exact all.forall_hasType_iff.mp alike
      · rw [failed]
        refine .inr ⟨?_, _, rfl, .mk⟩
        rintro ⟨_, promotes⟩
        cases promotes with
        | nil => cases all.length
        | cons promote =>
            have alike := all.forall_hasType_iff.mpr promote
            obtain ⟨other, inside, differs⟩ := differs
            have same := has.has.symm.trans (alike result List.mem_cons_self).has
            exact differs (Option.some.inj same ▸ alike other inside)

/-! The operators. -/

/-- The numbers that a binary operator makes of the leaves of its operands. -/
def combined (operator : ArithOp) (left right : Datum) (path : List Nat) : Option Float :=
  Option.map₂ (fun first second => operator.apply first.toReal second.toReal) (left.leaf? path)
    (right.leaf? path)

theorem arith_arrays (operator : ArithOp) (leftType rightType : Ty) {lefts rights : List Datum}
    (length : lefts.length = rights.length) :
    arith operator (.array leftType lefts) (.array rightType rights) = (do
      collect leftType (← (lefts.zip rights).mapM fun pair => arith operator pair.1 pair.2)) := by
  have map := arithAll_map operator id (arith operator) (fun _ _ => rfl) lefts rights
  rw [List.map_id, List.map_id] at map
  rw [arith, if_neg (not_not.mpr length), map]

/-- What becomes of two operands. -/
inductive Outcome (operator : ArithOp) (left right : Datum) : Prop
  | mapped {result : Datum} : arith operator left right = .ok result → left.SameShape right →
      left.Mapped result (combined operator left right) → Outcome operator left right
  | misshapen {error : MachineError} : arith operator left right = .error error →
      ¬ left.SameShape right → error.Misshapen → Outcome operator left right
  | uneven {error : MachineError} : arith operator left right = .error error →
      (¬ ∃ type, left.Promotes type) → error.Uneven → Outcome operator left right

/-- The first pair of elements that has no result decides about the arrays. -/
theorem Outcome.of_pair {leftType rightType : Ty} {lefts rights : List Datum} {index : Nat}
    {cause : MachineError} (outcome : Outcome operator left right)
    (there : lefts[index]? = some left) (also : rights[index]? = some right)
    (failed : arith operator left right = .error cause)
    (whole : arith operator (.array leftType lefts) (.array rightType rights) = .error cause) :
    Outcome operator (.array leftType lefts) (.array rightType rights) := by
  cases outcome with
  | mapped made => cases failed.symm.trans made
  | misshapen found differ misshapen =>
      cases failed.symm.trans found
      refine .misshapen whole ?_ misshapen
      rintro (_ | ⟨_, each⟩)
      exact differ (each index _ _ there also)
  | uneven found none uneven =>
      cases failed.symm.trans found
      refine .uneven whole ?_ uneven
      rintro ⟨_, promotes⟩
      cases promotes with
      | nil => cases there
      | cons promote => exact none ⟨_, promote _ (List.mem_of_getElem? there)⟩

theorem Outcome.array {rightType : Ty} {lefts rights : List Datum}
    (length : lefts.length = rights.length)
    (each : ∀ (index : Nat) (first second : Datum), lefts[index]? = some first →
      rights[index]? = some second → Outcome operator first second) :
    Outcome operator (.array (.array expected) lefts) (.array rightType rights) := by
  rcases mapM_outcome (fun pair : Datum × Datum => arith operator pair.1 pair.2) (lefts.zip rights)
    with ⟨results, all, same, results_of⟩ | ⟨⟨first, second⟩, inside, cause, failed, all⟩
  · rw [List.length_zip, length, Nat.min_self] at same
    have parts (index : Nat) (first second : Datum) (there : lefts[index]? = some first)
        (also : rights[index]? = some second) : first.SameShape second ∧
          ∃ result, results[index]? = some result ∧
            first.Mapped result (combined operator first second) := by
      have paired : (lefts.zip rights)[index]? = some (first, second) :=
        List.getElem?_zip_eq_some.mpr ⟨there, also⟩
      obtain ⟨result, stands, done⟩ := results_of index (first, second) paired
      cases each index first second there also with
      | mapped made alike mapped =>
          cases done.symm.trans made
          exact ⟨alike, result, stands, mapped⟩
      | misshapen failed => cases done.symm.trans failed
      | uneven failed => cases done.symm.trans failed
    have mapped : MappedAll lefts results
        (combined operator (.array (.array expected) lefts) (.array rightType rights)) := by
      refine ⟨same.trans length.symm, fun index first there => ?_, rfl, fun index path there => ?_⟩
      · obtain ⟨inRange, _⟩ := List.getElem?_eq_some_iff.mp there
        have also := List.getElem?_eq_getElem (length ▸ inRange)
        obtain ⟨_, result, stands, mapped⟩ := parts index first _ there also
        refine ⟨result, stands, ?_⟩
        simp only [combined, leaf?, there, also, Option.bind_some]
        exact mapped
      · simp only [combined, leaf?, there, Option.bind_none, Option.map₂_none_left]
    have whole := arith_arrays operator (.array expected) rightType length
    rw [all] at whole
    rcases collect_outcome expected mapped with ⟨result, done, mapped⟩ | ⟨none, error, failed, uneven⟩
    · refine .mapped (whole.trans done) (.array length ?_) mapped
      exact fun index first second there also => (parts index first second there also).1
    · exact .uneven (whole.trans failed) none uneven
  · obtain ⟨index, paired⟩ := List.getElem?_of_mem inside
    obtain ⟨there, also⟩ := List.getElem?_zip_eq_some.mp paired
    refine (each index first second there also).of_pair there also failed ?_
    rw [arith_arrays operator _ rightType length, all]
    rfl

theorem HasType.outcome (operator : ArithOp) (one : left.HasType type) (two : right.HasType other) :
    Outcome operator left right := by
  induction type generalizing left right other with
  | scalar kind =>
      obtain ⟨first, rfl, _⟩ := one.exists_scalar
      cases other with
      | scalar other =>
          obtain ⟨second, rfl, _⟩ := two.exists_scalar
          exact .mapped rfl .scalar (.real rfl fun _ _ => rfl)
      | array other =>
          obtain ⟨rights, rfl, _⟩ := two.exists_array
          exact .misshapen rfl nofun .types
  | array expected hypothesis =>
      obtain ⟨lefts, rfl, ones⟩ := one.exists_array
      cases other with
      | scalar other =>
          obtain ⟨second, rfl, _⟩ := two.exists_scalar
          exact .misshapen rfl nofun .types
      | array other =>
          obtain ⟨rights, rfl, twos⟩ := two.exists_array
          by_cases length : lefts.length = rights.length
          · exact .array length fun index first second there also =>
              hypothesis (ones first (List.mem_of_getElem? there))
                (twos second (List.mem_of_getElem? also))
          · refine .misshapen (by rw [arith, if_pos length]) ?_ .lengths
            rintro (_ | ⟨same, _⟩)
            exact length same

theorem unary_array {elements : List Datum} {operator : UnaryOp} {compute : Float → Float}
    (computes : operator.Computes compute) : unary operator (.array type elements) = (do
      collect type (← elements.mapM (unary operator))) := by
  have map := unaryAll_map operator id (unary operator) (fun _ => rfl) elements
  rw [List.map_id] at map
  cases computes with
  | neg => simp [unary, map]
  | abs => simp [unary, map]

theorem HasType.unary_outcome {operator : UnaryOp} {compute : Float → Float}
    (computes : operator.Computes compute) (typed : operand.HasType type) :
    (∃ result, unary operator operand = .ok result ∧
      operand.Mapped result fun path => (operand.leaf? path).map (compute ·.toReal)) ∨
    ((¬ ∃ result, operand.Promotes result) ∧ ∃ error, unary operator operand = .error error ∧
      error.Uneven) := by
  induction type generalizing operand with
  | scalar kind =>
      obtain ⟨payload, rfl, _⟩ := typed.exists_scalar
      cases computes <;> exact .inl ⟨_, rfl, .real rfl fun _ _ => rfl⟩
  | array expected hypothesis =>
      obtain ⟨elements, rfl, types⟩ := typed.exists_array
      rw [unary_array computes]
      rcases mapM_outcome (unary operator) elements with
        ⟨results, all, length, each⟩ | ⟨element, inside, cause, failed, all⟩
      · have mapped : MappedAll elements results fun path =>
            ((Datum.array (.array expected) elements).leaf? path).map (compute ·.toReal) := by
          refine ⟨length, fun index element there => ?_, rfl, fun index path there => ?_⟩
          · obtain ⟨result, stands, done⟩ := each index element there
            rcases hypothesis (types element (List.mem_of_getElem? there)) with
              ⟨_, made, mapped⟩ | ⟨_, _, failed, _⟩
            · cases done.symm.trans made
              refine ⟨result, stands, ?_⟩
              simpa only [leaf?, there, Option.bind_some] using mapped
            · cases done.symm.trans failed
          · simp only [leaf?, there, Option.bind_none, Option.map_none]
        rw [all]
        exact collect_outcome expected mapped
      · rw [all]
        rcases hypothesis (types element inside) with ⟨_, made, _⟩ | ⟨none, error, found, uneven⟩
        · cases failed.symm.trans made
        · cases failed.symm.trans found
          refine .inr ⟨?_, _, rfl, uneven⟩
          rintro ⟨_, promotes⟩
          cases promotes with
          | nil => cases inside
          | cons promote => exact none ⟨_, promote _ inside⟩

end Datum

namespace Heap

open Datum (combined)

variable {heap : Heap}

/-- Operands of one shape give a result of that shape with the result of the operator at each leaf,
if the left one is regular, and otherwise have elements with results of two types; operands of
different shapes are refused. The unary operators on numbers do the same with one operand. The result
is a new value, beside which all others keep what they hold. -/
theorem operators_elementwise (sound : heap.Sound) :
    (∀ operator left right type other, (heap.view left).HasType type →
      (heap.view right).HasType other →
        ((heap.view left).SameShape (heap.view right) → (heap.view left).Regular type →
          ∃ result, heap.arith operator left right = .ok result ∧
            (heap.view left).Mapped result (combined operator (heap.view left) (heap.view right))) ∧
        ((heap.view left).SameShape (heap.view right) → ¬ (heap.view left).Regular type →
          ∃ error, heap.arith operator left right = .error error ∧ error.Uneven) ∧
        (¬ (heap.view left).SameShape (heap.view right) →
          ∃ error, heap.arith operator left right = .error error ∧
            (error.Misshapen ∨ error.Uneven ∧ ¬ (heap.view left).Regular type))) ∧
    (∀ operator compute, UnaryOp.Computes operator compute → ∀ operand type,
      (heap.view operand).HasType type →
        ((heap.view operand).Regular type → ∃ result, heap.unary operator operand = .ok result ∧
          (heap.view operand).Mapped result
            fun path => ((heap.view operand).leaf? path).map (compute ·.toReal)) ∧
        (¬ (heap.view operand).Regular type →
          ∃ error, heap.unary operator operand = .error error ∧ error.Uneven)) ∧
    ∀ result, (build result heap).2.view (build result heap).1 = result ∧
      ∀ value, heap.Has value → (build result heap).2.view value = heap.view value := by
  refine ⟨fun operator left right type other one two => ?_,
    fun operator compute computes operand type typed => ?_, fun result => ?_⟩
  · rw [arith_eq, ← one.promotes_iff]
    cases one.outcome operator two with
    | mapped made alike mapped =>
        obtain ⟨found, promotes, _⟩ := mapped.typed
        exact ⟨fun _ _ => ⟨_, made, mapped⟩, fun _ none => absurd ⟨found, promotes⟩ none,
          fun differ => absurd alike differ⟩
    | misshapen failed differ misshapen =>
        exact ⟨fun alike => absurd alike differ, fun alike => absurd alike differ,
          fun _ => ⟨_, failed, .inl misshapen⟩⟩
    | uneven failed none uneven =>
        exact ⟨fun _ promotes => absurd promotes none, fun _ _ => ⟨_, failed, uneven⟩,
          fun _ => ⟨_, failed, .inr ⟨uneven, none⟩⟩⟩
  · rw [unary_eq, ← typed.promotes_iff]
    rcases typed.unary_outcome computes with ⟨result, made, mapped⟩ | ⟨none, failed⟩
    · obtain ⟨found, promotes, _⟩ := mapped.typed
      exact ⟨fun _ => ⟨result, made, mapped⟩, fun none => absurd ⟨found, promotes⟩ none⟩
    · exact ⟨fun promotes => absurd promotes none, fun _ => failed⟩
  · have made := made_build result heap sound
    exact ⟨made.view, fun value known => made.extended.view (sound value known)⟩

/-- An array of words, the first of which is empty. -/
def words : Datum := .array (.array .string) [.string "", .string "a"]

theorem hasType_words : words.HasType (.array .string) := by
  refine .array fun element inside => ?_
  have typed (text : String) : (Datum.string text).HasType .string := by
    refine .array fun character among => ?_
    obtain ⟨letter, _, rfl⟩ := List.mem_map.mp among
    exact .scalar (.char letter)
  rcases List.mem_pair.mp inside with rfl | rfl
  · exact typed ""
  · exact typed "a"

/-- The empty word remains a string while the other one becomes an array of reals. -/
theorem operators_fail_words :
    words.HasType (.array .string) ∧ words.SameShape words ∧
    ∃ heap value, Sound heap ∧ heap.view value = words ∧
      (∀ operator, heap.arith operator value value =
        .error (.value (.elementTypeMismatch "string" "real[]"))) ∧
      ∀ operator compute, UnaryOp.Computes operator compute → heap.unary operator value =
        .error (.value (.elementTypeMismatch "string" "real[]")) := by
  have made := made_build words .empty sound_empty
  refine ⟨hasType_words, hasType_words.sameShape, _, _, made.sound, made.view, fun operator => ?_,
    fun operator compute computes => ?_⟩
  · rw [arith_eq, made.view]
    rfl
  · rw [unary_eq, made.view]
    cases computes <;> rfl

/-- Rows of reals, the first of which is empty, go with the words. -/
theorem operators_elementwise_rows :
    let rows : Datum := .array (.array (.array .real)) [.reals [], .reals [1.0]]
    ∃ heap left right, Sound heap ∧ heap.view left = rows ∧ heap.view right = words ∧
      rows.HasType (.array (.array .real)) ∧ rows.SameShape words ∧
      rows.Regular (.array (.array .real)) ∧
      ∀ operator, ∃ result, heap.arith operator left right = .ok result ∧ rows.SameShape result ∧
        result.leaf? [1, 0] = some (.real (ArithOp.apply operator 1.0 (Float.ofNat 97))) := by
  intro rows
  have typed : rows.HasType (.array (.array .real)) := by
    refine .array fun element inside => ?_
    have typed (numbers : List Float) : (Datum.reals numbers).HasType (.array .real) := by
      refine .array fun leaf among => ?_
      obtain ⟨number, _, rfl⟩ := List.mem_map.mp among
      exact .scalar (.real number)
    rcases List.mem_pair.mp inside with rfl | rfl
    · exact typed []
    · exact typed [1.0]
  have shape : rows.SameShape words := by
    refine .array rfl ?_
    rintro (_ | _ | index) first second there also <;> cases there <;> cases also
    · exact .array rfl nofun
    · refine .array rfl ?_
      rintro (_ | index) first second there also
      · cases there
        cases also
        exact .scalar
      · cases there
  have regular : rows.Regular (.array (.array .real)) := .inl rfl
  have left := made_build rows .empty sound_empty
  have right := made_build words _ left.sound
  have kept := left.extend right.sound right.extended
  refine ⟨_, _, _, right.sound, kept.view, right.view, typed, shape, regular, fun operator => ?_⟩
  have both := (operators_elementwise right.sound).1 operator _ _ _ _ (kept.view ▸ typed)
    (right.view ▸ hasType_words)
  rw [kept.view, right.view] at both
  obtain ⟨result, made, mapped⟩ := both.1 shape regular
  exact ⟨result, made, mapped.shape, mapped.leaves [1, 0]⟩

end Heap

end CoopScript
