import CoopScript.Proofs.Heap.Commands
import CoopScript.Proofs.Heap.Descents
import CoopScript.Proofs.Heap.Typing
import CoopScript.Proofs.Number.Order
import CoopScript.Value.Comparison

/-!
The order of values. Comparing is symmetric in whether it succeeds, fails or goes on for ever, and what
it says turns over with its operands. On the well-typed values of one type in which every real is a
number it is a total preorder, lexicographic at every depth.
-/

namespace CoopScript

open Binary64 (Rank rank? exists_rank order_eq_compare order_swap)

/-! Scalars. -/

namespace Scalar

def Numeric : Scalar → Prop
  | real number => number.isNaN = false
  | char _ => True
  | boolean _ => True

/-- Scalars of one kind that are numerically equal. -/
def Same : Scalar → Scalar → Prop
  | real left, real right => (left == right) = true
  | char left, char right => left = right
  | boolean left, boolean right => left = right
  | _, _ => False

/-- Scalars of one kind, the first of which is numerically less; false is less than true. -/
def Less : Scalar → Scalar → Prop
  | real left, real right => left < right
  | char left, char right => left < right
  | boolean left, boolean right => left < right
  | _, _ => False

/-- Where a scalar stands among those of its kind. -/
def rank? : Scalar → Option Rank
  | real number => Binary64.rank? number
  | char character => some (.make character.toNat 0 0)
  | boolean value => some (.make value.toNat 0 0)

variable {left right : Scalar} {first second : Rank} {ordering : Ordering}

theorem Numeric.exists_rank (numeric : left.Numeric) : ∃ rank, left.rank? = some rank := by
  cases left with
  | real number => exact Binary64.exists_rank numeric
  | char character => exact ⟨_, rfl⟩
  | boolean value => exact ⟨_, rfl⟩

theorem order?_swap (left right : Scalar) :
    right.order? left = (left.order? right).map Ordering.swap := by
  cases left <;> cases right <;> try rfl
  case real.real left right => exact congrArg some (order_swap left right)
  case char.char left right => exact congrArg some (Nat.compare_swap ..).symm
  case boolean.boolean left right => exact congrArg some (Nat.compare_swap ..).symm

theorem compare_make_natCast (left right : Nat) :
    compare (Rank.make left 0 0) (Rank.make right 0 0) = compare left right := by
  rw [Binary64.Rank.compare_make, Binary64.compare_natCast]
  cases compare left right <;> rfl

/-- Scalars of one kind are compared by their ranks. -/
theorem order?_eq_compare (kind : left.kind = right.kind) (one : left.rank? = some first)
    (two : right.rank? = some second) : left.order? right = some (compare first second) := by
  cases left <;> cases right <;> try cases kind
  case real.real left right => exact congrArg some (order_eq_compare one two)
  case char.char left right =>
    cases one
    cases two
    exact congrArg some (compare_make_natCast ..).symm
  case boolean.boolean left right =>
    cases one
    cases two
    exact congrArg some (compare_make_natCast ..).symm

theorem kind_of_order? (compared : left.order? right = some ordering) : left.kind = right.kind := by
  cases left <;> cases right <;> first | rfl | cases compared

theorem same_iff (numeric : left.Numeric) (further : right.Numeric) :
    left.Same right ↔ left.order? right = some .eq := by
  cases left <;> cases right <;> try exact iff_of_false id nofun
  case real.real left right =>
    obtain ⟨first, one⟩ := exists_rank numeric
    obtain ⟨second, two⟩ := exists_rank further
    rw [Same, Binary64.beq_iff, order?, order_eq_compare one two, Option.some.injEq,
      compare_eq_iff_eq, one, two]
    constructor
    · rintro ⟨_, same, also⟩
      exact Option.some.inj (same.trans also.symm)
    · intro same
      exact ⟨_, rfl, same ▸ rfl⟩
  case char.char left right => simp [Same, order?, Char.toNat_inj]
  case boolean.boolean left right => cases left <;> cases right <;> simp [Same, order?]

theorem less_iff (numeric : left.Numeric) (further : right.Numeric) :
    left.Less right ↔ left.order? right = some .lt := by
  cases left <;> cases right <;> try exact iff_of_false id nofun
  case real.real left right =>
    obtain ⟨first, one⟩ := exists_rank numeric
    obtain ⟨second, two⟩ := exists_rank further
    rw [Less, Binary64.lt_iff, order?, order_eq_compare one two, Option.some.injEq,
      compare_lt_iff_lt]
    constructor
    · rintro ⟨low, high, lower, higher, less⟩
      cases one.symm.trans lower
      cases two.symm.trans higher
      exact less
    · intro less
      exact ⟨first, second, one, two, less⟩
  case char.char left right =>
    simp only [Less, order?, Option.some.injEq, Nat.compare_eq_lt]
    exact UInt32.lt_iff_toNat_lt
  case boolean.boolean left right =>
    simp only [Less, order?, Option.some.injEq, Nat.compare_eq_lt]
    cases left <;> cases right <;> decide

/-- If neither is greater than the next of three scalars, the first difference decides. -/
theorem order?_trans {mid : Scalar} {later : Ordering} (numeric : left.Numeric)
    (between : mid.Numeric) (further : right.Numeric) (early : left.order? mid = some ordering)
    (late : mid.order? right = some later) (rises : ordering ≠ .gt) (goesOn : later ≠ .gt) :
    left.order? right = some (ordering.then later) := by
  obtain ⟨first, one⟩ := numeric.exists_rank
  obtain ⟨second, two⟩ := between.exists_rank
  obtain ⟨third, three⟩ := further.exists_rank
  have kind := kind_of_order? early
  have same := kind_of_order? late
  rw [order?_eq_compare kind one two, Option.some.injEq] at early
  rw [order?_eq_compare same two three, Option.some.injEq] at late
  rw [order?_eq_compare (kind.trans same) one three, Option.some.injEq, compare_iff]
  subst early late
  cases least : compare first second with
  | gt => exact absurd least rises
  | eq =>
      obtain rfl := compare_eq_iff_eq.mp least
      exact (compare_iff _ _).mp rfl
  | lt =>
      have less := compare_lt_iff_lt.mp least
      exact less.trans_le (compare_le_iff_le.mp goesOn)

theorem order?_self (payload : Scalar) : payload.order? payload = some .eq := by
  cases payload with
  | real number =>
      refine congrArg some ?_
      cases ranked : Binary64.rank? number with
      | none => exact Binary64.order_of_rank?_eq_none (.inl ranked)
      | some rank => exact (order_eq_compare ranked ranked).trans (compare_eq_iff_eq.mpr rfl)
  | char character => exact congrArg some (compare_eq_iff_eq.mpr rfl)
  | boolean value => exact congrArg some (compare_eq_iff_eq.mpr rfl)

theorem order?_total (kind : left.kind = right.kind) :
    ∃ ordering, left.order? right = some ordering := by
  cases left <;> cases right <;> first | exact ⟨_, rfl⟩ | cases kind

end Scalar

/-! Lists. -/

/-- Of two lists that are the same so far, the first ends where the second goes on, or has the lesser
element where they first differ. -/
inductive Before {Element : Type} (same less : Element → Element → Prop) :
    List Element → List Element → Prop
  | shorter {start also rest : List Element} {other : Element} : List.Forall₂ same start also →
      Before same less start (also ++ other :: rest)
  | lesser {start also rest others : List Element} {element other : Element} :
      List.Forall₂ same start also → less element other →
      Before same less (start ++ element :: rest) (also ++ other :: others)

/-- What a comparison says once its operands change places, which changes its errors too. -/
def turned {Error : Type} (turn : Error → Error) : Except Error Ordering → Except Error Ordering
  | .ok ordering => .ok ordering.swap
  | .error cause => .error (turn cause)

section Lexicographic

variable {Element Error Other : Type} {compare : Element → Element → Except Error Ordering}
  {same less : Element → Element → Prop} {left mid right : List Element}
  {ordering later : Ordering}

theorem lexicographic_turned {turn : Error → Error}
    (turns : ∀ element other, compare other element = turned turn (compare element other))
    (left right : List Element) :
    lexicographic compare right left = turned turn (lexicographic compare left right) := by
  induction left generalizing right with
  | nil => cases right <;> rfl
  | cons element rest hypothesis =>
      cases right with
      | nil => rfl
      | cons other others =>
          rw [lexicographic, lexicographic, turns]
          cases compare element other with
          | error cause => rfl
          | ok ordering => cases ordering <;> first | rfl | exact hypothesis others

theorem lexicographic_mapError {change : Error → Other}
    {further : Element → Element → Except Other Ordering}
    (agree : ∀ element ∈ left, ∀ other ∈ right,
      further element other = (compare element other).mapError change) :
    lexicographic further left right = (lexicographic compare left right).mapError change := by
  induction left generalizing right with
  | nil => cases right <;> rfl
  | cons element rest hypothesis =>
      cases right with
      | nil => rfl
      | cons other others =>
          rw [lexicographic, lexicographic, agree element List.mem_cons_self other List.mem_cons_self]
          cases compare element other with
          | error cause => rfl
          | ok ordering =>
              cases ordering <;> first | rfl | skip
              exact hypothesis fun element inside other also =>
                agree element (List.mem_cons_of_mem _ inside) other (List.mem_cons_of_mem _ also)

/-- A comparison of elements that differs only where there was one certain error. -/
theorem lexicographic_stable {further : Element → Element → Except Error Ordering} {cause : Error}
    (stable : ∀ element ∈ left, ∀ other ∈ right, compare element other ≠ .error cause →
      further element other = compare element other)
    (ends : lexicographic compare left right ≠ .error cause) :
    lexicographic further left right = lexicographic compare left right := by
  induction left generalizing right with
  | nil => cases right <;> rfl
  | cons element rest hypothesis =>
      cases right with
      | nil => rfl
      | cons other others =>
          rw [lexicographic] at ends
          have first := stable element List.mem_cons_self other List.mem_cons_self
          cases compared : compare element other with
          | error other =>
              rw [compared] at ends first
              rw [lexicographic, lexicographic, first ends, compared]
          | ok ordering =>
              rw [compared] at ends first
              have differs : (.ok ordering : Except Error Ordering) ≠ .error cause := by rintro ⟨⟩
              rw [lexicographic, lexicographic, first differs, compared]
              cases ordering <;> first | rfl | skip
              exact hypothesis (fun element inside other also =>
                stable element (List.mem_cons_of_mem _ inside) other (List.mem_cons_of_mem _ also)) ends

theorem Before.cons {element other : Element} (alike : same element other)
    (before : Before same less left right) :
    Before same less (element :: left) (other :: right) := by
  cases before with
  | shorter agree => exact .shorter (.cons alike agree)
  | lesser agree first => exact .lesser (.cons alike agree) first

theorem before_cons_iff {element other : Element} :
    Before same less (element :: left) (other :: right) ↔
      less element other ∨ same element other ∧ Before same less left right := by
  constructor
  · intro before
    generalize longer : element :: left = first, also : other :: right = second at before
    cases before with
    | shorter agree =>
        cases agree with
        | nil => cases longer
        | cons alike agree =>
            cases longer
            cases also
            exact .inr ⟨alike, .shorter agree⟩
    | lesser agree lower =>
        cases agree with
        | nil =>
            cases longer
            cases also
            exact .inl lower
        | cons alike agree =>
            cases longer
            cases also
            exact .inr ⟨alike, .lesser agree lower⟩
  · rintro (lower | ⟨alike, before⟩)
    · exact .lesser .nil lower
    · exact before.cons alike

theorem not_before_nil : ¬ Before same less left [] := by
  intro before
  generalize none : [] = right at before
  cases before with
  | shorter => exact List.append_ne_nil_of_right_ne_nil _ (List.cons_ne_nil _ _) none.symm
  | lesser => exact List.append_ne_nil_of_right_ne_nil _ (List.cons_ne_nil _ _) none.symm

theorem lexicographic_cons_eq_ok_iff {element other : Element} :
    lexicographic compare (element :: left) (other :: right) = .ok ordering ↔
      compare element other = .ok .eq ∧ lexicographic compare left right = .ok ordering ∨
        ordering ≠ .eq ∧ compare element other = .ok ordering := by
  rw [lexicographic]
  split <;> cases ordering <;> simp_all

theorem lexicographic_self (reflexive : ∀ element ∈ left, compare element element = .ok .eq) :
    lexicographic compare left left = .ok .eq := by
  induction left with
  | nil => rfl
  | cons element rest hypothesis =>
      obtain ⟨first, others⟩ := List.forall_mem_cons.mp reflexive
      rw [lexicographic, first]
      exact hypothesis others

theorem lexicographic_self_of_error {cause : Error}
    (each : ∀ element ∈ left, compare element element = .ok .eq ∨
      compare element element = .error cause)
    (fails : ∃ element ∈ left, compare element element = .error cause) :
    lexicographic compare left left = .error cause := by
  induction left with
  | nil =>
      obtain ⟨_, ⟨⟩, _⟩ := fails
  | cons element rest hypothesis =>
      obtain ⟨first, others⟩ := List.forall_mem_cons.mp each
      rw [lexicographic]
      rcases first with same | failed
      · rw [same]
        obtain ⟨other, inside, failed⟩ := fails
        rcases List.mem_cons.mp inside with rfl | later
        · cases same.symm.trans failed
        · exact hypothesis others ⟨other, later, failed⟩
      · rw [failed]

theorem lexicographic_total
    (total : ∀ element ∈ left, ∀ other ∈ right, ∃ ordering, compare element other = .ok ordering) :
    ∃ ordering, lexicographic compare left right = .ok ordering := by
  induction left generalizing right with
  | nil => cases right <;> exact ⟨_, rfl⟩
  | cons element rest hypothesis =>
      cases right with
      | nil => exact ⟨_, rfl⟩
      | cons other others =>
          obtain ⟨first, compared⟩ := total element List.mem_cons_self other List.mem_cons_self
          rw [lexicographic, compared]
          cases first with
          | eq =>
              exact hypothesis fun element inside other also =>
                total element (List.mem_cons_of_mem _ inside) other (List.mem_cons_of_mem _ also)
          | lt => exact ⟨_, rfl⟩
          | gt => exact ⟨_, rfl⟩

theorem lexicographic_eq_iff
    (agree : ∀ element ∈ left, ∀ other ∈ right,
      compare element other = .ok .eq ↔ same element other) :
    lexicographic compare left right = .ok .eq ↔ List.Forall₂ same left right := by
  induction left generalizing right with
  | nil => cases right <;> simp [lexicographic]
  | cons element rest hypothesis =>
      cases right with
      | nil => simp [lexicographic]
      | cons other others =>
          have alike := agree element List.mem_cons_self other List.mem_cons_self
          rw [List.forall₂_cons, ← alike, ← hypothesis fun element inside other also =>
            agree element (List.mem_cons_of_mem _ inside) other (List.mem_cons_of_mem _ also),
            lexicographic_cons_eq_ok_iff]
          simp

theorem lexicographic_lt_iff
    (agree : ∀ element ∈ left, ∀ other ∈ right,
      compare element other = .ok .eq ↔ same element other)
    (lower : ∀ element ∈ left, ∀ other ∈ right,
      compare element other = .ok .lt ↔ less element other) :
    lexicographic compare left right = .ok .lt ↔ Before same less left right := by
  induction left generalizing right with
  | nil =>
      cases right with
      | nil => exact iff_of_false nofun not_before_nil
      | cons other others => exact iff_of_true rfl (.shorter .nil)
  | cons element rest hypothesis =>
      cases right with
      | nil => exact iff_of_false nofun not_before_nil
      | cons other others =>
          have alike := agree element List.mem_cons_self other List.mem_cons_self
          have first := lower element List.mem_cons_self other List.mem_cons_self
          rw [before_cons_iff, ← alike, ← first, lexicographic_cons_eq_ok_iff, or_comm, ← hypothesis
            (fun element inside other also =>
              agree element (List.mem_cons_of_mem _ inside) other (List.mem_cons_of_mem _ also))
            (fun element inside other also =>
              lower element (List.mem_cons_of_mem _ inside) other (List.mem_cons_of_mem _ also))]
          simp

theorem eq_lt_of_ne (differ : ordering ≠ .eq) (rises : ordering ≠ .gt) : ordering = .lt := by
  cases ordering with
  | lt => rfl
  | eq => exact absurd rfl differ
  | gt => exact absurd rfl rises

theorem then_lt (rises : ordering ≠ .gt) : ordering.then .lt = .lt := by
  cases ordering with
  | gt => exact absurd rfl rises
  | _ => rfl

theorem lexicographic_trans
    (transitive : ∀ first ∈ left, ∀ second ∈ mid, ∀ third ∈ right, ∀ ordering later,
      compare first second = .ok ordering → compare second third = .ok later →
      ordering ≠ .gt → later ≠ .gt → compare first third = .ok (ordering.then later))
    (early : lexicographic compare left mid = .ok ordering)
    (late : lexicographic compare mid right = .ok later) (rises : ordering ≠ .gt)
    (goesOn : later ≠ .gt) :
    lexicographic compare left right = .ok (ordering.then later) := by
  induction left generalizing mid right with
  | nil =>
      cases mid <;> cases right <;> cases early <;> first | exact late | rfl | cases late
      all_goals exact absurd rfl goesOn
  | cons first rest hypothesis =>
      cases mid with
      | nil =>
          cases early
          exact absurd rfl rises
      | cons second others =>
          cases right with
          | nil =>
              cases late
              exact absurd rfl goesOn
          | cons third more =>
              have heads := transitive first List.mem_cons_self second List.mem_cons_self third
                List.mem_cons_self
              rw [lexicographic_cons_eq_ok_iff] at early late ⊢
              rcases early with ⟨first, early⟩ | ⟨differ, first⟩ <;>
                rcases late with ⟨second, late⟩ | ⟨apart, second⟩
              · refine .inl ⟨heads _ _ first second nofun nofun, hypothesis ?_ early late⟩
                exact fun first inside second among third within =>
                  transitive first (List.mem_cons_of_mem _ inside) second
                    (List.mem_cons_of_mem _ among) third (List.mem_cons_of_mem _ within)
              · obtain rfl := eq_lt_of_ne apart goesOn
                rw [then_lt rises]
                exact .inr ⟨nofun, heads _ _ first second nofun nofun⟩
              · obtain rfl := eq_lt_of_ne differ rises
                exact .inr ⟨nofun, heads .lt .eq first second nofun nofun⟩
              · obtain rfl := eq_lt_of_ne differ rises
                exact .inr ⟨nofun, heads _ _ first second nofun goesOn⟩

end Lexicographic

/-! Trees. -/

namespace Datum

/-- Every real in the tree is a number. -/
inductive Numeric : Datum → Prop
  | empty : Numeric .empty
  | scalar {type : Ty} {payload : Scalar} : payload.Numeric → Numeric (.scalar type payload)
  | array {type : Ty} {elements : List Datum} : (∀ element ∈ elements, Numeric element) →
      Numeric (.array type elements)

/-- Trees of one shape with numerically equal leaves. -/
inductive Matches : Datum → Datum → Prop
  | scalar {leftType rightType : Ty} {left right : Scalar} : left.Same right →
      Matches (.scalar leftType left) (.scalar rightType right)
  | array {leftType rightType : Ty} {left right : List Datum} : List.Forall₂ Matches left right →
      Matches (.array leftType left) (.array rightType right)

/-- The first tree comes before the second by their leaves, from the left. -/
inductive Precedes : Datum → Datum → Prop
  | scalar {leftType rightType : Ty} {left right : Scalar} : left.Less right →
      Precedes (.scalar leftType left) (.scalar rightType right)
  | array {leftType rightType : Ty} {left right : List Datum} : Before Matches Precedes left right →
      Precedes (.array leftType left) (.array rightType right)

/-- A well-typed value of the type in which every real is a number. -/
structure Orderly (type : Ty) (datum : Datum) : Prop extends datum.HasType type where
  numeric : datum.Numeric

variable {type expected : Ty} {left mid right datum : Datum} {ordering later : Ordering}
  {kind : ScalarKind}

theorem compareElements_eq (left right : List Datum) :
    compareElements left right = lexicographic compare left right := by
  have map := compareElements_map id compare (fun _ _ => rfl) left right
  rwa [List.map_id, List.map_id] at map

theorem compare_scalars (leftType rightType : Ty) (left right : Scalar) :
    (scalar leftType left).compare (scalar rightType right) = .ok ordering ↔
      left.order? right = some ordering := by
  rw [compare]
  split <;> simp_all

theorem compare_arrays (type : Ty) (left right : List Datum) :
    (array type left).compare (array type right) = lexicographic compare left right := by
  rw [compare, if_pos (by simp), compareElements_eq]

namespace Orderly

theorem of_scalar (orderly : datum.Orderly (.scalar kind)) :
    ∃ payload, datum = .scalar (.scalar kind) payload ∧ payload.kind = kind ∧ payload.Numeric := by
  obtain ⟨typed, numeric⟩ := orderly
  obtain ⟨payload, rfl, same⟩ := typed.exists_scalar
  cases numeric with
  | scalar numeric => exact ⟨payload, rfl, same, numeric⟩

theorem of_array (orderly : datum.Orderly (.array expected)) :
    ∃ elements, datum = .array (.array expected) elements ∧
      ∀ element ∈ elements, element.Orderly expected := by
  obtain ⟨typed, numeric⟩ := orderly
  obtain ⟨elements, rfl, types⟩ := typed.exists_array
  cases numeric with
  | array numeric =>
      exact ⟨elements, rfl, fun element inside => ⟨types element inside, numeric element inside⟩⟩

theorem scalar (payload : Scalar) (numeric : payload.Numeric) :
    (Datum.scalar (.scalar payload.kind) payload).Orderly (.scalar payload.kind) :=
  ⟨.scalar payload, .scalar numeric⟩

theorem array {elements : List Datum} (orderly : ∀ element ∈ elements, element.Orderly expected) :
    (Datum.array (.array expected) elements).Orderly (.array expected) where
  toHasType := .array fun element inside => (orderly element inside).toHasType
  numeric := .array fun element inside => (orderly element inside).numeric

theorem compare_total (one : left.Orderly type) (two : right.Orderly type) :
    ∃ ordering, left.compare right = .ok ordering := by
  induction type generalizing left right with
  | scalar kind =>
      obtain ⟨first, rfl, kind, _⟩ := one.of_scalar
      obtain ⟨second, rfl, same, _⟩ := two.of_scalar
      obtain ⟨ordering, compared⟩ := Scalar.order?_total (kind.trans same.symm)
      exact ⟨ordering, (compare_scalars ..).mpr compared⟩
  | array expected hypothesis =>
      obtain ⟨lefts, rfl, ones⟩ := one.of_array
      obtain ⟨rights, rfl, twos⟩ := two.of_array
      rw [compare_arrays]
      exact lexicographic_total fun element inside other also =>
        hypothesis (ones element inside) (twos other also)

theorem compare_trans (one : left.Orderly type) (two : mid.Orderly type)
    (three : right.Orderly type) (early : left.compare mid = .ok ordering)
    (late : mid.compare right = .ok later) (rises : ordering ≠ .gt) (goesOn : later ≠ .gt) :
    left.compare right = .ok (ordering.then later) := by
  induction type generalizing left mid right ordering later with
  | scalar kind =>
      obtain ⟨first, rfl, _, numeric⟩ := one.of_scalar
      obtain ⟨second, rfl, _, between⟩ := two.of_scalar
      obtain ⟨third, rfl, _, further⟩ := three.of_scalar
      rw [compare_scalars] at early late ⊢
      exact Scalar.order?_trans numeric between further early late rises goesOn
  | array expected hypothesis =>
      obtain ⟨lefts, rfl, ones⟩ := one.of_array
      obtain ⟨mids, rfl, twos⟩ := two.of_array
      obtain ⟨rights, rfl, threes⟩ := three.of_array
      rw [compare_arrays] at early late ⊢
      refine lexicographic_trans ?_ early late rises goesOn
      exact fun first inside second among third within _ _ =>
        hypothesis (ones first inside) (twos second among) (threes third within)

theorem compare_eq_iff (one : left.Orderly type) (two : right.Orderly type) :
    left.compare right = .ok .eq ↔ left.Matches right := by
  induction type generalizing left right with
  | scalar kind =>
      obtain ⟨first, rfl, _, numeric⟩ := one.of_scalar
      obtain ⟨second, rfl, _, further⟩ := two.of_scalar
      rw [compare_scalars, ← Scalar.same_iff numeric further]
      exact ⟨.scalar, fun alike => by cases alike; assumption⟩
  | array expected hypothesis =>
      obtain ⟨lefts, rfl, ones⟩ := one.of_array
      obtain ⟨rights, rfl, twos⟩ := two.of_array
      rw [compare_arrays, lexicographic_eq_iff fun element inside other also =>
        hypothesis (ones element inside) (twos other also)]
      exact ⟨.array, fun alike => by cases alike; assumption⟩

theorem compare_lt_iff (one : left.Orderly type) (two : right.Orderly type) :
    left.compare right = .ok .lt ↔ left.Precedes right := by
  induction type generalizing left right with
  | scalar kind =>
      obtain ⟨first, rfl, _, numeric⟩ := one.of_scalar
      obtain ⟨second, rfl, _, further⟩ := two.of_scalar
      rw [compare_scalars, ← Scalar.less_iff numeric further]
      exact ⟨.scalar, fun before => by cases before; assumption⟩
  | array expected hypothesis =>
      obtain ⟨lefts, rfl, ones⟩ := one.of_array
      obtain ⟨rights, rfl, twos⟩ := two.of_array
      rw [compare_arrays, lexicographic_lt_iff
        (fun element inside other also => (ones element inside).compare_eq_iff (twos other also))
        (fun element inside other also => hypothesis (ones element inside) (twos other also))]
      exact ⟨.array, fun before => by cases before; assumption⟩

theorem equal_iff (one : left.Orderly type) (two : right.Orderly type) :
    left.equal right = true ↔ left.compare right = .ok .eq := by
  rw [equal, one.has, two.has]
  simp only [decide_true, Bool.true_and]
  split <;> simp_all

end Orderly

end Datum

/-- The error that a comparison has with its operands the other way round. -/
def ValueError.turn : ValueError → ValueError
  | typeMismatch left right => typeMismatch right left
  | other => other

namespace Heap

open Datum (Orderly)

/-! Comparisons without a bound on their depth. -/

/-- Compares two values down to the given depth. A comparison that would go deeper fails, but with none
of the errors of values. -/
def compareWithin (heap : Heap) : Nat → Value → Value → Except (Option ValueError) Ordering
  | 0, _, _ => .error none
  | depth + 1, left, right =>
    match heap.body? left, heap.body? right with
    | some ⟨leftType, .array leftElements⟩, some ⟨rightType, .array rightElements⟩ =>
      if leftElements.isEmpty || rightElements.isEmpty || leftType = rightType then
        lexicographic (heap.compareWithin depth) leftElements.toList rightElements.toList
      else .error (some (.typeMismatch leftType.display rightType.display))
    | _, _ => ((heap.surface left).compare (heap.surface right)).mapError some

/-- The comparison of the two values comes to an end with the result. -/
def Compares (heap : Heap) (left right : Value) (result : Except ValueError Ordering) : Prop :=
  ∃ depth, heap.compareWithin depth left right = result.mapError some

variable {heap : Heap} {left right value : Value} {depth further : Nat} {type : Ty}
  {result other : Except ValueError Ordering}

theorem mapError_some_ne (result : Except ValueError Ordering) :
    result.mapError some ≠ .error none := by
  cases result <;> rintro ⟨⟩

theorem mapError_some_inj (same : result.mapError some = other.mapError some) : result = other := by
  cases result <;> cases other <;> cases same <;> rfl

section Levels

variable {leftType rightType : Ty} {lefts rights : Array Value}

theorem compareWithin_of_arrays (foundLeft : heap.body? left = some ⟨leftType, .array lefts⟩)
    (foundRight : heap.body? right = some ⟨rightType, .array rights⟩) :
    heap.compareWithin (depth + 1) left right =
      if lefts.isEmpty || rights.isEmpty || leftType = rightType then
        lexicographic (heap.compareWithin depth) lefts.toList rights.toList
      else .error (some (.typeMismatch leftType.display rightType.display)) := by
  simp only [compareWithin, foundLeft, foundRight]

theorem orderWithin_of_arrays (foundLeft : heap.body? left = some ⟨leftType, .array lefts⟩)
    (foundRight : heap.body? right = some ⟨rightType, .array rights⟩) :
    heap.orderWithin (depth + 1) left right =
      if lefts.isEmpty || rights.isEmpty || leftType = rightType then
        lexicographic (heap.orderWithin depth) lefts.toList rights.toList
      else .error (.typeMismatch leftType.display rightType.display) := by
  simp only [orderWithin, foundLeft, foundRight]

/-- Unless both values are arrays, the depth makes no difference. -/
theorem arrays_or_surfaces (heap : Heap) (left right : Value) :
    (∃ leftType lefts rightType rights, heap.body? left = some ⟨leftType, .array lefts⟩ ∧
      heap.body? right = some ⟨rightType, .array rights⟩) ∨
    ∀ depth,
      heap.orderWithin (depth + 1) left right = (heap.surface left).compare (heap.surface right) ∧
      heap.compareWithin (depth + 1) left right =
        ((heap.surface left).compare (heap.surface right)).mapError some := by
  rcases one : heap.body? left with _ | ⟨leftType, leftPayload | lefts⟩ <;>
    rcases two : heap.body? right with _ | ⟨rightType, rightPayload | rights⟩ <;>
    simp [orderWithin, compareWithin, one, two]

end Levels

theorem orderWithin_eq_mapError (heap : Heap) (depth : Nat) (left right : Value) :
    heap.orderWithin depth left right =
      (heap.compareWithin depth left right).mapError (·.getD .empty) := by
  induction depth generalizing left right with
  | zero => rfl
  | succ depth hypothesis =>
      rcases heap.arrays_or_surfaces left right with
        ⟨leftType, lefts, rightType, rights, foundLeft, foundRight⟩ | surfaces
      · rw [orderWithin_of_arrays foundLeft foundRight, compareWithin_of_arrays foundLeft foundRight]
        split
        · exact lexicographic_mapError fun left _ right _ => hypothesis left right
        · rfl
      · rw [(surfaces depth).1, (surfaces depth).2]
        cases (heap.surface left).compare (heap.surface right) <;> rfl

theorem compareWithin_succ (ends : heap.compareWithin depth left right ≠ .error none) :
    heap.compareWithin (depth + 1) left right = heap.compareWithin depth left right := by
  induction depth generalizing left right with
  | zero => exact absurd rfl ends
  | succ depth hypothesis =>
      rcases heap.arrays_or_surfaces left right with
        ⟨leftType, lefts, rightType, rights, foundLeft, foundRight⟩ | surfaces
      · rw [compareWithin_of_arrays foundLeft foundRight] at ends
        rw [compareWithin_of_arrays foundLeft foundRight, compareWithin_of_arrays foundLeft foundRight]
        split
        · next comparable =>
            rw [if_pos comparable] at ends
            exact lexicographic_stable (fun left _ right _ => hypothesis) ends
        · rfl
      · rw [(surfaces _).2, (surfaces _).2]

theorem compareWithin_mono (ends : heap.compareWithin depth left right ≠ .error none)
    (enough : depth ≤ further) :
    heap.compareWithin further left right = heap.compareWithin depth left right := by
  induction further, enough using Nat.le_induction with
  | base => rfl
  | succ further _ hypothesis => exact (compareWithin_succ (hypothesis ▸ ends)).trans hypothesis

/-- A comparison has one result, however deep it goes. -/
theorem Compares.unique (one : heap.Compares left right result)
    (two : heap.Compares left right other) : result = other := by
  obtain ⟨depth, compared⟩ := one
  obtain ⟨further, also⟩ := two
  apply mapError_some_inj
  rw [← compared, ← also]
  rcases Nat.le_total depth further with enough | enough
  · exact (compareWithin_mono (compared ▸ mapError_some_ne result) enough).symm
  · exact compareWithin_mono (also ▸ mapError_some_ne other) enough

/-- Below the bottom of one of the values there is nothing to compare. -/
theorem compareWithin_of_shallow (shallow : heap.Shallow depth left ∨ heap.Shallow depth right) :
    heap.compareWithin (depth + 1) left right = (heap.orderWithin depth left right).mapError some := by
  induction depth generalizing left right with
  | zero =>
      rcases shallow with missing | missing <;> simp only [Shallow] at missing
      · simp [compareWithin, orderWithin, surface, viewWithin, missing, Datum.compare, Except.mapError]
      · rcases found : heap.body? left with _ | ⟨type, payload | elements⟩ <;>
          simp [compareWithin, orderWithin, surface, viewWithin, missing, found, Datum.compare,
            Except.mapError]
  | succ depth hypothesis =>
      rcases heap.arrays_or_surfaces left right with
        ⟨leftType, lefts, rightType, rights, foundLeft, foundRight⟩ | surfaces
      · rw [compareWithin_of_arrays foundLeft foundRight, orderWithin_of_arrays foundLeft foundRight]
        split
        · refine lexicographic_mapError fun first inside second within => hypothesis ?_
          exact shallow.imp (· first ((holds_iff_of_array foundLeft).mpr inside))
            (· second ((holds_iff_of_array foundRight).mpr within))
        · rfl
      · rw [(surfaces _).1, (surfaces _).2]

/-- If one of the values has a bottom, the comparison comes to an end. -/
theorem compares_iff (founded : heap.Founded left ∨ heap.Founded right) :
    heap.Compares left right result ↔ heap.order left right = result := by
  have compared : heap.Compares left right (heap.order left right) :=
    ⟨heap.size + 1, compareWithin_of_shallow
      (founded.imp (·.shallow (card_reached_le ..)) (·.shallow (card_reached_le ..)))⟩
  constructor
  · exact compared.unique
  · rintro rfl
    exact compared

theorem compareWithin_turned (heap : Heap) (depth : Nat) (left right : Value) :
    heap.compareWithin depth right left =
      turned (Option.map ValueError.turn) (heap.compareWithin depth left right) := by
  induction depth generalizing left right with
  | zero => rfl
  | succ depth hypothesis =>
      rcases one : heap.body? left with _ | ⟨leftType, leftPayload | lefts⟩ <;>
        rcases two : heap.body? right with _ | ⟨rightType, rightPayload | rights⟩ <;>
        simp only [compareWithin, surface, viewWithin, one, two, Datum.compare] <;> try rfl
      · rw [leftPayload.order?_swap rightPayload]
        cases leftPayload.order? rightPayload <;> rfl
      · simp only [Bool.or_comm rights.isEmpty, eq_comm (a := rightType)]
        split
        · exact lexicographic_turned hypothesis lefts.toList rights.toList
        · rfl

theorem Compares.turn (compares : heap.Compares left right result) :
    heap.Compares right left (turned .turn result) := by
  obtain ⟨depth, compared⟩ := compares
  refine ⟨depth, ?_⟩
  rw [compareWithin_turned, compared]
  cases result <;> rfl

theorem compares_swap_iff {ordering : Ordering} :
    heap.Compares right left (.ok ordering.swap) ↔ heap.Compares left right (.ok ordering) := by
  constructor
  · intro compares
    exact ordering.swap_swap ▸ compares.turn
  · exact Compares.turn

theorem exists_compares_comm (left right : Value) :
    (∃ result, heap.Compares right left result) ↔ ∃ result, heap.Compares left right result := by
  constructor <;> rintro ⟨_, compares⟩ <;> exact ⟨_, compares.turn⟩

/-- A value without anything empty in it is the same as itself as far as the comparison goes down. -/
theorem compareWithin_self (depth : Nat) (present : heap.Present value) (filled : heap.Filled value) :
    heap.Shallow depth value ∧ heap.compareWithin depth value value = .ok .eq ∨
      ¬ heap.Shallow depth value ∧ heap.compareWithin depth value value = .error none := by
  induction depth generalizing value with
  | zero => exact .inr ⟨present.not_shallow_zero, rfl⟩
  | succ depth hypothesis =>
      obtain ⟨⟨type, payload | elements⟩, found⟩ := present.exists_body?
      · refine .inl ⟨fun child holds => absurd holds (not_holds_of_scalar found), ?_⟩
        simp only [compareWithin, surface, viewWithin, found, Datum.compare, Scalar.order?_self]
        rfl
      · have parts (child : Value) (holds : heap.Holds value child) :=
          hypothesis (filled value child .refl holds) (filled.element holds)
        rw [compareWithin_of_arrays found found, if_pos (by simp)]
        by_cases shallow : heap.Shallow (depth + 1) value
        · refine .inl ⟨shallow, lexicographic_self fun child inside => ?_⟩
          have holds := (holds_iff_of_array found).mpr inside
          exact ((parts child holds).resolve_right fun deep => deep.1 (shallow child holds)).2
        · refine .inr ⟨shallow, lexicographic_self_of_error (fun child inside => ?_) ?_⟩
          · exact (parts child ((holds_iff_of_array found).mpr inside)).imp And.right And.right
          · obtain ⟨child, holds, deep⟩ := not_forall₂.mp shallow
            exact ⟨child, (holds_iff_of_array found).mp holds,
              ((parts child holds).resolve_left fun shallow => deep shallow.1).2⟩

/-- A value that holds itself is not compared with itself to the end. -/
theorem Compares.founded (present : heap.Present value) (filled : heap.Filled value)
    (compares : heap.Compares value value result) : heap.Founded value := by
  obtain ⟨depth, compared⟩ := compares
  rcases compareWithin_self depth present filled with ⟨shallow, _⟩ | ⟨_, endless⟩
  · exact shallow.founded fun held => filled.has_of_reaches present
  · exact absurd (compared.symm.trans endless) (mapError_some_ne result)

theorem compares_self_iff (present : heap.Present value) (filled : heap.Filled value) :
    heap.Compares value value (.ok .eq) ↔ heap.Founded value := by
  refine ⟨fun compares => compares.founded present filled, fun founded => ⟨heap.size, ?_⟩⟩
  rcases compareWithin_self heap.size present filled with ⟨_, same⟩ | ⟨deep, _⟩
  · exact same
  · exact absurd (founded.shallow (heap.card_reached_le value)) deep

/-- A tree with a type has been seen to the bottom, and nothing in it is empty. -/
theorem founded_of_hasType (typed : (heap.viewWithin depth value).HasType type) :
    heap.Founded value ∧ heap.Present value ∧ heap.Filled value := by
  induction depth generalizing value type with
  | zero => cases typed.has
  | succ depth hypothesis =>
      rw [viewWithin_succ] at typed
      rcases found : heap.body? value with _ | ⟨own, payload | elements⟩ <;> rw [found] at typed
      · cases typed.has
      · have nothing (child : Value) : ¬ heap.Holds value child := not_holds_of_scalar found
        refine ⟨.intro (.of_body? found) fun child holds => absurd holds (nothing child),
          present_of_body? found, fun holder child reaches holds => ?_⟩
        rcases reaches.cases_head with rfl | ⟨first, step, _⟩
        · exact absurd holds (nothing child)
        · exact absurd step (nothing first)
      · have parts (child : Value) (holds : heap.Holds value child) :
            heap.Founded child ∧ heap.Present child ∧ heap.Filled child := by
          have shown := List.mem_map_of_mem (f := heap.viewWithin depth)
            ((holds_iff_of_array found).mp holds)
          cases type with
          | scalar kind =>
              obtain ⟨_, ⟨⟩, _⟩ := typed.exists_scalar
          | array expected =>
              obtain ⟨_, ⟨⟩, types⟩ := typed.exists_array
              exact hypothesis (types _ shown)
        refine ⟨.intro (.of_body? found) fun child holds => (parts child holds).1,
          present_of_body? found, fun holder child reaches holds => ?_⟩
        rcases reaches.cases_head with rfl | ⟨first, step, rest⟩
        · exact (parts child holds).2.1
        · exact (parts first step).2.2 holder child rest holds

/-- The comparison down to a depth is the comparison without a bound, except that it takes what is deeper
for empty values, and where one of the values holds nothing that holds itself, both come to the same end.
Whether comparing comes to an end, whether it succeeds and what it says is the same up to a swap for the
values the other way round. A value with nothing empty in its arrays is the same as itself if it holds
nothing that holds itself, and else the comparison with itself goes on for ever. On the well-typed values
of one type without a real that is no number comparing does not fail, is transitive, goes by the leaves
from the left, where what ends first comes first, and finds equal what has the same shape and numerically
equal leaves, as the equality does. -/
theorem order_preorder (heap : Heap) :
    (∀ depth left right, heap.orderWithin depth left right =
      (heap.compareWithin depth left right).mapError (·.getD .empty)) ∧
    (∀ left right, heap.Founded left ∨ heap.Founded right → ∀ result,
      (heap.Compares left right result ↔ heap.order left right = result)) ∧
    (∀ left right,
      ((∃ result, heap.Compares right left result) ↔ ∃ result, heap.Compares left right result) ∧
      ∀ ordering,
        (heap.Compares right left (.ok ordering.swap) ↔ heap.Compares left right (.ok ordering))) ∧
    (∀ value, heap.Present value → heap.Filled value →
      ((∃ result, heap.Compares value value result) ↔ heap.Founded value) ∧
      (heap.Compares value value (.ok .eq) ↔ heap.Founded value)) ∧
    ∀ type left mid right, (heap.view left).Orderly type → (heap.view mid).Orderly type →
      (heap.view right).Orderly type →
        (∃ ordering, heap.Compares left right (.ok ordering)) ∧
        (∀ ordering later, heap.Compares left mid (.ok ordering) →
          heap.Compares mid right (.ok later) → ordering ≠ .gt → later ≠ .gt →
          heap.Compares left right (.ok (ordering.then later))) ∧
        (heap.Compares left right (.ok .lt) ↔ (heap.view left).Precedes (heap.view right)) ∧
        (heap.Compares left right (.ok .eq) ↔ (heap.view left).Matches (heap.view right)) ∧
        ((heap.view left).equal (heap.view right) = true ↔ heap.Compares left right (.ok .eq)) := by
  refine ⟨heap.orderWithin_eq_mapError, fun left right founded result => compares_iff founded,
    fun left right => ⟨exists_compares_comm left right, fun _ => compares_swap_iff⟩,
    fun value present filled => ⟨⟨?_, ?_⟩, compares_self_iff present filled⟩,
    fun type left mid right one two three => ?_⟩
  · exact fun ⟨_, compares⟩ => compares.founded present filled
  · exact fun founded => ⟨_, (compares_self_iff present filled).mpr founded⟩
  · have first := (founded_of_hasType one.toHasType).1
    have second := (founded_of_hasType two.toHasType).1
    simp only [compares_iff (.inl first), compares_iff (.inl second), order_eq]
    exact ⟨one.compare_total three, fun _ _ => one.compare_trans two three, one.compare_lt_iff three,
      one.compare_eq_iff three, one.equal_iff three⟩

/-- Two rows of rows that agree until the second row of the first is empty. -/
theorem order_preorder_rows :
    let row (values : List Bool) : Datum := .array (.array .boolean) (values.map .boolean)
    let type : Ty := .array (.array .boolean)
    ∃ (heap : Heap) (left right : Value),
      heap.view left = .array type [row [true], row []] ∧
      heap.view right = .array type [row [true], row [false]] ∧
      (heap.view left).Orderly type ∧ (heap.view right).Orderly type ∧
      heap.Compares left right (.ok .lt) ∧ heap.order left right = .ok .lt ∧
      heap.Compares right left (.ok .gt) ∧ heap.Compares left left (.ok .eq) := by
  intro row type
  have orderly (values : List Bool) : (row values).Orderly (.array .boolean) := by
    refine .array fun element inside => ?_
    obtain ⟨value, _, rfl⟩ := List.mem_map.mp inside
    exact .scalar (.boolean value) trivial
  have both (rows : List (List Bool)) : (Datum.array type (rows.map row)).Orderly type := by
    refine .array fun element inside => ?_
    obtain ⟨values, _, rfl⟩ := List.mem_map.mp inside
    exact orderly values
  have left := made_build (.array type [row [true], row []]) .empty sound_empty
  have right := made_build (.array type [row [true], row [false]]) _ left.sound
  have kept := left.extend right.sound right.extended
  have one := kept.view ▸ both [[true], []]
  have two := right.view ▸ both [[true], [false]]
  obtain ⟨_, agree, symmetric, reflexive, ordered⟩ := order_preorder
    (build (.array type [row [true], row [false]]) (build (.array type [row [true], row []]) .empty).2).2
  obtain ⟨_, _, less, _⟩ := ordered type _ _ _ one one two
  have first : (row [true]).Matches (row [true]) := .array (.cons (.scalar rfl) .nil)
  have lower := less.mpr (by
    rw [kept.view, right.view]
    exact .array (.lesser (.cons first .nil) (.array (.shorter .nil))))
  obtain ⟨founded, present, filled⟩ := founded_of_hasType one.toHasType
  exact ⟨_, _, _, kept.view, right.view, one, two, lower, (agree _ _ (.inl founded) _).mp lower,
    ((symmetric _ _).2 .lt).mpr lower, (reflexive _ present filled).2.mpr founded⟩

/-! A value that holds itself. -/

/-- The string that has come to hold itself is not empty and holds nothing empty, but no comparison with
itself has a result. -/
theorem never_compares_entangling :
    let registers := (Registers.empty 2).run Registers.entangling
    let value := registers.get 0
    registers.heap.Present value ∧ registers.heap.Filled value ∧
      ∀ result, ¬ registers.heap.Compares value value result := by
  intro registers value
  have found : registers.heap.body? value = some ⟨.array .string, .array #[value]⟩ := rfl
  have holds {child : Value} : registers.heap.Holds value child ↔ child = value := by
    rw [holds_iff_of_array found, List.mem_singleton]
  have leads {holder : Value} (reaches : registers.heap.Reaches value holder) : holder = value := by
    induction reaches with
    | refl => rfl
    | tail _ step hypothesis => exact holds.mp (hypothesis ▸ step)
  have present : registers.heap.Present value := present_of_body? found
  have filled : registers.heap.Filled value := by
    intro holder child reaches step
    obtain rfl := leads reaches
    exact holds.mp step ▸ present
  refine ⟨present, filled, fun result compares => ?_⟩
  exact (compares.founded present filled).not_reaches (holds.mpr rfl) .refl

end Heap

end CoopScript
