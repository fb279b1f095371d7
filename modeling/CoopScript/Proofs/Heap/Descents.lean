import CoopScript.Proofs.Heap.Census

/-!
Walks down into values without a bound on how deep they go. Looking for a body in a value follows its
elements one after the other as long as there are any, so that in a value that holds itself the search
need not come to an end. Where it does, it finds what the search by marks finds.
-/

namespace CoopScript

section Search

variable {Element : Type} {test : Element → Option Bool} {list : List Element}

theorem anyM_eq_some_false_iff :
    list.anyM test = some false ↔ ∀ element ∈ list, test element = some false := by
  induction list with
  | nil => simp [List.anyM]
  | cons element rest hypothesis =>
      rw [List.forall_mem_cons, ← hypothesis, List.anyM]
      cases test element with
      | none => simp
      | some found => cases found <;> simp

theorem exists_of_anyM (found : list.anyM test = some true) :
    ∃ element ∈ list, test element = some true := by
  induction list with
  | nil => cases found
  | cons element rest hypothesis =>
      rw [List.exists_mem_cons_iff]
      rw [List.anyM] at found
      cases tested : test element with
      | none =>
          rw [tested] at found
          cases found
      | some holds =>
          cases holds with
          | true => exact .inl rfl
          | false =>
              rw [tested] at found
              exact .inr (hypothesis found)

theorem exists_anyM (answers : ∀ element ∈ list, ∃ found, test element = some found) :
    ∃ found, list.anyM test = some found := by
  induction list with
  | nil => exact ⟨false, rfl⟩
  | cons element rest hypothesis =>
      obtain ⟨⟨found, first⟩, others⟩ := List.forall_mem_cons.mp answers
      rw [List.anyM, first]
      cases found with
      | true => exact ⟨true, rfl⟩
      | false => exact hypothesis others

end Search

namespace Heap

/-- The value has a body. -/
structure Present (heap : Heap) (value : Value) : Prop where
  has : heap.Has value
  given : value ≠ none

/-- No array among the value and what it holds at any depth has an element without a body. -/
def Filled (heap : Heap) (value : Value) : Prop :=
  ∀ holder child, heap.Reaches value holder → heap.Holds holder child → heap.Present child

/-- Nothing is held in the value at the depth or below. -/
def Shallow (heap : Heap) : Nat → Value → Prop
  | 0, value => heap.body? value = none
  | depth + 1, value => ∀ child, heap.Holds value child → heap.Shallow depth child

/-- Looks for the body in the value and in its elements from the left, no deeper than the depth. A
search that would go deeper has no answer. -/
def seekWithin (heap : Heap) (target : BodyId) : Nat → Value → Option Bool
  | 0, _ => none
  | depth + 1, value =>
    if value = some target then some true
    else
      match (heap.body? value).bind Body.elements? with
      | some elements => elements.toList.anyM (heap.seekWithin target depth)
      | none => some false

/-- The search for the body in the value comes to an end with the answer. -/
def Seeks (heap : Heap) (value : Value) (target : BodyId) (found : Bool) : Prop :=
  ∃ depth, heap.seekWithin target depth value = some found

/-- Putting the source into the body of the target comes to an end: the search for that body in the
source does, and so does a copy of the source, which is made if the body is found. -/
def Settles (heap : Heap) (source target : Value) : Prop :=
  ∀ id, target = some id → ∃ found, heap.Seeks source id found ∧ (found = true → heap.Founded source)

/-- Adding the element to a copy of the array comes to an end. -/
def AppendedEnds (heap : Heap) (array element : Value) : Prop :=
  (heap.copy array).2.Settles element (heap.copy array).1

variable {heap after : Heap} {value source target child : Value} {id : BodyId} {body : Body}
  {depth : Nat} {found : Bool}

theorem Present.mono (present : heap.Present value) (size : heap.size ≤ after.size) :
    after.Present value :=
  ⟨present.has.mono size, present.given⟩

theorem Present.exists_body? (present : heap.Present value) :
    ∃ body, heap.body? value = some body := by
  cases value with
  | none => exact absurd rfl present.given
  | some id => exact Heap.exists_body? present.has

theorem present_of_body? (found : heap.body? value = some body) : heap.Present value where
  has := .of_body? found
  given := by
    rintro rfl
    cases found

theorem Filled.element (filled : heap.Filled value) (holds : heap.Holds value child) :
    heap.Filled child :=
  fun holder other reaches => filled holder other (reaches.head holds)

/-- A value with a body has all that it holds, if no array of it has an element without one. -/
theorem Filled.has_of_reaches (filled : heap.Filled value) (present : heap.Present value)
    (reaches : heap.Reaches value child) : heap.Has child := by
  rcases reaches.cases_tail with rfl | ⟨holder, leads, holds⟩
  · exact present.has
  · exact (filled holder child leads holds).has

theorem holds_iff_of_elements? {elements : Array Value}
    (listed : (heap.body? value).bind Body.elements? = some elements) :
    heap.Holds value child ↔ child ∈ elements := by
  rw [holds_iff_elements?]
  constructor
  · rintro ⟨_, also, inside⟩
    cases listed.symm.trans also
    exact inside
  · exact fun inside => ⟨elements, listed, inside⟩

theorem holds_iff_of_array {type : Ty} {elements : Array Value}
    (held : heap.body? value = some ⟨type, .array elements⟩) :
    heap.Holds value child ↔ child ∈ elements.toList := by
  have listed : (heap.body? value).bind Body.elements? = some elements := by
    rw [held]
    rfl
  rw [holds_iff_of_elements? listed, Array.mem_toList_iff]

theorem not_holds_of_scalar {type : Ty} {payload : Scalar}
    (held : heap.body? value = some ⟨type, .scalar payload⟩) : ¬ heap.Holds value child := by
  rw [holds_iff_elements?, held]
  rintro ⟨_, ⟨⟩, _⟩

/-! Depths. -/

theorem Present.not_shallow_zero (present : heap.Present value) : ¬ heap.Shallow 0 value := by
  intro missing
  obtain ⟨body, found⟩ := present.exists_body?
  cases missing.symm.trans found

theorem Founded.shallow (founded : heap.Founded value) {depth : Nat}
    (enough : (heap.reached value).card ≤ depth) : heap.Shallow depth value := by
  induction depth generalizing value with
  | zero =>
      cases value with
      | none => rfl
      | some id =>
          have positive := card_reached_pos founded.has
          omega
  | succ depth hypothesis =>
      intro child holds
      have fewer := founded.card_reached_lt holds
      exact hypothesis (founded.element holds) (by omega)

/-- A value with a bottom is founded, if no handle in it is on a body that is missing. -/
theorem Shallow.founded (shallow : heap.Shallow depth value)
    (known : ∀ held, heap.Reaches value held → heap.Has held) : heap.Founded value := by
  induction depth generalizing value with
  | zero =>
      refine .intro (known value .refl) ?_
      rintro child ⟨body, held, _⟩
      cases shallow.symm.trans held
  | succ depth hypothesis =>
      refine .intro (known value .refl) fun child holds => ?_
      exact hypothesis (shallow child holds) fun held reaches => known held (reaches.head holds)

/-! Searches. -/

theorem seekWithin_succ_eq_false_iff : heap.seekWithin id (depth + 1) value = some false ↔
    value ≠ some id ∧ ∀ child, heap.Holds value child → heap.seekWithin id depth child = some false := by
  rw [seekWithin]
  split
  · next same => simp [same]
  · next other =>
      split
      · next elements listed =>
          simp only [anyM_eq_some_false_iff, holds_iff_of_elements? listed, Array.mem_toList_iff,
            ne_eq, other, not_false_iff, true_and]
      · next missing =>
          simp [other, holds_iff_elements?, missing]

theorem reaches_of_seekWithin (seeks : heap.seekWithin id depth value = some true) :
    heap.Reaches value (some id) := by
  induction depth generalizing value with
  | zero => cases seeks
  | succ depth hypothesis =>
      rw [seekWithin] at seeks
      split at seeks
      · next same => exact same ▸ .refl
      · split at seeks
        · next elements listed =>
            obtain ⟨child, inside, leads⟩ := exists_of_anyM seeks
            have holds := (holds_iff_of_elements? listed).mpr (Array.mem_toList_iff.mp inside)
            exact (hypothesis leads).head holds
        · cases seeks

/-- A search without success has seen all of the value. -/
theorem shallow_of_seekWithin (seeks : heap.seekWithin id depth value = some false) :
    heap.Shallow depth value ∧ ¬ heap.Reaches value (some id) := by
  induction depth generalizing value with
  | zero => cases seeks
  | succ depth hypothesis =>
      obtain ⟨other, rest⟩ := seekWithin_succ_eq_false_iff.mp seeks
      refine ⟨fun child holds => (hypothesis (rest child holds)).1, fun reaches => ?_⟩
      rcases reaches.cases_head with same | ⟨child, holds, leads⟩
      · exact other same
      · exact (hypothesis (rest child holds)).2 leads

theorem exists_seekWithin (shallow : heap.Shallow depth value) (id : BodyId) :
    ∃ found, heap.seekWithin id (depth + 1) value = some found := by
  induction depth generalizing value with
  | zero =>
      have missing : heap.body? value = none := shallow
      rw [seekWithin, missing]
      split <;> exact ⟨_, rfl⟩
  | succ depth hypothesis =>
      rw [seekWithin]
      split
      · exact ⟨true, rfl⟩
      · split
        · next elements listed =>
            apply exists_anyM
            intro child inside
            have holds := (holds_iff_of_elements? listed).mpr (Array.mem_toList_iff.mp inside)
            exact hypothesis (shallow child holds)
        · exact ⟨false, rfl⟩

/-- A search that comes to an end finds what the search by marks finds. -/
theorem Seeks.eq_reaches (seeks : heap.Seeks value id found) : found = heap.reaches value id := by
  obtain ⟨depth, seeks⟩ := seeks
  cases found with
  | true => exact (reaches_iff.mpr (reaches_of_seekWithin seeks)).symm
  | false =>
      rw [eq_comm, ← Bool.not_eq_true, reaches_iff]
      exact (shallow_of_seekWithin seeks).2

theorem Founded.seeks (founded : heap.Founded value) (id : BodyId) :
    heap.Seeks value id (heap.reaches value id) := by
  obtain ⟨found, seeks⟩ := exists_seekWithin (founded.shallow le_rfl) id
  have ended : heap.Seeks value id found := ⟨_, seeks⟩
  exact ended.eq_reaches ▸ ended

theorem Founded.settles (founded : heap.Founded source) (target : Value) :
    heap.Settles source target :=
  fun id _ => ⟨_, founded.seeks id, fun _ => founded⟩

/-- A search without success has gone down all of the source, and one with success leads to a copy,
which does. -/
theorem settles_iff_founded (known : ∀ held, heap.Reaches source held → heap.Has held) :
    heap.Settles source (some id) ↔ heap.Founded source := by
  refine ⟨fun settles => ?_, fun founded => founded.settles (some id)⟩
  obtain ⟨found, seeks, copies⟩ := settles id rfl
  cases found with
  | true => exact copies rfl
  | false =>
      obtain ⟨depth, seeks⟩ := seeks
      exact (shallow_of_seekWithin seeks).1.founded known

end Heap

end CoopScript
