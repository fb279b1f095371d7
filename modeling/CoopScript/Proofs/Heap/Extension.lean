import CoopScript.Proofs.Heap.Founded

/-!
Operations that add bodies. They leave all bodies and trees as they were, and what they make holds
nothing that leads back to what was there before, unless it was given them.
-/

namespace CoopScript.Heap

/-- The heap has at most grown. -/
structure Extends (heap after : Heap) : Prop where
  size : heap.size ≤ after.size
  bodies : ∀ value, heap.Has value → after.body? value = heap.body? value

variable {heap middle after : Heap} {value child target : Value} {id : BodyId} {body : Body}

namespace Extends

theorem refl (heap : Heap) : heap.Extends heap := ⟨le_rfl, fun _ _ => rfl⟩

theorem trans (early : heap.Extends middle) (late : middle.Extends after) : heap.Extends after where
  size := early.size.trans late.size
  bodies := by
    intro value has
    rw [late.bodies value (has.mono early.size), early.bodies value has]

theorem spares (extended : heap.Extends after) (founded : heap.Founded value) :
    heap.Spares after value where
  size := extended.size
  bodies := fun target reaches => extended.bodies target (founded.reached reaches).has

theorem founded (extended : heap.Extends after) (founded : heap.Founded value) :
    after.Founded value :=
  (extended.spares founded).founded founded

theorem view (extended : heap.Extends after) (founded : heap.Founded value) :
    after.view value = heap.view value :=
  (extended.spares founded).view founded

end Extends

/-! A new body. -/

theorem extends_allocate (heap : Heap) (body : Body) : heap.Extends (heap.allocate body).2 where
  size := by
    rw [size_allocate]
    exact Nat.le_succ _
  bodies := by
    intro value has
    cases value with
    | none => rfl
    | some id =>
        obtain ⟨old, found⟩ := exists_body? has
        rw [found, body?_allocate_of_body? body found]

theorem extends_copy (heap : Heap) (value : Value) : heap.Extends (heap.copy value).2 := by
  unfold copy
  split
  · exact heap.extends_allocate _
  · exact .refl heap

/-- After an allocation there is the new value besides the old ones. -/
theorem has_allocate_iff :
    (heap.allocate body).2.Has value ↔ heap.Has value ∨ value = (heap.allocate body).1 := by
  cases value with
  | none => simp [has_none, allocate]
  | some id =>
      rw [has_some_iff, has_some_iff, size_allocate]
      simp only [allocate, Option.some.injEq]
      constructor
      · intro inside
        by_cases old : id.index < heap.size
        · exact .inl old
        · apply Or.inr
          cases id
          simp only [BodyId.mk.injEq] at *
          omega
      · rintro (old | rfl)
        · omega
        · exact Nat.lt_succ_self _

theorem has_allocate (heap : Heap) (body : Body) :
    (heap.allocate body).2.Has (heap.allocate body).1 := has_allocate_iff.mpr (.inr rfl)

/-- The value was not there before. -/
theorem not_has_allocate (heap : Heap) (body : Body) : ¬ heap.Has (heap.allocate body).1 :=
  fun has => lt_irrefl _ (has ⟨heap.size⟩ rfl)

/-- A new body that holds only what there is keeps the heap sound. -/
theorem Sound.allocate (sound : heap.Sound) (known : ∀ child, body.Holds child → heap.Has child) :
    (heap.allocate body).2.Sound := by
  have extended := heap.extends_allocate body
  intro value has
  rcases has_allocate_iff.mp has with old | rfl
  · exact extended.founded (sound value old)
  · apply Founded.intro has
    intro child holds
    obtain ⟨held, found, inside⟩ := holds
    rw [body?_allocate] at found
    cases found
    exact extended.founded (sound child (known child inside))

theorem view_allocate (sound : heap.Sound) (known : ∀ child, body.Holds child → heap.Has child) :
    (heap.allocate body).2.view (heap.allocate body).1 = body.datum heap.view := by
  rw [(sound.allocate known _ (heap.has_allocate body)).view_of_body? (heap.body?_allocate body)]
  apply Body.datum_congr
  intro child holds
  exact (heap.extends_allocate body).view (sound child (known child holds))

/-- What a new value reaches besides itself is reached by what its body holds. -/
theorem reaches_allocate (sound : heap.Sound) (known : ∀ child, body.Holds child → heap.Has child)
    (reaches : (heap.allocate body).2.Reaches (heap.allocate body).1 target) :
    target = (heap.allocate body).1 ∨ ∃ child, body.Holds child ∧ heap.Reaches child target := by
  rcases reaches.cases_head with same | ⟨child, ⟨held, found, inside⟩, rest⟩
  · exact .inl same.symm
  · rw [body?_allocate] at found
    cases found
    have spares := (heap.extends_allocate body).spares (sound child (known child inside))
    exact .inr ⟨child, inside, spares.reaches_iff.mp rest⟩

/-! Trees made of new bodies. -/

/-- The value is new with all that it holds, and has the given tree. -/
structure Made (heap after : Heap) (value : Value) (datum : Datum) : Prop where
  sound : after.Sound
  extended : heap.Extends after
  has : after.Has value
  view : after.view value = datum
  fresh : ∀ id, after.Reaches value (some id) → heap.size ≤ id.index

theorem Made.extend {datum : Datum} (made : heap.Made middle value datum) (sound : after.Sound)
    (extended : middle.Extends after) : heap.Made after value datum where
  sound := sound
  extended := made.extended.trans extended
  has := made.has.mono extended.size
  view := (extended.view (made.sound value made.has)).trans made.view
  fresh := by
    intro id reaches
    exact made.fresh id ((extended.spares (made.sound value made.has)).reaches_iff.mp reaches)

theorem Made.weaken {datum : Datum} (made : middle.Made after value datum)
    (extended : heap.Extends middle) : heap.Made after value datum where
  sound := made.sound
  extended := extended.trans made.extended
  has := made.has
  view := made.view
  fresh := fun id reaches => extended.size.trans (made.fresh id reaches)

/-- New values with the given trees stand behind the older ones. -/
structure MadeAll (heap after : Heap) (built values : Array Value) (data : List Datum) : Prop where
  sound : after.Sound
  extended : heap.Extends after
  values : ∃ added, values.toList = built.toList ++ added ∧ added.map after.view = data ∧
    ∀ value ∈ added, heap.Made after value (after.view value)

theorem MadeAll.nil (sound : heap.Sound) (built : Array Value) : heap.MadeAll heap built built [] where
  sound := sound
  extended := .refl heap
  values := ⟨[], (List.append_nil _).symm, rfl, nofun⟩

theorem MadeAll.cons {built values : Array Value} {datum : Datum} {rest : List Datum}
    (first : heap.Made middle value datum) (others : middle.MadeAll after (built.push value) values rest) :
    heap.MadeAll after built values (datum :: rest) := by
  obtain ⟨added, all, views, made⟩ := others.values
  have kept := first.extend others.sound others.extended
  refine ⟨others.sound, first.extended.trans others.extended, value :: added, ?_, ?_, ?_⟩
  · rw [all, Array.toList_push, List.append_assoc]
    rfl
  · rw [List.map_cons, kept.view, views]
  · intro other inside
    rcases List.mem_cons.mp inside with rfl | inside
    · rw [kept.view]
      exact kept
    · exact (made other inside).weaken first.extended

/-- An array of new values is a new value. -/
theorem MadeAll.array {values : Array Value} {data : List Datum} (type : Ty)
    (all : heap.MadeAll after #[] values data) :
    heap.Made (after.allocate ⟨type, .array values⟩).2 (after.allocate ⟨type, .array values⟩).1
      (.array type data) := by
  obtain ⟨added, same, views, made⟩ := all.values
  rw [List.nil_append] at same
  have inside {child : Value} (holds : Body.Holds ⟨type, .array values⟩ child) : child ∈ added := by
    obtain ⟨elements, ⟨⟩, inside⟩ := holds
    rwa [← same, Array.mem_toList_iff]
  have known (child : Value) (holds : Body.Holds ⟨type, .array values⟩ child) : after.Has child :=
    (made child (inside holds)).has
  refine ⟨all.sound.allocate known, all.extended.trans (after.extends_allocate _),
    after.has_allocate _, ?_, ?_⟩
  · rw [view_allocate all.sound known, Body.datum, same, views]
  · intro id reaches
    rcases reaches_allocate all.sound known reaches with new | ⟨child, holds, rest⟩
    · cases new
      exact all.extended.size
    · exact (made child (inside holds)).fresh id rest

mutual

/-- Building a tree makes a new value with that tree. -/
theorem made_build (datum : Datum) (heap : Heap) (sound : heap.Sound) :
    heap.Made (build datum heap).2 (build datum heap).1 datum := by
  cases datum with
  | empty =>
      refine ⟨sound, .refl heap, heap.has_none, heap.view_none, ?_⟩
      intro id reaches
      cases Reaches.eq_none reaches
  | scalar type payload =>
      have known (child : Value) (holds : Body.Holds ⟨type, .scalar payload⟩ child) :
          heap.Has child := by
        obtain ⟨elements, missing, _⟩ := holds
        cases missing
      refine ⟨sound.allocate known, heap.extends_allocate _, heap.has_allocate _,
        view_allocate sound known, ?_⟩
      intro id reaches
      rcases reaches_allocate sound known reaches with new | ⟨child, ⟨elements, missing, _⟩, _⟩
      · cases new
        exact le_rfl
      · cases missing
  | array type elements => exact (made_buildAll elements #[] heap sound).array type

theorem made_buildAll (data : List Datum) (built : Array Value) (heap : Heap)
    (sound : heap.Sound) :
    heap.MadeAll (buildAll data built heap).2 built (buildAll data built heap).1 data := by
  cases data with
  | nil => exact .nil sound built
  | cons datum rest =>
      have first := made_build datum heap sound
      exact .cons first (made_buildAll rest _ _ first.sound)

end

theorem made_deepCopy (sound : heap.Sound) (value : Value) :
    heap.Made (heap.deepCopy value).2 (heap.deepCopy value).1 (heap.view value) :=
  made_build (heap.view value) heap sound

/-! Copies of one body. -/

theorem holds_known (sound : heap.Sound) (found : heap.body? value = some body)
    (child : Value) (holds : body.Holds child) : heap.Has child :=
  ((sound value (.of_body? found)).element (.of_body? found holds)).has

/-- A copy of a value's body has the value's tree. -/
theorem view_copy (sound : heap.Sound) (found : heap.body? value = some body) :
    (heap.allocate body).2.view (heap.allocate body).1 = heap.view value := by
  rw [view_allocate sound (holds_known sound found),
    (sound value (.of_body? found)).view_of_body? found]

end CoopScript.Heap
