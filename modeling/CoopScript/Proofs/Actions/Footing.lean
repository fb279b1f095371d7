import CoopScript.Proofs.Actions.Grounds
import CoopScript.Proofs.Actions.Instructions
import CoopScript.Proofs.Heap.Ownership

/-!
Every instruction keeps a grounded machine grounded, and so do calls of blocks and the return from
them. A call of a native function does as far as its routine does.
-/

namespace CoopScript.Action

variable {known : Set Value} {id root : FrameId} {value : Value}

/-! Leaving blocks. -/

theorem grounds_breakLoop (root : FrameId) (fuel : Nat) (id : FrameId) :
    (breakLoop root fuel id).Grounds known := by
  induction fuel generalizing id known with
  | zero => exact grounds_throw _
  | succ fuel hypothesis =>
      apply (grounds_frame id).bind
      intro current
      apply (grounds_refill fun _ held => held).bind
      intro _
      extract_lets next
      split
      · exact grounds_throw_bind _ _
      · unfold next
        split
        · exact grounds_throw _
        · split
          · apply (grounds_frame _).bind
            intro caller
            exact (grounds_refill fun _ held => held)
          · exact hypothesis _

theorem grounds_breakRoutine (root : FrameId) (fuel : Nat) (id : FrameId) :
    (breakRoutine root fuel id).Grounds known := by
  induction fuel generalizing id known with
  | zero => exact grounds_throw _
  | succ fuel hypothesis =>
      apply (grounds_frame id).bind
      intro current
      apply (grounds_refill fun _ held => held).bind
      intro _
      split
      · exact grounds_pure (Set.empty_subset _)
      · split
        · exact grounds_throw _
        · exact hypothesis _

theorem grounds_resultFrame (root : FrameId) (fuel : Nat) (id : FrameId) :
    (resultFrame root fuel id).Grounds known := by
  induction fuel generalizing id known with
  | zero => exact grounds_throw _
  | succ fuel hypothesis =>
      apply (grounds_frame id).bind
      intro current
      split
      · exact grounds_pure (Set.empty_subset _)
      · split
        · split
          · exact grounds_throw _
          · exact (hypothesis _).weaken fun _ => Set.empty_subset _
        · exact grounds_throw _

/-! Values. -/

theorem grounds_writeThrough {target source : Value} (inside : target ∈ known)
    (given : source ∈ known) : (writeThrough target source).Grounds known := by
  apply grounds_get.bind
  intro machine
  dsimp only
  have rest : (do
      let id ← ofValueResult (machine.heap.overwritten target source)
      changeHeap fun heap => ((), heap.takeOver id source)).Grounds (known ∪ ∅) := by
    cases overwrites : machine.heap.overwritten target source with
    | error cause => exact grounds_throw_bind _ _
    | ok id =>
        obtain ⟨rfl, body, found⟩ := Heap.body?_of_overwritten overwrites
        show (changeHeap fun heap => ((), heap.takeOver id source)).Grounds (known ∪ ∅)
        refine grounds_changeHeap fun heap sound has => ?_
        cases source with
        | none => cases found
        | some own =>
            obtain ⟨body, found⟩ := Heap.exists_body? (has _ (.inl given))
            have replaces := Heap.replaces_takeOver sound (has _ (.inl inside)) found
            exact ⟨replaces.sound, replaces.size, fun _ => nofun⟩
  split
  · split
    · exact grounds_throw_bind _ _
    · exact rest
  · exact rest

theorem grounds_constructArray {elements : List Value} (given : ∀ value ∈ elements, value ∈ known) :
    (constructArray elements).Grounds known fun value => {value} := by
  unfold constructArray
  split
  · exact grounds_build _
  · next first rest =>
      apply (grounds_read _).bind
      intro element
      refine (grounds_readBody ?_).bind fun body => grounds_allocate fun child holds => .inr holds
      intro heap _ has body made child holds
      exact has child (.inl (given child (Heap.holds_of_arrayBody made holds)))

theorem grounds_stepVariable (id : FrameId) (place : Variable) (forward : Bool) :
    (stepVariable id place forward).Grounds known := by
  apply (grounds_readSlot id place).bind
  intro _
  apply (grounds_surface _).bind
  intro datum
  apply (grounds_ofResult _).bind
  intro _
  apply (grounds_build _).bind
  intro _
  exact grounds_writeSlot (.inr rfl) id place

theorem grounds_uniquify {shared : Value} (given : shared ∈ known) (roots : List Value) :
    (changeHeap fun heap => heap.uniquify roots shared).Grounds known fun value => {value} := by
  apply grounds_changeHeap
  intro heap sound has
  unfold Heap.uniquify
  split
  · unfold Heap.copy
    split
    · next body found =>
        refine ⟨sound.allocate (Heap.holds_known sound found), (heap.extends_allocate body).size, ?_⟩
        intro value same
        rw [Set.mem_singleton_iff.mp same]
        exact heap.has_allocate body
    · refine ⟨sound, le_rfl, ?_⟩
      intro value same
      rw [Set.mem_singleton_iff.mp same]
      exact heap.has_none
  · refine ⟨sound, le_rfl, ?_⟩
    intro value same
    rw [Set.mem_singleton_iff.mp same]
    exact has shared given

/-- An element that is taken for writing may be put into its array as a copy. -/
theorem grounds_claim (array : Value) (position : Nat) :
    (do
      let element ← readHeap fun heap => heap.index array position
      let roots := array :: (← get).roots
      changeHeap fun heap => heap.claim roots array position element).Grounds known
        fun value => {value} := by
  intro machine knows
  simp only [readHeap, EStateM.run_bind, EStateM.run_get]
  cases found : machine.heap.index array position with
  | error cause => exact knows.grounded
  | ok element =>
      obtain ⟨type, elements, held, there⟩ := Heap.index_eq_ok_iff.mp found
      cases array with
      | none => cases held
      | some id =>
          obtain ⟨keeps, has⟩ := Heap.keeps_claim knows.grounded.sound held there
            (show machine.heap.claim (some id :: machine.roots) (some id) position element = (_, _) from rfl)
          refine (knows.setHeap keeps.sound keeps.size).union ?_
          intro value same
          rw [Set.mem_singleton_iff.mp same]
          exact has

theorem Grounds.claim {β : Type} {next : Value → Action β} {gives : β → Set Value} {array : Value}
    {position : Nat} (rest : ∀ value, (next value).Grounds (known ∪ {value}) gives) :
    (do
      let element ← readHeap fun heap => heap.index array position
      let roots := array :: (← get).roots
      next (← changeHeap fun heap => heap.claim roots array position element)).Grounds known
        gives := by
  have claimed := (grounds_claim array position).bind rest
  simpa only [bind_assoc] using claimed

/-! Loops. -/

theorem grounds_countLoop (id : FrameId) : (countLoop id).Grounds known := by
  apply (grounds_peek id).bind
  intro _
  apply (grounds_toReal _).bind
  intro count
  split
  · apply (grounds_pop id).bind
    intro _
    exact ((grounds_pushDatum id _).bind fun _ => grounds_pushDatum id _)
  · exact grounds_pushDatum id _

theorem grounds_iterateLoop (id : FrameId) : (iterateLoop id).Grounds known := by
  apply (grounds_pop id).bind
  intro _
  apply (grounds_surface _).bind
  intro datum
  apply (grounds_ofResult _).bind
  intro position
  apply (grounds_peek id).bind
  intro array
  apply (grounds_read _).bind
  intro length
  split
  · apply (grounds_pushDatum id _).bind
    intro _
    apply (grounds_index array position).bind
    intro _
    exact (grounds_push (.inr rfl)).bind fun _ => grounds_pushDatum id _
  · refine (grounds_push ?_).bind fun _ => grounds_pushDatum id _
    simp

/-! Instructions. -/

theorem Grounds.going {action : Action Unit} (grounds : action.Grounds known) :
    (do action; return none : Action (Option Slice)).Grounds known :=
  grounds.bind fun _ => grounds_pure (Set.empty_subset _)

/-- Any instruction but a call keeps a grounded machine grounded. -/
theorem grounds_execute (natives : Natives) (number : ThreadId) (id : FrameId)
    {instruction : Instruction} (simple : instruction.call? = none) :
    (execute natives number id instruction).Grounds known := by
  cases instruction with
  | call callee arguments => cases simple
  | callAndPushResult callee arguments => cases simple
  | nop => exact grounds_pure (Set.empty_subset _)
  | pushValue literal => exact (grounds_pushDatum id literal).going
  | pushVariable place =>
      apply (grounds_readSlot id place).bind
      intro _
      exact (grounds_push (.inr rfl)).going
  | pushVariableWritable place =>
      apply (grounds_readSlot id place).bind
      intro shared
      apply grounds_get.bind
      intro machine
      apply (grounds_uniquify (.inl (.inr rfl)) machine.roots).bind
      intro value
      apply (grounds_writeSlot (.inr rfl) id place).bind
      intro _
      exact (grounds_push (.inl (.inr rfl))).going
  | assign place =>
      apply (grounds_pop id).bind
      intro _
      exact (grounds_writeSlot (.inr rfl) id place).going
  | assignWritable =>
      apply (grounds_pop id).bind
      intro _
      apply (grounds_pop id).bind
      intro _
      exact (grounds_writeThrough (.inr rfl) (.inl (.inr rfl))).going
  | dup =>
      apply (grounds_peek id).bind
      intro _
      exact (grounds_push (.inr rfl)).going
  | swap =>
      apply (grounds_frame id).bind
      intro held
      cases done : held.swap with
      | error error => exact grounds_throw_bind _ _
      | ok swapped =>
          exact (grounds_refill fun _ inside => mem_values_swap done inside).going
  | pop => exact (grounds_pop id).bind fun _ => grounds_pure (Set.empty_subset _)
  | arith operator =>
      apply (grounds_pop id).bind
      intro _
      apply (grounds_pop id).bind
      intro _
      apply grounds_get.bind
      intro machine
      apply (grounds_ofResult _).bind
      intro _
      exact (grounds_pushDatum id _).going
  | unary operator =>
      apply (grounds_pop id).bind
      intro _
      apply grounds_get.bind
      intro machine
      exact (grounds_ofResult _).bind fun _ => (grounds_pushDatum id _).going
  | compare operator =>
      apply (grounds_pop id).bind
      intro _
      apply (grounds_pop id).bind
      intro _
      exact (grounds_read _).bind fun _ => (grounds_pushDatum id _).going
  | logicAnd =>
      apply (grounds_popBoolean id).bind
      intro _
      apply (grounds_popBoolean id).bind
      intro _
      exact (grounds_pushDatum id _).going
  | logicOr =>
      apply (grounds_popBoolean id).bind
      intro _
      apply (grounds_popBoolean id).bind
      intro _
      exact (grounds_pushDatum id _).going
  | constructArray count =>
      apply (grounds_popMany id count).bind
      intro elements
      apply (grounds_constructArray fun _ inside => .inr inside).bind
      intro _
      exact (grounds_push (.inr rfl)).going
  | index =>
      refine (grounds_pop id).bind fun _ => (grounds_surface _).bind fun datum => ?_
      refine (grounds_ofResult _).bind fun _ => (grounds_pop id).bind fun _ => ?_
      exact (grounds_index _ _).bind fun _ => (grounds_push (.inr rfl)).going
  | indexWritable =>
      refine (grounds_pop id).bind fun _ => (grounds_surface _).bind fun datum => ?_
      refine (grounds_ofResult _).bind fun position => (grounds_pop id).bind fun array => ?_
      exact .claim fun _ => (grounds_push (.inr rfl)).going
  | append =>
      refine (grounds_pop id).bind fun element => (grounds_pop id).bind fun array => ?_
      refine (grounds_readBody ?_).bind fun body => ?_
      · intro heap sound has body made child holds
        rcases Heap.holds_of_appendedBody made holds with rfl | held
        · exact has child (.inl (.inr rfl))
        · exact ((sound _ (has _ (.inr rfl))).element held).has
      · refine (grounds_allocate fun child holds => .inr holds).bind fun _ => ?_
        exact (grounds_push (.inr rfl)).going
  | concatenate =>
      refine (grounds_pop id).bind fun second => (grounds_pop id).bind fun first => ?_
      refine (grounds_readBody ?_).bind fun body => ?_
      · intro heap sound has body made child holds
        rcases Heap.holds_of_concatenatedBody made holds with held | held
        · exact ((sound _ (has _ (.inr rfl))).element held).has
        · exact ((sound _ (has _ (.inl (.inr rfl)))).element held).has
      · refine (grounds_allocate fun child holds => .inr holds).bind fun _ => ?_
        exact (grounds_push (.inr rfl)).going
  | jump target => exact (grounds_jump id target).going
  | jumpIf target =>
      apply (grounds_popBoolean id).bind
      intro holds
      split
      · exact (grounds_jump id target).going
      · exact grounds_pure (Set.empty_subset _)
  | jumpIfNot target =>
      apply (grounds_popBoolean id).bind
      intro holds
      split
      · exact (grounds_jump id target).going
      · exact grounds_pure (Set.empty_subset _)
  | jumpIfNoPop target =>
      apply (grounds_peekBoolean id).bind
      intro holds
      split
      · exact (grounds_jump id target).going
      · exact grounds_pure (Set.empty_subset _)
  | jumpIfNotNoPop target =>
      apply (grounds_peekBoolean id).bind
      intro holds
      split
      · exact (grounds_jump id target).going
      · exact grounds_pure (Set.empty_subset _)
  | loopBack target => exact (grounds_jump id target).going
  | loopCount => exact (grounds_countLoop id).going
  | loopForEach => exact (grounds_iterateLoop id).going
  | breakLoop =>
      apply (grounds_thread number).bind
      intro entry
      exact (grounds_breakLoop _ _ id).going
  | breakRoutine =>
      apply (grounds_thread number).bind
      intro entry
      exact (grounds_breakRoutine _ _ id).going
  | setResult =>
      apply (grounds_pop id).bind
      intro value
      apply (grounds_thread number).bind
      intro entry
      apply (grounds_resultFrame _ _ id).bind
      intro target
      apply (grounds_frame target).bind
      intro held
      refine (grounds_setFrame ?_).going
      intro other inside
      rw [Frame.mem_values_iff] at inside
      rcases inside with slot | stacked | result
      · exact .inr (Frame.mem_values_iff.mpr (.inl slot))
      · exact .inr (Frame.mem_values_iff.mpr (.inr (.inl stacked)))
      · rw [result]
        exact .inl (.inl (.inl (.inr rfl)))
  | yield => exact grounds_pure (Set.empty_subset _)
  | wait =>
      apply (grounds_pop id).bind
      intro _
      apply (grounds_toReal _).bind
      intro number
      exact grounds_pure (Set.empty_subset _)
  | inlineInc place => exact (grounds_stepVariable id place true).going
  | inlineDec place => exact (grounds_stepVariable id place false).going
  | inlineAssign operator place =>
      apply (grounds_pop id).bind
      intro _
      apply (grounds_readSlot id place).bind
      intro _
      apply grounds_get.bind
      intro machine
      apply (grounds_ofResult _).bind
      intro _
      apply (grounds_build _).bind
      intro _
      exact (grounds_writeSlot (.inr rfl) id place).going

/-! Calls of blocks, and the return from them. -/

theorem grounds_descend (number : ThreadId) (id : FrameId) (block : BlockId)
    {arguments : List Value} (held : ∀ value ∈ arguments, value ∈ known) (pushesResult : Bool) :
    (descend number id block arguments pushesResult).Grounds known := by
  apply grounds_get.bind
  intro machine
  extract_lets depth next
  have rest : (next ()).Grounds (known ∪ ∅) := by
    apply (grounds_enter _ _ fun value inside => .inl (held value inside)).bind
    intro child
    apply (grounds_frame child).bind
    intro frame
    exact (grounds_refill fun _ inside => inside).bind fun _ => grounds_updateThread _ _
  split
  · exact grounds_throw_bind _ _
  · exact rest

theorem grounds_callBlock (number : ThreadId) (id : FrameId) (block : BlockId) (count : Nat)
    (pushesResult : Bool) : (callBlock number id block count pushesResult).Grounds known := by
  apply (grounds_block block).bind
  intro callee
  extract_lets ended popped checked
  have continued {known : Set Value} : (popped ()).Grounds known := by
    apply (grounds_popMany id count).bind
    intro arguments
    split
    · apply (grounds_launch _ _ fun _ inside => .inr inside).bind
      intro spawned
      exact (grounds_log _).bind fun _ => grounds_pure (Set.empty_subset _)
    · apply (grounds_descend number id block (fun _ inside => .inr inside) _).bind
      intro _
      exact grounds_pure (Set.empty_subset _)
  split
  · exact grounds_throw_bind _ _
  · unfold checked
    split
    · exact grounds_throw_bind _ _
    · exact continued

theorem grounds_leave (number : ThreadId) : (leave number).Grounds known := by
  apply (grounds_thread number).bind
  intro thread
  split
  · refine .modify_bind (fun _ => rfl) (fun _ => rfl) ?_
    exact (grounds_retire _).bind fun _ => grounds_pure (Set.empty_subset _)
  · apply (grounds_frame _).bind
    intro frame
    split
    · exact grounds_throw _
    · next parent named =>
        have result : frame.result ∈ frame.values := Frame.mem_values_iff.mpr (.inr (.inr rfl))
        have returned {known : Set Value} : (do
            updateThread number fun thread =>
              { thread with current := parent, depth := thread.depth - 1 }
            return false : Action Bool).Grounds known :=
          (grounds_updateThread number _).bind fun _ => grounds_pure (Set.empty_subset _)
        split
        · apply (grounds_clearResult frame).bind
          intro _
          apply (grounds_retire _).bind
          intro _
          exact (grounds_push (.inl (.inl (.inr result)))).bind fun _ => returned
        · exact (grounds_retire _).bind fun _ => returned

theorem grounds_count : count.Grounds known := by
  refine .modify_bind (fun _ => rfl) (fun _ => rfl) ?_
  apply grounds_get.bind
  intro machine
  split
  · split
    · exact grounds_throw _
    · exact grounds_pure (Set.empty_subset _)
  · exact grounds_pure (Set.empty_subset _)

/-- The next instruction. -/
theorem grounds_fetch (id : FrameId) : (fetch id).Grounds known := by
  refine (grounds_frame id).bind fun frame => (grounds_block _).bind fun block => ?_
  split
  · exact grounds_pure (Set.empty_subset _)
  · refine .modify_bind (fun _ => rfl) (fun _ => rfl) ?_
    refine grounds_count.bind fun _ => (grounds_setFrame ?_).bind fun _ => ?_
    · exact fun value inside => .inl (.inl (.inr inside))
    · exact grounds_pure (Set.empty_subset _)

end CoopScript.Action
