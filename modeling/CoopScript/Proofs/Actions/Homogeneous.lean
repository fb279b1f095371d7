import CoopScript.Proofs.Actions.Keeping
import CoopScript.Proofs.Actions.Mirroring
import CoopScript.Proofs.Actions.Runs
import CoopScript.Proofs.Heap.Results

/-!
Instructions in homogeneous heaps. Every instruction but one keeps them homogeneous by the checks that
it makes. The assignment through a handle does so if the heap admits what it stores.
-/

namespace CoopScript

/-- What an assignment through a handle lets pass: a value of the same type, or one array for another
if one of them is empty. -/
def Heap.Stores (heap : Heap) (target source : Value) : Prop :=
  heap.type? target = heap.type? source ∨
    (heap.isBare target = true ∨ heap.isBare source = true) ∧
      ∃ old new, heap.type? target = some old ∧ heap.type? source = some new ∧
        old.isArray = true ∧ new.isArray = true

namespace Action

variable {α β γ : Type} {property : Heap → Prop} {fits : Ty → Ty → Prop} {heap : Heap}
  {natives : Natives} {number : ThreadId} {id : FrameId} {target source : Value}

/-- What follows on two actions that keep a property together. -/
theorem Keeps.followed {action : Action α} {next : α → Action β} {last : β → Action γ}
    (first : KeepsHeap property (action >>= next)) (rest : ∀ result, KeepsHeap property (last result)) :
    KeepsHeap property (action >>= fun result => next result >>= last) := by
  rw [← bind_assoc]
  exact first.bind rest

/-! New bodies. -/

theorem keeps_build {datum : Datum} (typed : datum.Typed fits) :
    KeepsHeap (Heap.Homogeneous fits) (build datum) :=
  keeps_changeHeap fun heap homogeneous => .build datum heap homogeneous typed

theorem keeps_pushDatum {datum : Datum} (typed : datum.Typed fits) (id : FrameId) :
    KeepsHeap (Heap.Homogeneous fits) (pushDatum id datum) :=
  (keeps_build typed).bind fun _ => inferInstance

instance (number : Float) : KeepsHeap (Heap.Homogeneous fits) (pushDatum id (.real number)) :=
  keeps_pushDatum (Datum.typed_real number) id

instance (holds : Bool) : KeepsHeap (Heap.Homogeneous fits) (pushDatum id (.boolean holds)) :=
  keeps_pushDatum (Datum.typed_boolean holds) id

instance (roots : List Value) (value : Value) : KeepsHeap (Heap.Homogeneous fits)
    (changeHeap fun heap => heap.uniquify roots value) :=
  keeps_changeHeap fun _ homogeneous => homogeneous.uniquify roots value

/-- A new array with a body that was read off the heap. -/
theorem keeps_readBody {read : Heap → Except ValueError Body}
    (typed : ∀ heap body, heap.Homogeneous fits → read heap = .ok body → body.Typed fits heap.type?) :
    KeepsHeap (Heap.Homogeneous fits) (readHeap read >>= allocate) where
  ensures := by
    intro machine homogeneous
    simp only [readHeap, EStateM.run_bind, EStateM.run_get]
    cases found : read machine.heap with
    | error cause => exact homogeneous
    | ok body => exact homogeneous.allocate (typed machine.heap body homogeneous found)

/-- An element that is taken for writing. -/
theorem keeps_claim (array : Value) (position : Nat) : KeepsHeap (Heap.Homogeneous fits) (do
    let element ← readHeap fun heap => heap.index array position
    let roots := array :: (← get).roots
    changeHeap fun heap => heap.claim roots array position element) where
  ensures := by
    intro machine homogeneous
    simp only [readHeap, EStateM.run_bind, EStateM.run_get]
    cases found : machine.heap.index array position with
    | error cause => exact homogeneous
    | ok element => exact homogeneous.claim found _

section Reflexive

variable (reflexive : ∀ type, fits type type)

include reflexive

theorem keeps_constructArray (elements : List Value) :
    KeepsHeap (Heap.Homogeneous fits) (constructArray elements) := by
  unfold constructArray
  split
  · exact keeps_build (Datum.typed_string reflexive "")
  · exact Keeps.bind inferInstance fun type =>
      keeps_readBody fun _ _ _ => Heap.Homogeneous.arrayBody reflexive

theorem keeps_arith (operator : ArithOp) (first second : Value) (next : Datum → Action β)
    (rest : ∀ datum, datum.Typed fits → KeepsHeap (Heap.Homogeneous fits) (next datum)) :
    KeepsHeap (Heap.Homogeneous fits)
      (do next (← ofResult ((← get).heap.arith operator first second))) := by
  refine Keeps.bind inferInstance fun machine => keeps_ofResult_bind fun datum made => ?_
  rw [Heap.arith_eq] at made
  exact rest datum (Datum.typed_arith reflexive _ _ datum made)

theorem keeps_unary (operator : UnaryOp) (operand : Value) (next : Datum → Action β)
    (rest : ∀ datum, datum.Typed fits → KeepsHeap (Heap.Homogeneous fits) (next datum)) :
    KeepsHeap (Heap.Homogeneous fits) (do next (← ofResult ((← get).heap.unary operator operand))) := by
  refine Keeps.bind inferInstance fun machine => keeps_ofResult_bind fun datum made => ?_
  rw [Heap.unary_eq] at made
  exact rest datum (Datum.typed_unary reflexive operator _ datum made)

omit reflexive in
theorem keeps_stepVariable (id : FrameId) (place : Variable) (forward : Bool) :
    KeepsHeap (Heap.Homogeneous fits) (stepVariable id place forward) := by
  unfold stepVariable
  refine Keeps.bind inferInstance fun value => Keeps.bind inferInstance fun datum => ?_
  refine keeps_ofResult_bind fun next made => ?_
  exact (keeps_build (Datum.typed_step made)).bind fun _ => inferInstance

omit reflexive in
theorem keeps_countLoop (id : FrameId) : KeepsHeap (Heap.Homogeneous fits) (countLoop id) := by
  unfold countLoop
  infer_instance

omit reflexive in
theorem keeps_iterateLoop (id : FrameId) : KeepsHeap (Heap.Homogeneous fits) (iterateLoop id) := by
  have steps (array : Value) (position : Nat) : KeepsHeap (Heap.Homogeneous fits) (do
      pushDatum id (.real (Float.ofNat position + 1.0))
      push id (← readHeap fun heap => heap.index array position)
      pushDatum id (.boolean true)) := inferInstance
  unfold iterateLoop
  infer_instance

/-- Every instruction but the assignment through a handle and calls keeps a homogeneous heap
homogeneous, if its literal is typed. -/
theorem keeps_execute (natives : Natives) (number : ThreadId) (id : FrameId)
    {instruction : Instruction} (simple : instruction.call? = none)
    (literal : ∀ datum, instruction = .pushValue datum → datum.Typed fits)
    (apart : instruction ≠ .assignWritable) :
    KeepsHeap (Heap.Homogeneous fits) (execute natives number id instruction) := by
  cases instruction with
  | call callee arguments => cases simple
  | callAndPushResult callee arguments => cases simple
  | assignWritable => exact (apart rfl).elim
  | pushValue datum => exact (keeps_pushDatum (literal datum rfl) id).bind fun _ => inferInstance
  | arith operator =>
      refine Keeps.bind inferInstance fun second => Keeps.bind inferInstance fun first => ?_
      exact keeps_arith reflexive operator first second _ fun datum typed =>
        (keeps_pushDatum typed id).bind fun _ => inferInstance
  | unary operator =>
      refine Keeps.bind inferInstance fun operand => ?_
      exact keeps_unary reflexive operator operand _ fun datum typed =>
        (keeps_pushDatum typed id).bind fun _ => inferInstance
  | inlineAssign operator place =>
      refine Keeps.bind inferInstance fun second => Keeps.bind inferInstance fun first => ?_
      exact keeps_arith reflexive operator first second _ fun datum typed =>
        (keeps_build typed).bind fun _ => inferInstance
  | inlineInc place => exact (keeps_stepVariable id place true).bind fun _ => inferInstance
  | inlineDec place => exact (keeps_stepVariable id place false).bind fun _ => inferInstance
  | constructArray count =>
      refine Keeps.bind inferInstance fun elements => ?_
      exact (keeps_constructArray reflexive elements).bind fun _ => inferInstance
  | append =>
      refine Keeps.bind inferInstance fun element => Keeps.bind inferInstance fun array => ?_
      exact (keeps_readBody fun _ _ homogeneous => homogeneous.appendedBody reflexive).followed
        fun _ => inferInstance
  | concatenate =>
      refine Keeps.bind inferInstance fun second => Keeps.bind inferInstance fun first => ?_
      exact (keeps_readBody fun _ _ homogeneous => homogeneous.concatenatedBody).followed
        fun _ => inferInstance
  | indexWritable =>
      refine Keeps.bind inferInstance fun index => Keeps.bind inferInstance fun datum => ?_
      refine Keeps.bind inferInstance fun position => Keeps.bind inferInstance fun array => ?_
      have claims := (keeps_claim array position).bind fun value =>
        (inferInstance : KeepsHeap (Heap.Homogeneous fits)
          (do push id value; return none : Action (Option Slice)))
      simpa only [bind_assoc] using claims
  | loopCount => exact (keeps_countLoop id).bind fun _ => inferInstance
  | loopForEach => exact (keeps_iterateLoop id).bind fun _ => inferInstance
  | _ =>
      unfold execute
      infer_instance

end Reflexive

/-! The assignment through a handle. -/

/-- The machine has this heap, and the frame these operands. -/
def Operands (heap : Heap) (id : FrameId) (stack : List Value) (machine : Machine) : Prop :=
  machine.heap = heap ∧ ∃ frame, machine.frames.frame? id = some frame ∧ frame.stack = stack

theorem pop_operands {stack : List Value} : (pop id).Ensures (Operands heap id stack)
    (fun value after => ∃ rest, stack = value :: rest ∧ Operands heap id rest after)
    fun _ after => after.heap = heap := by
  rintro machine ⟨same, frame, live, stacked⟩
  have keeps : KeepsHeap (· = heap) (pop id) := inferInstance
  cases ran : (pop id).run machine with
  | error error after => exact keeps.error same ran
  | ok value after =>
      have kept := keeps.ok same ran
      obtain ⟨held, rest, found, top, rfl⟩ := run_pop ran
      cases live.symm.trans found
      refine ⟨rest, stacked.symm.trans top, kept, { frame with stack := rest }, ?_, rfl⟩
      exact FrameArena.frame?_set_self _ (FrameArena.index_lt_of_frame? found)

/-- An assignment through a handle makes sure of the types, but not of the arrays that hold the
target. -/
theorem writeThrough_homogeneous (homogeneous : heap.Homogeneous fits)
    (admits : heap.Stores target source → heap.Admits fits target source) :
    (writeThrough target source).Ensures (·.heap = heap)
      (fun _ after => after.heap.Homogeneous fits) fun _ after => after.heap.Homogeneous fits := by
  rintro machine rfl
  have writes (admits : machine.heap.Admits fits target source) : (do
      let id ← ofValueResult (machine.heap.overwritten target source)
      changeHeap fun heap => ((), heap.takeOver id source) : Action Unit).Ensures (machine = ·)
        (fun _ after => after.heap.Homogeneous fits) fun _ after => after.heap.Homogeneous fits := by
    rintro _ rfl
    cases overwrites : machine.heap.overwritten target source with
    | error cause => exact homogeneous
    | ok id =>
        obtain ⟨rfl, _, _⟩ := Heap.body?_of_overwritten overwrites
        exact homogeneous.takeOver admits
  have stores : (store (machine.heap.type? target) (machine.heap.type? source)
      (machine.heap.isBare target || machine.heap.isBare source)
      (machine.heap.overwritten target source) source).Ensures (machine = ·)
        (fun _ after => after.heap.Homogeneous fits) fun _ after => after.heap.Homogeneous fits := by
    unfold store
    split
    · next targetType sourceType targetTyped sourceTyped =>
        dsimp only
        split
        · exact Ensures.throw fun _ same => same ▸ homogeneous
        · next passed =>
            apply writes
            apply admits
            simp only [Bool.not_eq_true, Bool.not_eq_false', Bool.or_eq_true, decide_eq_true_eq,
              Bool.and_eq_true] at passed
            rcases passed with rfl | ⟨arrays, bare⟩
            · exact .inl (targetTyped.trans sourceTyped.symm)
            · exact .inr ⟨bare, targetType, sourceType, targetTyped, sourceTyped, arrays⟩
    · next untyped =>
        apply writes
        exact .inr fun old new expected had given => (untyped old new had given).elim
  rw [writeThrough_eq]
  exact Ensures.bind_of_run rfl stores machine rfl

/-- The operands of an assignment through a handle are the source and, below it, the target. -/
theorem assignWritable_homogeneous {stack : List Value} (homogeneous : heap.Homogeneous fits)
    (admits : ∀ target source rest, stack = source :: target :: rest → heap.Stores target source →
      heap.Admits fits target source) :
    (execute natives number id .assignWritable).Ensures (Operands heap id stack)
      (fun _ after => after.heap.Homogeneous fits) fun _ after => after.heap.Homogeneous fits := by
  have pops {stack : List Value} : (pop id).Ensures (Operands heap id stack)
      (fun value after => ∃ rest, stack = value :: rest ∧ Operands heap id rest after)
      fun _ after => after.heap.Homogeneous fits :=
    pop_operands.weaken (fun _ holds => holds) (fun _ _ holds => holds)
      fun _ _ same => same ▸ homogeneous
  refine Ensures.bind pops fun source => ?_
  rintro machine ⟨rest, rfl, ready⟩
  refine Ensures.bind pops (fun target => ?_) machine ready
  rintro machine ⟨below, rfl, same, _⟩
  have writes := writeThrough_homogeneous homogeneous (admits target source below rfl)
  exact Ensures.bind writes (fun _ => .pure fun _ holds => holds) machine same

end Action

end CoopScript
