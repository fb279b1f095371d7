import CoopScript.Proofs.Heap.Overwriting
import CoopScript.Proofs.Machine.Assignment
import CoopScript.Proofs.Machine.Spelling
import CoopScript.Proofs.Machine.Stopping

/-!
Assignments with an operator as one instruction and spelled out. Both do the same to every variable
and every stack, whatever bodies are shared, and fail on the same values.
-/

namespace CoopScript

/-! New values. -/

/-- The only handle on a new value is the one among the roots. -/
theorem Heap.referenceCount_made {heap after : Heap} {id : BodyId} {datum : Datum} {roots : List Value}
    (made : heap.Made after (some id) datum) (once : roots.count (some id) = 1)
    (known : ∀ root ∈ roots, root = some id ∨ heap.Has root) (sound : heap.Sound) :
    after.referenceCount roots (some id) = 1 := by
  have loopless := made.sound.acyclic.loopless
  rw [referenceCount_eq, once, Nat.add_eq_left]
  refine Finset.sum_eq_zero fun index live => ?_
  by_contra positive
  have holds := weight_pos_iff.mp (Nat.pos_of_ne_zero positive)
  obtain ⟨root, inside, leads⟩ :=
    reaches_of_mem_live (Std.TreeSet.mem_toList.mp (List.mem_toFinset.mp live))
  rcases known root inside with rfl | had
  · exact loopless _ (.tail' leads holds)
  · have reaches := (made.extended.spares (sound root had)).reaches_iff.mp (leads.tail holds)
    have older := ((sound root had).reached reaches).has id rfl
    exact absurd older (Nat.not_lt.mpr (made.fresh id .refl))

open FrameArena

namespace Machine

variable {machine after : Machine} {natives : Natives} {number : ThreadId} {entry : Thread}
  {frame : Frame} {instruction : Instruction} {steps line : Nat} {stack rest : List Value}
  {heap : Heap} {operator : ArithOp} {place : Variable} {top : Value} {room : Nat}

/-! What the courses have in common. -/

/-- The machine goes on with this stack in a frame. The place holds a new value with this tree, to
which nothing else leads; the places beside it and the stack hold what they held before, and whatever
there was has the tree that it had. -/
structure Rebound (machine after : Machine) (id : FrameId) (stack : List Value) (place : Place)
    (datum : Datum) : Prop where
  going : after.stopped = false
  clean : after.error = none
  live : ∃ frame, after.frames.frame? id = some frame ∧ frame.stack = stack
  shown : after.datum? place = some datum
  bound : ∃ fresh : BodyId, after.frames.value? place = some (some fresh) ∧
    machine.heap.size ≤ fresh.index ∧ after.heap.referenceCount after.roots (some fresh) = 1
  others : ∀ other, other ≠ place → (∀ depth, other ≠ .operand id depth) →
    after.frames.value? other = machine.frames.value? other
  views : ∀ value, machine.heap.Has value → after.heap.view value = machine.heap.view value

/-- With another stack the machine holds what it held, and what is on the stack. -/
theorem Ready.has_further (ready : machine.Ready number entry frame room)
    (grounded : machine.Grounded) (known : ∀ value ∈ stack, machine.heap.Has value) {value : Value}
    (inside : value ∈ (machine.further entry.current steps line stack heap).frames.values) :
    machine.heap.Has value := by
  obtain ⟨place, there⟩ := mem_values_iff_place.mp inside
  by_cases operand : ∃ depth, place = .operand entry.current depth
  · obtain ⟨depth, rfl⟩ := operand
    have stacked := (value?_restacked_operand ready.live steps depth stack).symm.trans there
    exact known value (List.mem_of_getElem? stacked)
  · have beside (depth : Nat) : place ≠ .operand entry.current depth := fun same =>
      operand ⟨depth, same⟩
    exact grounded.has_of_place ((value?_restacked beside ..).symm.trans there)

theorem Ready.rebound (ready : machine.Ready number entry frame room) (grounded : machine.Grounded)
    (known : ∀ value ∈ stack, machine.heap.Has value) (sound : heap.Sound)
    (extended : machine.heap.Extends heap) {holder : FrameId} {old : Value}
    (found : machine.frames.lookup entry.current place = .ok (holder, old)) {datum : Datum}
    (full : datum ≠ .empty) :
    machine.Rebound ((machine.further entry.current steps line stack heap).rebound datum holder
      place.slot) entry.current stack (.slot holder place.slot) datum := by
  have made := Heap.made_build datum heap sound
  obtain ⟨fresh, built⟩ : ∃ fresh, (Heap.build datum heap).1 = some fresh := by
    cases built : (Heap.build datum heap).1 with
    | none => exact absurd (made.view.symm.trans (built ▸ Heap.view_none _)) full
    | some fresh => exact ⟨fresh, rfl⟩
  have slot : (machine.further entry.current steps line stack heap).frames.value?
      (.slot holder place.slot) = some old :=
    (lookup_eq_ok_iff.mp (Action.lookup_further.trans found)).2
  have bound := value?_withSlot_self slot (Heap.build datum heap).1
  have young := extended.size.trans (made.fresh fresh (built ▸ .refl))
  constructor
  case going => exact ready.going
  case clean => exact ready.clean
  case live =>
    have live : (machine.further entry.current steps line stack heap).frames.frame? entry.current =
      some (frame.restacked steps stack) := Action.frame?_further ready.live
    have edited := frame?_edit (machine.further entry.current steps line stack heap).frames holder
      (.withSlot place.slot (Heap.build datum heap).1) entry.current
    split at edited
    · next same =>
        subst same
        rw [live] at edited
        exact ⟨_, edited, rfl⟩
    · exact ⟨_, edited.trans live, rfl⟩
  case shown =>
    show Option.map _ _ = _
    exact (congrArg _ bound).trans (congrArg some made.view)
  case bound =>
    refine ⟨fresh, bound.trans (congrArg some built), young, ?_⟩
    have older (root : Value)
        (inside : root ∈ (machine.further entry.current steps line stack heap).frames.values) :
        machine.heap.Has root := ready.has_further grounded known inside
    have absent : some fresh ∉ (machine.further entry.current steps line stack heap).frames.values :=
      fun inside => absurd (older _ inside fresh rfl) (Nat.not_lt.mpr young)
    -- Nothing that the machine held names the new body, so the slot is the only root that does.
    have once := count_values_withSlot slot absent
    rw [built] at made
    refine Heap.referenceCount_made made ?_ ?_ sound
    · rw [← built] at once ⊢
      exact once
    · intro root inside
      obtain ⟨other, there⟩ := mem_values_iff_place.mp inside
      by_cases same : other = .slot holder place.slot
      · subst same
        exact .inl (Option.some.inj (there.symm.trans bound) |>.trans built)
      · have kept := (value?_withSlot_of_ne same ..).symm.trans there
        exact .inr ((older root (mem_values_iff_place.mpr ⟨other, kept⟩)).mono extended.size)
  case others =>
    intro other apart beside
    exact (value?_withSlot_of_ne apart ..).trans (value?_restacked beside ..)
  case views =>
    intro value had
    have kept := made.extended.view (sound value (had.mono extended.size))
    exact kept.trans (extended.view (grounded.sound value had))

theorem Ready.rebound_of_ends (ready : machine.Ready number entry frame room)
    (grounded : machine.Grounded) (known : ∀ value ∈ stack, machine.heap.Has value)
    (sound : heap.Sound) (extended : machine.heap.Extends heap) {holder : FrameId} {old : Value}
    (found : machine.frames.lookup entry.current place = .ok (holder, old)) {datum : Datum}
    (full : datum ≠ .empty) (ends : machine.Ends entry.current place.slot steps stack heap
      (.ok (holder, datum)) after) :
    machine.Rebound after entry.current stack (.slot holder place.slot) datum := by
  cases ends with
  | done line same =>
      subst same
      exact ready.rebound grounded known sound extended found full

namespace Rebound

variable {last : Machine} {id : FrameId} {slot : Place} {datum : Datum}

/-- The script does not matter. -/
theorem of_script {script : Script} (rebound : { machine with script }.Rebound after id stack slot datum) :
    machine.Rebound after id stack slot datum where
  going := rebound.going
  clean := rebound.clean
  live := rebound.live
  shown := rebound.shown
  bound := rebound.bound
  others := rebound.others
  views := rebound.views

theorem datum?_of_value? (rebound : machine.Rebound after id stack slot datum) {place : Place}
    {held : Option Value} (there : after.frames.value? place = held)
    (has : ∀ value, held = some value → machine.heap.Has value) :
    after.datum? place = held.map machine.heap.view := by
  rw [Machine.datum?, there]
  cases held with
  | none => rfl
  | some value => exact congrArg some (rebound.views value (has value rfl))

/-- Beside the slot there are the trees of the stack and those of before. -/
theorem datum?_beside (rebound : machine.Rebound after id stack slot datum)
    (grounded : machine.Grounded) (known : ∀ value ∈ stack, machine.heap.Has value) {place : Place}
    (apart : place ≠ slot) :
    after.datum? place = (match place with
      | .operand own depth => if own = id then stack[depth]? else machine.frames.value? place
      | _ => machine.frames.value? place).map machine.heap.view := by
  have before {place : Place} (value : Value) (there : machine.frames.value? place = some value) :
      machine.heap.Has value := grounded.has_of_place there
  cases place with
  | slot own index => exact rebound.datum?_of_value? (rebound.others _ apart nofun) before
  | result own => exact rebound.datum?_of_value? (rebound.others _ apart nofun) before
  | operand own depth =>
      by_cases same : own = id
      · subst same
        obtain ⟨frame, live, rfl⟩ := rebound.live
        have there : after.frames.value? (.operand own depth) = frame.stack[depth]? := by
          rw [value?, live, Option.bind_some]
        simp only [if_true]
        exact rebound.datum?_of_value? there fun value inside =>
          known value (List.mem_of_getElem? inside)
      · have beside (other : Nat) : Place.operand own depth ≠ .operand id other := by
          rintro ⟨⟩
          exact same rfl
        simp only [if_neg same]
        exact rebound.datum?_of_value? (rebound.others _ apart beside) before

/-- The same tree in the same slot over the same stack leaves no difference between the trees. -/
theorem datum?_eq (one : machine.Rebound after id stack slot datum)
    (two : machine.Rebound last id stack slot datum) (grounded : machine.Grounded)
    (known : ∀ value ∈ stack, machine.heap.Has value) (place : Place) :
    after.datum? place = last.datum? place := by
  by_cases same : place = slot
  · rw [same, one.shown, two.shown]
  · rw [one.datum?_beside grounded known same, two.datum?_beside grounded known same]

end Rebound

theorem place?_of_lookup {id holder : FrameId} {old : Value}
    (found : machine.frames.lookup id place = .ok (holder, old)) :
    machine.place? id place = some (.slot holder place.slot) := by
  rw [place?, (lookup_eq_ok_iff.mp found).1]

theorem Ready.has_stack (ready : machine.Ready number entry frame room) (grounded : machine.Grounded)
    (value : Value) (inside : value ∈ frame.stack) : machine.heap.Has value := by
  obtain ⟨depth, there⟩ := List.getElem?_of_mem inside
  refine @Grounded.has_of_place machine grounded (.operand entry.current depth) value ?_
  rw [value?, ready.live, Option.bind_some, there]

/-- Two courses bind a variable anew, and no place tells them apart. -/
structure Agreement (machine first second : Machine) (id : FrameId) (stack : List Value)
    (place : Variable) : Prop where
  rebound : ∃ slot datum, machine.place? id place = some slot ∧
    machine.Rebound first id stack slot datum ∧ machine.Rebound second id stack slot datum
  trees : ∀ place, second.datum? place = first.datum? place

theorem Ready.assign_agrees (natives : Natives) (ready : machine.Ready number entry frame (room + 4))
    (grounded : machine.Grounded) {script : Script}
    (coded : (machine.code frame.block)[frame.position]? = some (.inlineAssign operator place))
    (next : (Instruction.inlineAssign operator place).spelled <+:
      ({ machine with script }.code frame.block).drop frame.position)
    (stacked : frame.stack = top :: rest) :
    (∃ error, (machine.move natives).Failed error ∧
      ((Machine.move natives)^[4] { machine with script }).Failed error) ∨
    machine.Agreement (machine.move natives) ((Machine.move natives)^[4] { machine with script })
      entry.current rest place := by
  have inline := ready.inlineAssign natives coded stacked
  have plain := (ready.of_script script).spelledAssign natives next stacked
  have known (value : Value) (inside : value ∈ rest) : machine.heap.Has value :=
    ready.has_stack grounded value (stacked ▸ List.mem_cons_of_mem _ inside)
  have same : { machine with script }.combination machine.heap entry.current operator place top =
      machine.combination machine.heap entry.current operator place top := rfl
  rw [same] at plain
  cases found : machine.frames.lookup entry.current place with
  | error error =>
      rw [combination, found] at inline plain
      exact .inl ⟨error, inline.failed_of_error, plain.failed_of_error⟩
  | ok pair =>
      obtain ⟨holder, old⟩ := pair
      rw [combination_of_lookup found, Heap.arith_eq] at inline plain
      cases made : Datum.arith operator (machine.heap.view old) (machine.heap.view top) with
      | error error =>
          rw [made] at inline plain
          exact .inl ⟨error, inline.failed_of_error, plain.failed_of_error⟩
      | ok datum =>
          rw [made] at inline plain
          have full := Datum.arith_ne_empty made
          have one := ready.rebound_of_ends grounded known grounded.sound (.refl _) found full inline
          have two := ((ready.of_script script).rebound_of_ends (grounded.of_eq rfl rfl) known
            grounded.sound (.refl _) found full plain).of_script
          exact .inr ⟨⟨_, datum, place?_of_lookup found, one, two⟩, two.datum?_eq one grounded known⟩

theorem lookup_of_place? {id : FrameId} {slot : Place} {old : Value}
    (named : machine.place? id place = some slot) (there : machine.frames.value? slot = some old) :
    ∃ holder, machine.frames.lookup id place = .ok (holder, old) := by
  unfold place? at named
  split at named
  · next holder resolved =>
      cases named
      exact ⟨holder, lookup_eq_ok_iff.mpr ⟨resolved, there⟩⟩
  · cases named

theorem datum?_of_lookup {id holder : FrameId} {old : Value}
    (found : machine.frames.lookup id place = .ok (holder, old)) :
    machine.datum? (.slot holder place.slot) = some (machine.heap.view old) := by
  rw [Machine.datum?, (lookup_eq_ok_iff.mp found).2]
  rfl

theorem Ready.step_agrees (natives : Natives) (ready : machine.Ready number entry frame (room + 4))
    (grounded : machine.Grounded) {script : Script} (forward : Bool)
    (coded : (machine.code frame.block)[frame.position]? = some (.inlineStep forward place))
    (next : (Instruction.inlineStep forward place).spelled <+:
      ({ machine with script }.code frame.block).drop frame.position)
    (other : ∀ slot type character, machine.place? entry.current place = some slot →
      machine.datum? slot ≠ some (.scalar type (.char character))) :
    (∃ error also, (machine.move natives).Failed error ∧
      ((Machine.move natives)^[4] { machine with script }).Failed also) ∨
    machine.Agreement (machine.move natives) ((Machine.move natives)^[4] { machine with script })
      entry.current frame.stack place := by
  rw [Instruction.spelled_inlineStep] at next
  have inline := ready.inlineStep natives forward coded
  have plain := (ready.of_script script).spelledStep natives next
  have made := Heap.made_build (.real 1.0) machine.heap grounded.sound
  have same : { machine with script }.combination (Heap.build (.real 1.0) machine.heap).2
      entry.current (if forward then .add else .sub) place (Heap.build (.real 1.0) machine.heap).1 =
    machine.combination (Heap.build (.real 1.0) machine.heap).2 entry.current
      (if forward then .add else .sub) place (Heap.build (.real 1.0) machine.heap).1 := rfl
  rw [same] at plain
  cases found : machine.frames.lookup entry.current place with
  | error error =>
      rw [successor, found] at inline
      rw [combination, found] at plain
      exact .inl ⟨error, error, inline.failed_of_error, plain.failed_of_error⟩
  | ok pair =>
      obtain ⟨holder, old⟩ := pair
      have had := grounded.has_of_place (lookup_eq_ok_iff.mp found).2
      rw [successor_of_lookup found] at inline
      -- The variable shows the same tree beside the literal as without it.
      rw [combination_of_lookup found, Heap.arith_eq, made.view,
        made.extended.view (grounded.sound old had)] at plain
      have kind (type : Ty) (character : Char) : machine.heap.view old ≠ .scalar type (.char character) :=
        fun shown => other _ type character (place?_of_lookup found)
          ((datum?_of_lookup found).trans (congrArg some shown))
      rcases Datum.step_agrees (machine.heap.view old) forward kind with
        ⟨result, stepped, summed⟩ | ⟨⟨error, stepped⟩, also, summed⟩
      · have full := Datum.arith_ne_empty summed
        rw [stepped] at inline
        rw [summed] at plain
        have known := ready.has_stack grounded
        have one := ready.rebound_of_ends grounded known grounded.sound (.refl _) found full inline
        have two := ((ready.of_script script).rebound_of_ends (grounded.of_eq rfl rfl) known
          made.sound made.extended found full plain).of_script
        exact .inr ⟨⟨_, _, place?_of_lookup found, one, two⟩, two.datum?_eq one grounded known⟩
      · rw [stepped] at inline
        rw [summed] at plain
        exact .inl ⟨error, also, inline.failed_of_error, plain.failed_of_error⟩

/-- A character in a variable steps to its neighbour among the code points or, where that is no
character, fails. -/
theorem Ready.step_char (natives : Natives) (ready : machine.Ready number entry frame (room + 1))
    (grounded : machine.Grounded) (forward : Bool)
    (coded : (machine.code frame.block)[frame.position]? = some (.inlineStep forward place))
    {slot : Place} {type : Ty} {character : Char}
    (named : machine.place? entry.current place = some slot)
    (shown : machine.datum? slot = some (.scalar type (.char character))) :
    let code : Int := character.toNat + (if forward then 1 else -1)
    (∃ next : Char, next.toNat = code ∧
      machine.Rebound (machine.move natives) entry.current frame.stack slot (.char next)) ∨
    ((∀ next : Char, (next.toNat : Int) ≠ code) ∧ ∃ error, (machine.move natives).Failed error) := by
  intro code
  obtain ⟨old, there, same⟩ := Option.map_eq_some_iff.mp shown
  obtain ⟨holder, found⟩ := lookup_of_place? named there
  cases (place?_of_lookup found).symm.trans named
  have inline := ready.inlineStep natives forward coded
  rw [successor_of_lookup found, same] at inline
  rcases Datum.step_char type character forward with ⟨next, neighbour, stepped⟩ | ⟨none, error, stepped⟩
  · rw [stepped] at inline
    have full : Datum.char next ≠ .empty := nofun
    exact .inl ⟨next, neighbour, ready.rebound_of_ends grounded (ready.has_stack grounded)
      grounded.sound (.refl _) found full inline⟩
  · rw [stepped] at inline
    exact .inr ⟨none, error, inline.failed_of_error⟩

/-! The instructions in a session. -/

/-- Wherever a session has come to, an inline instruction and the sequence that it stands for agree.
An assignment with an operator fails like the sequence, with the same error, or binds the variable to
a new value with the same tree, over the same stack, and nothing else shows a difference. So does a
step of a variable that holds no character, except that the errors may differ; a character steps to
its neighbour among the code points and fails where there is none. -/
theorem Faithful.inline_agrees {program : Program} {limits : Limits} {script : Script}
    (faithful : program.natives.Faithful) (session : machine.Faithful program limits)
    (current : machine.current = some number) (found : machine.threads.find? number = some entry)
    (live : machine.frames.frame? entry.current = some frame) (going : machine.stopped = false)
    (room : ∀ limit, machine.limits.instructionLimit = some limit → machine.instructions + 4 ≤ limit)
    (coded : (machine.code frame.block)[frame.position]? = some instruction)
    (next : instruction.spelled <+: ({ machine with script }.code frame.block).drop frame.position) :
    (∀ operator place top rest, instruction = .inlineAssign operator place →
      frame.stack = top :: rest →
        (∃ error, (machine.move program.natives).Failed error ∧
          ((Machine.move program.natives)^[4] { machine with script }).Failed error) ∨
        machine.Agreement (machine.move program.natives)
          ((Machine.move program.natives)^[4] { machine with script }) entry.current rest place) ∧
    ∀ forward place, instruction = .inlineStep forward place →
      ((∀ slot type character, machine.place? entry.current place = some slot →
        machine.datum? slot ≠ some (.scalar type (.char character))) →
          (∃ error also, (machine.move program.natives).Failed error ∧
            ((Machine.move program.natives)^[4] { machine with script }).Failed also) ∨
          machine.Agreement (machine.move program.natives)
            ((Machine.move program.natives)^[4] { machine with script }) entry.current frame.stack
              place) ∧
      ∀ slot type character, machine.place? entry.current place = some slot →
        machine.datum? slot = some (.scalar type (.char character)) →
          let code : Int := character.toNat + (if forward then 1 else -1)
          (∃ next : Char, next.toNat = code ∧ machine.Rebound (machine.move program.natives)
            entry.current frame.stack slot (.char next)) ∨
          ((∀ next : Char, (next.toNat : Int) ≠ code) ∧
            ∃ error, (machine.move program.natives).Failed error) := by
  have grounded := session.grounded faithful
  have honest : program.natives.Honest fun _ => True :=
    fun native _ arguments => (native.body arguments).honest_of_forall fun _ => trivial
  have clean := (session.reachable.candid (fun _ _ => trivial) honest).clean going
  have ready : machine.Ready number entry frame 4 := ⟨current, found, live, going, clean, room⟩
  refine ⟨fun operator place top rest same stacked => ?_, fun forward place same =>
    ⟨fun other => ?_, fun slot type character named shown => ?_⟩⟩
  · subst same
    exact ready.assign_agrees program.natives grounded coded next stacked
  · subst same
    exact ready.step_agrees program.natives grounded forward coded next other
  · subst same
    exact ready.step_char program.natives grounded forward coded named shown

/-! A variable whose body is on the stack too. -/

/-- The blocks of a script that makes a truth value, in a variable and on the stack, and goes on. -/
def addingScript (rest : List Code) : Script where
  blocks := #[{
    kind := .sub
    level := 0
    slots := 1
    codes := (⟨1, .pushValue (.boolean true)⟩ :: ⟨1, .dup⟩ :: ⟨1, .assign ⟨0, 0⟩⟩ :: rest).toArray }]
  main := some ⟨0⟩

/-- The truth value is added to itself. -/
def adding : Program where
  script := addingScript [⟨2, .inlineAssign .add ⟨0, 0⟩⟩]

theorem adding_faithful : adding.natives.Faithful := by
  intro native inside
  exact absurd inside (Array.not_mem_empty native)

/-- The machine as it begins its first tick. -/
def addingBegun : Machine := ((adding.machine {}).started ⟨0⟩ adding.script.blocks[0]).begin

/-- The machine at the addition. -/
def addingReady : Machine := (Machine.move adding.natives)^[4] addingBegun

theorem faithful_addingReady : addingReady.Faithful adding {} := by
  have running : ∀ count < 4,
      ((Machine.move adding.natives)^[count] addingBegun).state = .running := by
    decide +kernel
  have begun : addingBegun.Faithful adding {} := .step .initial (.start rfl) nofun
  exact begun.iterate 4 running

theorem inline_agrees_adding :
    adding.natives.Faithful ∧ addingReady.Faithful adding {} ∧
    addingReady.Agreement (addingReady.move adding.natives)
      ((Machine.move adding.natives)^[4] { addingReady with
        script := addingScript ((Instruction.inlineAssign .add ⟨0, 0⟩).spelled.map (Code.mk 2)) })
      ⟨0⟩ [] ⟨0, 0⟩ := by
  have going : (addingReady.move adding.natives).stopped = false := by
    decide +kernel
  have outcome := (@Faithful.inline_agrees addingReady ⟨0⟩ ⟨⟨0⟩, ⟨0⟩, 0⟩ _ _ adding {}
    (addingScript ((Instruction.inlineAssign .add ⟨0, 0⟩).spelled.map (Code.mk 2))) adding_faithful
    faithful_addingReady rfl rfl rfl rfl nofun rfl ⟨[], rfl⟩).1 .add ⟨0, 0⟩ (some ⟨0⟩) [] rfl rfl
  rcases outcome with ⟨error, failed, _⟩ | agreement
  · rw [failed.stopped] at going
    cases going
  · exact ⟨adding_faithful, faithful_addingReady, agreement⟩

end Machine

end CoopScript
