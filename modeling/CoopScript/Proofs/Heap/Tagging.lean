import CoopScript.Proofs.Heap.Descents
import CoopScript.Proofs.Heap.Overwriting
import CoopScript.Proofs.Heap.Regions
import CoopScript.Proofs.Heap.Typing

/-!
Bodies whose type goes with what they keep. A change of a body replaces both together, so that no
sequence of operations takes the two apart or puts an empty value into an array, loops or not.
-/

namespace CoopScript

/-- Any type fits any other. -/
def Ty.Any (_ _ : Ty) : Prop := True

/-- The type is of arrays if the body is an array, and else of the payload's kind. -/
def Body.Tagged (body : Body) : Prop :=
  match body.data with
  | .scalar payload => body.type.kind = payload.kind.toKind
  | .array _ => body.type.kind = .array

namespace Ty

variable {type : Ty}

theorem eq_scalar_of_kind {kind : ScalarKind} (same : type.kind = kind.toKind) :
    type = .scalar kind := by
  cases type with
  | scalar own => cases own <;> cases kind <;> first | rfl | cases same
  | array element => cases kind <;> cases same

theorem exists_array_of_kind (array : type.kind = .array) : ∃ element, type = .array element := by
  cases type with
  | scalar own => cases own <;> cases array
  | array element => exact ⟨element, rfl⟩

end Ty

namespace Heap

/-- The type of every body goes with what it keeps, and arrays hold nothing empty or missing. -/
structure Tagged (heap : Heap) : Prop where
  bodies : ∀ value body, heap.body? value = some body → body.Tagged
  full : ∀ value child, heap.Holds value child → child ≠ none
  closed : heap.Closed

/-- The body may become one of the heap. -/
structure Takes (heap : Heap) (body : Body) : Prop where
  tagged : body.Tagged
  held : ∀ child, body.Holds child → heap.Present child

/-- The heap has grown or stayed, its bodies are tagged, and it has the value. -/
structure Delivers (heap after : Heap) (value : Value) : Prop where
  tagged : after.Tagged
  size : heap.size ≤ after.size
  has : after.Has value

variable {heap after : Heap} {value target source element array first second : Value} {id : BodyId}
  {body grown : Body} {type : Ty} {fits : Ty → Ty → Prop} {position : Nat} {roots : List Value}
  {made : Value × Heap}

theorem present_of_type? (had : heap.type? value = some type) : heap.Present value :=
  have ⟨_, found, _⟩ := exists_of_type? had
  present_of_body? found

theorem Tagged.present (tagged : heap.Tagged) (holds : heap.Holds value element) :
    heap.Present element :=
  ⟨tagged.closed value element holds, tagged.full value element holds⟩

theorem Tagged.takes (tagged : heap.Tagged) (found : heap.body? value = some body) :
    heap.Takes body where
  tagged := tagged.bodies value body found
  held := fun _ holds => tagged.present (.of_body? found holds)

theorem tagged_of_takes (takes : ∀ value body, heap.body? value = some body → heap.Takes body) :
    heap.Tagged where
  bodies := fun value body found => (takes value body found).tagged
  full := fun value child ⟨body, found, holds⟩ => ((takes value body found).held child holds).given
  closed := fun value child ⟨body, found, holds⟩ => ((takes value body found).held child holds).has

theorem tagged_empty : empty.Tagged := by
  apply tagged_of_takes
  intro value body found
  cases value <;> cases found

namespace Takes

theorem grow (takes : heap.Takes body) (size : heap.size ≤ after.size) : after.Takes body where
  tagged := takes.tagged
  held := fun child holds => (takes.held child holds).mono size

theorem scalar {payload : Scalar} (same : type = .scalar payload.kind) :
    heap.Takes ⟨type, .scalar payload⟩ where
  tagged := congrArg Ty.kind same
  held := by rintro child ⟨_, ⟨⟩, _⟩

theorem append {found : Ty} (takes : heap.Takes body) (present : heap.Present element)
    (done : body.append found element = .ok grown) : heap.Takes grown where
  tagged := by
    obtain ⟨type, data⟩ := body
    cases data with
    | scalar payload => cases done
    | array elements =>
        simp only [Body.append, Body.elements, bind, Except.bind, pure, Except.pure] at done
        split at done
        · cases done
          rfl
        · split at done
          · cases done
            exact takes.tagged
          · cases done
  held := by
    intro child holds
    rcases Body.holds_of_append done holds with rfl | old
    · exact present
    · exact takes.held child old

theorem concatenate {incoming : Array Value} (takes : heap.Takes body)
    (other : heap.Takes ⟨type, .array incoming⟩)
    (done : body.concatenate type incoming = .ok grown) : heap.Takes grown where
  tagged := by
    obtain ⟨own, data⟩ := body
    cases data with
    | scalar payload => cases done
    | array elements =>
        simp only [Body.concatenate, Body.elements, bind, Except.bind, pure, Except.pure] at done
        split at done
        · cases done
          exact takes.tagged
        · split at done
          · cases done
            exact other.tagged
          · split at done
            · cases done
              exact takes.tagged
            · cases done
  held := by
    intro child holds
    rcases Body.holds_of_concatenate done holds with new | old
    · exact other.held child ⟨incoming, rfl, new⟩
    · exact takes.held child old

theorem setElement (takes : heap.Takes body) (present : heap.Present element) :
    heap.Takes (body.setElement position element) where
  tagged := by
    obtain ⟨type, data⟩ := body
    cases data <;> exact takes.tagged
  held := by
    intro child holds
    rcases Body.holds_of_setElement holds with rfl | old
    · exact present
    · exact takes.held child old

end Takes

namespace Tagged

section Operations

variable (tagged : heap.Tagged)

include tagged

theorem same (has : heap.Has value) : heap.Delivers heap value := ⟨tagged, le_rfl, has⟩

/-! New bodies. -/

theorem allocate (takes : heap.Takes body) :
    heap.Delivers (heap.allocate body).2 (heap.allocate body).1 where
  tagged := by
    have size := (heap.extends_allocate body).size
    refine tagged_of_takes fun value other found => ?_
    rw [body?_allocate_eq] at found
    split at found
    · cases found
      exact takes.grow size
    · exact (tagged.takes found).grow size
  size := (heap.extends_allocate body).size
  has := heap.has_allocate body

omit tagged in
theorem eq_empty_of_build {datum : Datum} (nothing : (Heap.build datum heap).1 = none) :
    datum = .empty := by
  cases datum <;> first | rfl | cases nothing

omit tagged in
mutual

theorem build (datum : Datum) (heap : Heap) (tagged : heap.Tagged) (typed : datum.Typed fits) :
    heap.Delivers (Heap.build datum heap).2 (Heap.build datum heap).1 := by
  cases datum with
  | empty => exact tagged.same heap.has_none
  | scalar type payload =>
      cases typed with
      | scalar same => exact tagged.allocate (.scalar same)
  | array type elements =>
      cases typed with
      | @array expected _ trees types =>
          have given (element : Datum) (inside : element ∈ elements) : element ≠ .empty := by
            rintro rfl
            obtain ⟨_, ⟨⟩, _⟩ := types _ inside
          obtain ⟨all, size, built⟩ := buildAll elements #[] heap tagged trees given (by simp)
          have takes : (Heap.buildAll elements #[] heap).2.Takes
              ⟨.array expected, .array (Heap.buildAll elements #[] heap).1⟩ := by
            refine ⟨rfl, ?_⟩
            rintro child ⟨_, ⟨⟩, inside⟩
            exact built child inside
          have last := all.allocate takes
          exact ⟨last.tagged, size.trans last.size, last.has⟩

theorem buildAll (data : List Datum) (built : Array Value) (heap : Heap) (tagged : heap.Tagged)
    (typed : ∀ datum ∈ data, datum.Typed fits) (given : ∀ datum ∈ data, datum ≠ .empty)
    (before : ∀ value ∈ built, heap.Present value) :
    (Heap.buildAll data built heap).2.Tagged ∧ heap.size ≤ (Heap.buildAll data built heap).2.size ∧
      ∀ value ∈ (Heap.buildAll data built heap).1,
        (Heap.buildAll data built heap).2.Present value := by
  cases data with
  | nil => exact ⟨tagged, le_rfl, before⟩
  | cons datum rest =>
      have one := build datum heap tagged (typed datum List.mem_cons_self)
      have both (value : Value) (inside : value ∈ built.push (Heap.build datum heap).1) :
          (Heap.build datum heap).2.Present value := by
        rcases Array.mem_push.mp inside with old | rfl
        · exact (before value old).mono one.size
        · exact ⟨one.has, fun nothing => given datum List.mem_cons_self (eq_empty_of_build nothing)⟩
      obtain ⟨all, size, others⟩ := buildAll rest _ _ one.tagged
        (fun other inside => typed other (List.mem_cons_of_mem _ inside))
        (fun other inside => given other (List.mem_cons_of_mem _ inside)) both
      exact ⟨all, one.size.trans size, others⟩

end

theorem typed (found : heap.body? value = some body) : body.Typed Ty.Any heap.type? := by
  have takes := tagged.takes found
  obtain ⟨type, data⟩ := body
  cases data with
  | scalar payload => exact Ty.eq_scalar_of_kind takes.tagged
  | array elements =>
      obtain ⟨expected, rfl⟩ := Ty.exists_array_of_kind takes.tagged
      refine ⟨expected, rfl, fun child inside => ?_⟩
      obtain ⟨held, there⟩ := (takes.held child ⟨elements, rfl, inside⟩).exists_body?
      exact ⟨held.type, type?_of_body? there, trivial⟩

theorem deepCopy (founded : heap.Founded value) :
    heap.Delivers (heap.deepCopy value).2 (heap.deepCopy value).1 :=
  build _ heap tagged (founded.typed_view fun _ _ => tagged.typed)

theorem copy (value : Value) : heap.Delivers (heap.copy value).2 (heap.copy value).1 := by
  unfold Heap.copy
  split
  · next body found => exact tagged.allocate (tagged.takes found)
  · exact tagged.same heap.has_none

theorem uniquify (has : heap.Has value) (roots : List Value) :
    heap.Delivers (heap.uniquify roots value).2 (heap.uniquify roots value).1 := by
  unfold Heap.uniquify
  split
  · exact tagged.copy value
  · exact tagged.same has

theorem makeScalar {payload : Scalar} (done : heap.makeScalar type payload = .ok made) :
    heap.Delivers made.2 made.1 := by
  unfold Heap.makeScalar at done
  split at done
  · next same =>
      cases done
      exact tagged.allocate (.scalar same)
  · cases done

theorem makeArray {elements : List Value} (done : heap.makeArray type elements = .ok made) :
    heap.Delivers made.2 made.1 := by
  obtain ⟨body, fits, done⟩ := exists_of_bind_eq_ok done
  cases done
  refine tagged.allocate ?_
  unfold Heap.arrayBody at fits
  split at fits
  · cases fits
  · next expected =>
      obtain ⟨_, checked, fits⟩ := exists_of_bind_eq_ok fits
      cases fits
      refine ⟨rfl, ?_⟩
      rintro child ⟨_, ⟨⟩, inside⟩
      exact present_of_type? (type?_of_checkElements checked child (List.mem_toArray.mp inside))

theorem appended (done : heap.appended array element = .ok made) :
    heap.Delivers made.2 made.1 := by
  obtain ⟨body, fits, done⟩ := exists_of_bind_eq_ok done
  cases done
  obtain ⟨found, had, fits⟩ := exists_of_bind_eq_ok fits
  obtain ⟨old, held, fits⟩ := exists_of_bind_eq_ok fits
  have present := present_of_type? (typeOf_eq_ok_iff.mp had)
  exact tagged.allocate ((tagged.takes (get_eq_ok_iff.mp held)).append present fits)

theorem concatenated (done : heap.concatenated first second = .ok made) :
    heap.Delivers made.2 made.1 := by
  obtain ⟨body, fits, done⟩ := exists_of_bind_eq_ok done
  cases done
  obtain ⟨incoming, listed, fits⟩ := exists_of_bind_eq_ok fits
  obtain ⟨type, typed, fits⟩ := exists_of_bind_eq_ok fits
  obtain ⟨old, held, fits⟩ := exists_of_bind_eq_ok fits
  obtain ⟨own, found⟩ := elements_eq_ok_iff.mp listed
  cases (type?_of_body? found).symm.trans (typeOf_eq_ok_iff.mp typed)
  exact tagged.allocate
    ((tagged.takes (get_eq_ok_iff.mp held)).concatenate (tagged.takes found) fits)

/-! Bodies that change in place. -/

theorem write (takes : heap.Takes body) (id : BodyId) : (heap.write id body).Tagged := by
  have size := (heap.size_write id body).ge
  refine tagged_of_takes fun value other found => ?_
  by_cases same : value = some id
  · rw [same, body?_write_same] at found
    obtain ⟨_, _, rfl⟩ := Option.map_eq_some_iff.mp found
    exact takes.grow size
  · rw [body?_write_of_ne body same] at found
    exact (tagged.takes found).grow size

theorem setElement (present : heap.Present element) (array : Value) (position : Nat) :
    (heap.setElement array position element).Tagged := by
  cases array with
  | none => exact tagged
  | some id =>
      cases found : heap.body? (some id) with
      | none =>
          rw [setElement_of_missing found]
          exact tagged
      | some body =>
          rw [setElement_eq_write found]
          exact tagged.write ((tagged.takes found).setElement present) id

theorem indexWritable (done : heap.indexWritable roots array position = .ok made) :
    heap.Delivers made.2 made.1 := by
  obtain ⟨element, found, done⟩ := exists_of_bind_eq_ok done
  cases done
  obtain ⟨type, elements, held, there⟩ := index_eq_ok_iff.mp found
  have present := tagged.present (.of_getElem? held there)
  unfold Heap.claim
  split
  · obtain ⟨body, copied⟩ := present.exists_body?
    simp only [Heap.copy, copied]
    have grown := tagged.allocate (tagged.takes copied)
    have size := (heap.allocate body).2.size_setElement array position (heap.allocate body).1
    exact ⟨grown.tagged.setElement ⟨grown.has, Option.some_ne_none _⟩ array position,
      grown.size.trans size.ge, grown.has.mono size.ge⟩
  · exact tagged.same present.has

/-- The body takes over the type and what goes with it. -/
theorem takeOver (founded : source ≠ some id → heap.Reaches source (some id) → heap.Founded source) :
    (heap.takeOver id source).Tagged ∧ heap.size ≤ (heap.takeOver id source).size := by
  unfold Heap.takeOver
  split
  · exact ⟨tagged, le_rfl⟩
  · next other =>
      have ready : (if heap.reaches source id then heap.deepCopy source else (source, heap)).2.Tagged ∧
          heap.size ≤ (if heap.reaches source id then heap.deepCopy source
            else (source, heap)).2.size := by
        split
        · next leads =>
            have copied := tagged.deepCopy (founded other (reaches_iff.mp leads))
            exact ⟨copied.tagged, copied.size⟩
        · exact ⟨tagged, le_rfl⟩
      dsimp only
      split
      · next body found =>
          exact ⟨ready.1.write (ready.1.takes found) id, ready.2.trans (size_write ..).ge⟩
      · exact ready

theorem overwrite
    (founded : source ≠ target → heap.Reaches source target → heap.Founded source)
    (done : heap.overwrite target source = .ok after) : after.Tagged ∧ heap.size ≤ after.size := by
  obtain ⟨id, overwrites, done⟩ := exists_of_bind_eq_ok done
  cases done
  obtain ⟨rfl, _⟩ := body?_of_overwritten overwrites
  exact tagged.takeOver founded

theorem append (founded : heap.Reaches element target → heap.Founded element)
    (done : heap.append target element = .ok after) : after.Tagged ∧ heap.size ≤ after.size := by
  obtain ⟨id, found, body, grown, added, middle, rfl, typed, chosen, held, grows, rfl⟩ :=
    append_cases done
  have present := present_of_type? (typeOf_eq_ok_iff.mp typed)
  have ready : heap.Delivers middle added ∧ added ≠ none := by
    rcases chosen with ⟨_, rfl, rfl⟩ | ⟨leads, rfl, rfl⟩
    · exact ⟨tagged.same present.has, present.given⟩
    · have founded := founded leads
      refine ⟨tagged.deepCopy founded, fun nothing => ?_⟩
      obtain ⟨old, there⟩ := present.exists_body?
      exact old.datum_ne_empty _
        ((founded.view_of_body? there).symm.trans (eq_empty_of_build nothing))
  obtain ⟨delivers, given⟩ := ready
  have takes := (delivers.tagged.takes held).append ⟨delivers.has, given⟩ grows
  exact ⟨delivers.tagged.write takes id, delivers.size.trans (size_write ..).ge⟩

theorem concatenate (done : heap.concatenate target source = .ok after) :
    after.Tagged ∧ heap.size ≤ after.size := by
  obtain ⟨incoming, listed, done⟩ := exists_of_bind_eq_ok done
  obtain ⟨type, typed, done⟩ := exists_of_bind_eq_ok done
  cases target with
  | none => cases done
  | some id =>
      obtain ⟨body, held, done⟩ := exists_of_bind_eq_ok done
      obtain ⟨grown, grows, done⟩ := exists_of_bind_eq_ok done
      cases done
      obtain ⟨own, found⟩ := elements_eq_ok_iff.mp listed
      cases (type?_of_body? found).symm.trans (typeOf_eq_ok_iff.mp typed)
      have takes := (tagged.takes (get_eq_ok_iff.mp held)).concatenate (tagged.takes found) grows
      exact ⟨tagged.write takes id, (size_write ..).ge⟩

/-! Walks. -/

/-- Nothing but an empty value leads to an empty one. -/
theorem eq_none_of_reaches (reaches : heap.Reaches source none) : source = none := by
  rcases reaches.cases_tail with same | ⟨holder, _, holds⟩
  · exact same.symm
  · exact absurd rfl (tagged.full holder none holds)

theorem founded_of_settles (has : heap.Has source) (settles : heap.Settles source target)
    (reaches : heap.Reaches source target) : heap.Founded source := by
  cases target with
  | none =>
      obtain rfl := tagged.eq_none_of_reaches reaches
      exact heap.founded_none
  | some id =>
      exact (settles_iff_founded fun held => tagged.closed.has_of_reaches (.refl heap) has).mp settles

end Operations

/-- In a heap without loops the tags come with homogeneity in the weakest sense. -/
theorem homogeneous (tagged : heap.Tagged) (loopless : heap.Loopless) :
    heap.Homogeneous Ty.Any where
  sound := tagged.closed.sound loopless
  typed := fun _ _ => tagged.typed

end Tagged

theorem Homogeneous.tagged (homogeneous : heap.Homogeneous fits) : heap.Tagged := by
  refine tagged_of_takes fun value body found => ?_
  have typed := homogeneous.typed value body found
  refine ⟨?_, fun child holds => ?_⟩
  · obtain ⟨type, data⟩ := body
    cases data with
    | scalar payload => exact congrArg Ty.kind typed
    | array elements =>
        obtain ⟨expected, rfl, _⟩ := typed
        rfl
  · obtain ⟨_, _, _, had, _⟩ := typed.of_holds holds
    exact present_of_type? had

end Heap

/-- The command comes to an end, whether it goes through or fails. -/
def Command.Finishes (registers : Registers) : Command → Prop
  | deepCopy _ source => registers.heap.Founded (registers.get source)
  | overwrite target source => registers.get source ≠ registers.get target →
      registers.heap.Settles (registers.get source) (registers.get target)
  | append target source => registers.heap.Settles (registers.get source) (registers.get target)
  | appended _ source element =>
    registers.heap.AppendedEnds (registers.get source) (registers.get element)
  | _ => True

/-- The copies of whole values that the command makes are complete at some time. Commands that come to
an end are among these; not all are, since a search is not a copy. -/
def Command.Completes (registers : Registers) : Command → Prop
  | deepCopy _ source => registers.heap.Founded (registers.get source)
  | overwrite target source => registers.get source ≠ registers.get target →
      registers.heap.Reaches (registers.get source) (registers.get target) →
      registers.heap.Founded (registers.get source)
  | append target source => registers.heap.Reaches (registers.get source) (registers.get target) →
      registers.heap.Founded (registers.get source)
  | _ => True

/-- The literals of the command are trees that operations can make. -/
def Command.Literate : Command → Prop
  | literal _ datum => datum.Typed Ty.Any
  | _ => True

namespace Registers

/-- Commands whose copies are complete at some time lead from empty registers to these, whether they go
through or fail. All commands that come to an end may be among them. -/
inductive Reachable : Registers → Prop
  | empty (count : Nat) : Reachable (.empty count)
  | attempt {registers : Registers} {command : Command} : Reachable registers → command.Literate →
      command.Completes registers → Reachable (registers.attempt command)

/-- The heap is tagged and has all values in the registers. -/
structure Tagged (registers : Registers) : Prop where
  heap : registers.heap.Tagged
  has : ∀ register, registers.heap.Has (registers.get register)

variable {registers after : Registers} {command : Command} {value : Value} {made : Value × Heap}

theorem tagged_empty (count : Nat) : (empty count).Tagged where
  heap := Heap.tagged_empty
  has := (sound_empty count).get

namespace Tagged

variable (tagged : registers.Tagged)

include tagged

theorem store (delivers : registers.heap.Delivers made.2 made.1) (target : Nat) :
    (registers.store target made).Tagged where
  heap := delivers.tagged
  has := by
    intro register
    rcases get_set_cases { registers with heap := made.2 } target made.1 register with new | old
    · exact (congrArg made.2.Has new).mpr delivers.has
    · exact (congrArg made.2.Has old).mpr ((tagged.has register).mono delivers.size)

theorem set (has : registers.heap.Has value) (target : Nat) : (registers.set target value).Tagged :=
  @store registers (value, registers.heap) tagged (tagged.heap.same has) target

theorem setHeap {heap : Heap} (changed : heap.Tagged ∧ registers.heap.size ≤ heap.size) :
    { registers with heap }.Tagged where
  heap := changed.1
  has := fun register => (tagged.has register).mono changed.2

/-- A command keeps types and payloads together. -/
theorem perform (literate : command.Literate) (completes : command.Completes registers)
    (done : registers.perform command = .ok after) : after.Tagged := by
  cases command with
  | literal target datum =>
      cases done
      exact tagged.store (Heap.Tagged.build datum _ tagged.heap literate) target
  | makeScalar target type payload =>
      obtain ⟨made, makes, done⟩ := exists_of_bind_eq_ok done
      cases done
      exact tagged.store (tagged.heap.makeScalar makes) target
  | makeArray target type sources =>
      obtain ⟨made, makes, done⟩ := exists_of_bind_eq_ok done
      cases done
      exact tagged.store (tagged.heap.makeArray makes) target
  | «alias» target source =>
      cases done
      exact tagged.set (tagged.has source) target
  | overwrite target source =>
      obtain ⟨heap, changes, done⟩ := exists_of_bind_eq_ok done
      cases done
      exact tagged.setHeap (tagged.heap.overwrite completes changes)
  | uniquify target =>
      cases done
      exact tagged.store (tagged.heap.uniquify (tagged.has target) registers.roots) target
  | deepCopy target source =>
      cases done
      exact tagged.store (tagged.heap.deepCopy completes) target
  | index target source position =>
      obtain ⟨element, found, done⟩ := exists_of_bind_eq_ok done
      cases done
      obtain ⟨type, elements, held, there⟩ := Heap.index_eq_ok_iff.mp found
      exact tagged.set (tagged.heap.closed _ element (.of_getElem? held there)) target
  | indexWritable target source position =>
      obtain ⟨made, makes, done⟩ := exists_of_bind_eq_ok done
      cases done
      exact tagged.store (tagged.heap.indexWritable makes) target
  | append target source =>
      obtain ⟨heap, changes, done⟩ := exists_of_bind_eq_ok done
      cases done
      exact tagged.setHeap (tagged.heap.append completes changes)
  | concatenate target source =>
      obtain ⟨heap, changes, done⟩ := exists_of_bind_eq_ok done
      cases done
      exact tagged.setHeap (tagged.heap.concatenate changes)
  | appended target source element =>
      obtain ⟨made, makes, done⟩ := exists_of_bind_eq_ok done
      cases done
      exact tagged.store (tagged.heap.appended makes) target
  | concatenated target first second =>
      obtain ⟨made, makes, done⟩ := exists_of_bind_eq_ok done
      cases done
      exact tagged.store (tagged.heap.concatenated makes) target

theorem attempt (literate : command.Literate) (completes : command.Completes registers) :
    (registers.attempt command).Tagged := by
  unfold Registers.attempt
  split
  · next after done => exact tagged.perform literate completes done
  · exact tagged

/-- Unless a value holds itself, every command comes to an end. -/
theorem finishes (loopless : registers.heap.Loopless) (command : Command) :
    command.Finishes registers := by
  have founded (register : Nat) : registers.heap.Founded (registers.get register) :=
    tagged.heap.closed.sound loopless _ (tagged.has register)
  cases command with
  | deepCopy target source => exact founded source
  | overwrite target source => exact fun _ => (founded source).settles _
  | append target source => exact (founded source).settles _
  | appended target source element =>
      exact ((registers.heap.extends_copy (registers.get source)).founded (founded element)).settles _
  | _ => trivial

/-- A command that comes to an end makes no copy that would never be complete. -/
theorem completes (finishes : command.Finishes registers) : command.Completes registers := by
  cases command with
  | deepCopy target source => exact finishes
  | overwrite target source =>
      exact fun other => tagged.heap.founded_of_settles (tagged.has source) (finishes other)
  | append target source => exact tagged.heap.founded_of_settles (tagged.has source) finishes
  | _ => trivial

end Tagged

theorem Reachable.tagged (reachable : registers.Reachable) : registers.Tagged := by
  induction reachable with
  | empty count => exact tagged_empty count
  | attempt _ literate completes hypothesis => exact hypothesis.attempt literate completes

/-- Commands that entangle nothing all come to an end. -/
theorem reachable_run (count : Nat) {commands : List Command}
    (literate : ∀ command ∈ commands, command.Literate)
    (apart : ∀ earlier command, earlier ++ [command] <+: commands →
      ¬ command.Entangles ((empty count).run earlier)) : ((empty count).run commands).Reachable := by
  induction commands using List.reverseRecOn with
  | nil => exact .empty count
  | append_singleton earlier command hypothesis =>
      have apart (before : List Command) (next : Command) (inside : before ++ [next] <+: earlier) :=
        apart before next (inside.trans (List.prefix_append earlier [command]))
      have reachable := hypothesis
        (fun other inside => literate other (List.mem_append_left [command] inside)) apart
      have sound := (sound_empty count).run apart
      rw [run_append]
      have tagged := reachable.tagged
      exact reachable.attempt (literate command (by simp))
        (tagged.completes (tagged.finishes sound.heap.acyclic.loopless command))

end Registers

end CoopScript
