import CoopScript.Proofs.Heap.Results
import CoopScript.Proofs.Heap.Tagging
import CoopScript.Value.Serial

/-!
Trees as texts and as what a serializer gets. Both go through a tree in one order, and both fail at
the first element of a string that does not count as a character.
-/

namespace CoopScript

variable {Element Error First Last Result : Type}

/-- The cause of the failure, if it is one. -/
def failure? : Except Error Result → Option Error
  | .ok _ => none
  | .error cause => some cause

section Failures

variable {result : Except Error First} {cause : Error}

theorem failure?_eq_some_iff : failure? result = some cause ↔ result = .error cause := by
  cases result <;> simp [failure?]

theorem failure?_eq_none_iff : failure? result = none ↔ ∃ value, result = .ok value := by
  cases result <;> simp [failure?]

/-- A last step that cannot fail adds no failure. -/
theorem failure?_bind_pure (result : Except Error First) (next : First → Last) :
    failure? (do return next (← result)) = failure? result := by
  cases result <;> rfl

theorem failure?_mapM (apply : Element → Except Error Result) (elements : List Element) :
    failure? (elements.mapM apply) = elements.findSome? fun element => failure? (apply element) := by
  induction elements with
  | nil => rfl
  | cons element rest hypothesis =>
      rw [List.mapM_cons, List.findSome?_cons, ← hypothesis]
      cases apply element with
      | error cause => rfl
      | ok value => exact failure?_bind_pure _ _

end Failures

namespace Datum

mutual

/-- The elements of strings at any depth, from left to right and each before what it holds. -/
def letters : Datum → List Datum
  | .empty => []
  | .scalar _ _ => []
  | .array type elements => lettersAll type.isString elements

def lettersAll (string : Bool) : List Datum → List Datum
  | [] => []
  | element :: rest =>
    (if string then element :: element.letters else element.letters) ++ lettersAll string rest

end

/-- The first element of a string that does not count as a character fails to do so for this
cause. -/
def Misspells (datum : Datum) (cause : ValueError) : Prop :=
  ∃ before element after, datum.letters = before ++ element :: after ∧
    (∀ other ∈ before, ∃ character, other.toChar = .ok character) ∧ element.toChar = .error cause

variable {fits : Ty → Ty → Prop} {datum : Datum} {cause : ValueError} {elements : List Datum}

theorem misspells_iff :
    datum.Misspells cause ↔
      (datum.letters.findSome? fun letter => failure? letter.toChar) = some cause := by
  simp only [List.findSome?_eq_some_iff, failure?_eq_some_iff, failure?_eq_none_iff, Misspells]
  constructor <;> rintro ⟨before, element, after, same, first, second⟩ <;>
    exact ⟨before, element, after, same, second, first⟩

/-- What counts as a character holds no further letters. -/
theorem letters_of_toChar {character : Char} (counts : datum.toChar = .ok character) :
    datum.letters = [] := by
  cases datum with
  | array type elements => cases counts
  | _ => rfl

theorem findSome?_lettersAll (elements : List Datum) :
    ((lettersAll true elements).findSome? fun letter => failure? letter.toChar) =
      elements.findSome? fun element => failure? element.toChar := by
  induction elements with
  | nil => rfl
  | cons element rest hypothesis =>
      simp only [lettersAll, if_true, List.findSome?_append, List.findSome?_cons, hypothesis]
      cases counts : element.toChar with
      | error cause => rfl
      | ok character => simp [failure?, letters_of_toChar counts]

theorem failure?_characters (elements : List Datum) :
    failure? (characters elements) = elements.findSome? fun element => failure? element.toChar := by
  rw [characters, failure?_bind_pure, failure?_mapM]

/-- A way to write a tree: scalars always, strings by their characters, and other arrays by what is
written for their elements one after the other. -/
structure Renders (render : Datum → Except ValueError Result)
    (renderAll : List Datum → List Result → Except ValueError (List Result))
    (spell : String → Result) (gather : List Result → Result) : Prop where
  scalar : ∀ type payload, ∃ result, render (.scalar type payload) = .ok result
  string : ∀ type elements, type.isString = true →
    render (.array type elements) = do return spell (← characters elements)
  array : ∀ type elements, type.isString = false →
    render (.array type elements) = do return gather (← renderAll elements [])
  nil : ∀ done, renderAll [] done = .ok done.reverse
  cons : ∀ element rest done, renderAll (element :: rest) done = do
    let item ← render element
    renderAll rest (item :: done)

theorem renders_text : Renders text texts id fun items => "[" ++ String.intercalate ", " items ++ "]" where
  scalar := fun _ payload => ⟨payload.text, rfl⟩
  string := by
    intro type elements string
    rw [text, if_pos string]
    cases characters elements <;> rfl
  array := by
    intro type elements other
    rw [text, other]
    rfl
  nil := fun _ => rfl
  cons := fun _ _ _ => rfl

theorem renders_serialize : Renders serialize serializeAll .text .list where
  scalar := by
    intro type payload
    cases payload <;> exact ⟨_, rfl⟩
  string := by
    intro type elements string
    rw [serialize, if_pos string]
  array := by
    intro type elements other
    rw [serialize, other]
    rfl
  nil := fun _ => rfl
  cons := fun _ _ _ => rfl

namespace Renders

variable {render : Datum → Except ValueError Result} {spell : String → Result}
  {renderAll : List Datum → List Result → Except ValueError (List Result)}
  {gather : List Result → Result}

theorem failure?_all (renders : Renders render renderAll spell gather) (done : List Result)
    (each : ∀ element ∈ elements, failure? (render element) =
      element.letters.findSome? fun letter => failure? letter.toChar) :
    failure? (renderAll elements done) =
      (lettersAll false elements).findSome? fun letter => failure? letter.toChar := by
  induction elements generalizing done with
  | nil =>
      rw [renders.nil]
      rfl
  | cons element rest hypothesis =>
      obtain ⟨first, others⟩ := List.forall_mem_cons.mp each
      simp only [lettersAll, Bool.false_eq_true, if_false, List.findSome?_append, ← first]
      rw [renders.cons]
      cases render element with
      | error cause => rfl
      | ok item => exact hypothesis (item :: done) others

/-- Writing a tree fails at the first letter that does not count as a character, and nowhere else. -/
theorem failure?_eq (renders : Renders render renderAll spell gather) (typed : datum.Typed fits)
    (given : datum ≠ .empty) :
    failure? (render datum) = datum.letters.findSome? fun letter => failure? letter.toChar := by
  induction typed with
  | empty => exact absurd rfl given
  | @scalar type payload _ =>
      obtain ⟨result, written⟩ := renders.scalar type payload
      rw [written]
      rfl
  | @array expected elements _ types hypothesis =>
      cases string : (Ty.array expected).isString with
      | true =>
          rw [renders.string _ _ string, failure?_bind_pure, failure?_characters, letters, string,
            findSome?_lettersAll]
      | false =>
          rw [renders.array _ _ string, failure?_bind_pure, letters, string]
          apply renders.failure?_all
          intro element inside
          apply hypothesis element inside
          rintro rfl
          obtain ⟨_, ⟨⟩, _⟩ := types _ inside

end Renders

theorem text_eq_error_iff (typed : datum.Typed fits) (given : datum ≠ .empty) :
    datum.text = .error cause ↔ datum.Misspells cause := by
  rw [misspells_iff, ← renders_text.failure?_eq typed given, failure?_eq_some_iff]

theorem serialize_eq_error_iff (typed : datum.Typed fits) (given : datum ≠ .empty) :
    datum.serialize = .error cause ↔ datum.Misspells cause := by
  rw [misspells_iff, ← renders_serialize.failure?_eq typed given, failure?_eq_some_iff]

theorem serialize_ok_iff (typed : datum.Typed fits) (given : datum ≠ .empty) :
    (∃ serial, datum.serialize = .ok serial) ↔ ∃ text, datum.text = .ok text := by
  rw [← failure?_eq_none_iff, ← failure?_eq_none_iff, renders_text.failure?_eq typed given,
    renders_serialize.failure?_eq typed given]

/-- A string is serialized as its text. -/
theorem serialize_of_text {text : String} (typed : datum.Typed fits)
    (string : datum.type? = some .string) (written : datum.text = .ok text) :
    datum.serialize = .ok (.text text) := by
  cases typed with
  | empty => cases string
  | scalar same => cases same.symm.trans (Option.some.inj string)
  | @array expected elements =>
      cases string
      rw [renders_text.string .string elements rfl] at written
      obtain ⟨spelled, all, same⟩ := exists_of_bind_eq_ok written
      cases same
      rw [renders_serialize.string .string elements rfl, all]
      rfl

end Datum

namespace Registers

/-- Of a value in registers without loops there is a text if and only if there is a serial form. If
there is none, then for the one cause in both cases: that the first element of a string, at any depth,
which does not count as a character fails to. The serial form of a string is its text. -/
theorem renderings_agree {registers : Registers} (reachable : registers.Reachable)
    (loopless : registers.heap.Loopless) {value : Value} (has : registers.heap.Has value)
    (given : value ≠ none) :
    let datum := registers.heap.view value
    ((∃ serial, datum.serialize = .ok serial) ↔ ∃ text, datum.text = .ok text) ∧
    (∀ cause, datum.text = .error cause ↔ datum.Misspells cause) ∧
    (∀ cause, datum.serialize = .error cause ↔ datum.Misspells cause) ∧
    (registers.heap.type? value = some .string → ∀ text, datum.text = .ok text →
      datum.serialize = .ok (.text text)) := by
  have homogeneous := reachable.tagged.heap.homogeneous loopless
  have typed := homogeneous.view value
  have whole : registers.heap.view value ≠ .empty := by
    obtain ⟨body, found⟩ := Heap.Present.exists_body? ⟨has, given⟩
    rw [(homogeneous.sound value has).view_of_body? found]
    exact body.datum_ne_empty _
  refine ⟨Datum.serialize_ok_iff typed whole, fun _ => Datum.text_eq_error_iff typed whole,
    fun _ => Datum.serialize_eq_error_iff typed whole, fun string text => ?_⟩
  rw [← Heap.type?_view] at string
  exact Datum.serialize_of_text typed string

/-! A string in an array. Its second letter is overwritten, first with a truth value and then with a
string. -/

def misspelling (source : Datum) : List Command :=
  [.literal 0 (.string "ab"), .makeArray 1 (.array .string) [0], .indexWritable 2 0 1,
    .literal 3 source, .overwrite 2 3]

theorem reachable_misspelling {source : Datum} (typed : source.Typed Ty.Any) :
    ((empty 4).run (misspelling source)).Sound ∧
      ((empty 4).run (misspelling source)).Reachable := by
  have apart (earlier : List Command) (command : Command)
      (inside : earlier ++ [command] <+: misspelling source) :
      ¬ command.Entangles ((empty 4).run earlier) := by
    rintro ⟨_, _, _, _, rfl, _⟩
    have given := inside.mem (List.mem_append_right _ (List.mem_singleton_self _))
    simp [misspelling] at given
  refine ⟨(sound_empty 4).run apart, reachable_run 4 ?_ apart⟩
  intro command inside
  simp only [misspelling, List.mem_cons, List.not_mem_nil, or_false] at inside
  rcases inside with rfl | rfl | rfl | rfl | rfl
  · exact Datum.typed_string (fun _ => trivial) "ab"
  · trivial
  · trivial
  · exact typed
  · trivial

theorem renderings_agree_misspelling :
    (let registers := (empty 4).run (misspelling (.boolean true))
    registers.Reachable ∧ registers.heap.Loopless ∧ registers.heap.Has (registers.get 0) ∧
      registers.get 0 ≠ none ∧ (registers.view 0).serialize = .ok (.text "a1")) ∧
    (let registers := (empty 4).run (misspelling (.string "x"))
    registers.Reachable ∧ registers.heap.Loopless ∧ registers.heap.Has (registers.get 1) ∧
      registers.get 1 ≠ none ∧
      (registers.view 1).text = .error (.kindMismatch "char" "string") ∧
      (registers.view 1).serialize = .error (.kindMismatch "char" "string")) := by
  constructor
  · obtain ⟨sound, reachable⟩ := reachable_misspelling (Datum.typed_boolean true)
    have loopless := sound.heap.acyclic.loopless
    have given : ((empty 4).run (misspelling (.boolean true))).get 0 ≠ none := by decide +kernel
    obtain ⟨_, _, _, string⟩ := renderings_agree reachable loopless (sound.get 0) given
    exact ⟨reachable, loopless, sound.get 0, given,
      string (by decide +kernel) "a1" (by decide +kernel)⟩
  · obtain ⟨sound, reachable⟩ :=
      reachable_misspelling (Datum.typed_string (fun _ => trivial) "x")
    have loopless := sound.heap.acyclic.loopless
    have given : ((empty 4).run (misspelling (.string "x"))).get 1 ≠ none := by decide +kernel
    obtain ⟨_, text, serial, _⟩ := renderings_agree reachable loopless (sound.get 1) given
    have misspells : (((empty 4).run (misspelling (.string "x"))).view 1).Misspells
        (.kindMismatch "char" "string") := Datum.misspells_iff.mpr (by decide +kernel)
    exact ⟨reachable, loopless, sound.get 1, given, (text _).mpr misspells,
      (serial _).mpr misspells⟩

end Registers

end CoopScript
