import CoopScript.Proofs.Types.Interning
import Mathlib.Data.Finset.Card
import Mathlib.Data.List.GetD
import Mathlib.Logic.Function.Basic

/-!
Registries beside each other. An array's element may be a handle of any of them, so the handles of
several registries mix. Whatever is asked for and in whatever order, a handle stands for one
request to one registry.
-/

namespace CoopScript

namespace Ty

theorem display_array {element : Ty} (other : element ≠ char) :
    (array element).display = element.display ++ "[]" := by
  match element with
  | .scalar .real | .scalar .boolean | .array _ => rfl
  | .scalar .char => exact absurd rfl other

/-- No name of a type without brackets ends in a bracket. -/
theorem append_brackets_ne {name : String} (plain : name.toList.getLast? ≠ some ']') (text : String) :
    name ≠ text ++ "[]" := by
  rintro rfl
  exact plain (by simp [String.toList_append])

theorem display_ne_scalar (element : Ty) (kind : ScalarKind) :
    (array element).display ≠ (scalar kind).display := by
  by_cases text : element = char
  · subst text
    cases kind <;> decide
  · rw [display_array text]
    exact (append_brackets_ne (by cases kind <;> decide) _).symm

/-- A type is known by its display. A string has a name of its own, which is no other type's. -/
theorem display_injective : Function.Injective display := by
  intro first
  induction first with
  | scalar kind =>
      intro second same
      cases second with
      | scalar other => cases kind <;> cases other <;> first | rfl | exact absurd same (by decide)
      | array element => exact absurd same.symm (display_ne_scalar element kind)
  | array element hypothesis =>
      intro second same
      cases second with
      | scalar kind => exact absurd same (display_ne_scalar element kind)
      | array other =>
          by_cases left : element = char <;> by_cases right : other = char
          · rw [left, right]
          · subst left
            rw [display_array right] at same
            exact absurd same (append_brackets_ne (by decide) _)
          · subst right
            rw [display_array left] at same
            exact absurd same.symm (append_brackets_ne (by decide) _)
          · rw [display_array left, display_array right, String.append_left_inj] at same
            rw [hypothesis same]

end Ty

namespace TypeHandle

/-- The handle and all that it is an array of come from one registry. -/
def Within (registry : Nat) : TypeHandle → Prop
  | scalar home _ _ => home = registry
  | array home _ element => home = registry ∧ element.Within registry

theorem request_of_scalar {handle : TypeHandle} {kind : ScalarKind}
    (type : handle.type = .scalar kind) : handle.request = .scalar kind := by
  cases handle with
  | scalar home id other =>
      cases type
      rfl
  | array home id element => cases type

theorem request_of_array {handle : TypeHandle} {element : Ty} (type : handle.type = .array element) :
    ∃ inner, handle.request = .array inner ∧ inner.type = element := by
  cases handle with
  | scalar home id kind => cases type
  | array home id inner => exact ⟨inner, rfl, Ty.array.inj type⟩

theorem Within.registry_eq {registry : Nat} {handle : TypeHandle} (within : handle.Within registry) :
    handle.registry = registry := by
  cases handle with
  | scalar home id kind => exact within
  | array home id element => exact within.1

theorem Within.element {registry : Nat} {handle element : TypeHandle}
    (within : handle.Within registry) (made : handle.request = .array element) :
    element.Within registry := by
  cases handle with
  | scalar home id kind => cases made
  | array home id inner =>
      cases made
      exact within.2

end TypeHandle

@[simp] theorem TypeRequest.registry_handle (registry : Nat) (id : UInt32) (request : TypeRequest) :
    (request.handle registry id).registry = registry := by
  cases request <;> rfl

@[simp] theorem TypeRequest.id_handle (registry : Nat) (id : UInt32) (request : TypeRequest) :
    (request.handle registry id).id = id := by
  cases request <;> rfl

namespace TypeRegistry

variable {registry : TypeRegistry} {request : TypeRequest} {handle : TypeHandle}

/-- Every handle bears the name of its registry and its place as its number, and no request has two
handles. -/
structure Orderly (registry : TypeRegistry) : Prop where
  named : ∀ handle ∈ registry.handles, handle.registry = registry.name
  numbered : ∀ (number : Nat) (inside : number < registry.handles.size),
    registry.handles[number].id = number.toUInt32
  distinct : ∀ (first second : Nat) (left : first < registry.handles.size)
    (right : second < registry.handles.size),
    registry.handles[first].request = registry.handles[second].request → first = second

theorem Orderly.empty (name : Nat) : (TypeRegistry.empty name).Orderly where
  named := fun _ inside => absurd inside (Array.not_mem_empty _)
  numbered := fun _ inside => absurd inside (Nat.not_lt_zero _)
  distinct := fun _ _ inside => absurd inside (Nat.not_lt_zero _)

theorem mem_of_find? (found : registry.find? request = some handle) : handle ∈ registry.handles :=
  Array.mem_of_find?_eq_some found

theorem request_ne_of_find? (missing : registry.find? request = none) (inside : handle ∈ registry.handles) :
    handle.request ≠ request := by
  have other := Array.find?_eq_none.mp missing handle inside
  simpa using other

@[simp] theorem name_intern (registry : TypeRegistry) (request : TypeRequest) :
    (registry.intern request).2.name = registry.name := by
  unfold intern
  split <;> rfl

/-- An answer adds nothing, or the one handle that it gives. -/
theorem mem_intern : handle ∈ (registry.intern request).2.handles ↔
    handle ∈ registry.handles ∨ handle = (registry.intern request).1 := by
  unfold intern
  split
  · next old found => exact ⟨.inl, Or.rec id fun same => same ▸ mem_of_find? found⟩
  · exact Array.mem_push

theorem Orderly.intern (orderly : registry.Orderly) (request : TypeRequest) :
    (registry.intern request).2.Orderly := by
  unfold TypeRegistry.intern
  split
  · exact orderly
  next missing =>
    have fresh : ∀ (number : Nat) (inside : number < registry.handles.size),
        registry.handles[number].request ≠ request :=
      fun number inside => request_ne_of_find? missing (Array.getElem_mem inside)
    refine ⟨?_, ?_, ?_⟩
    · intro handle inside
      obtain old | rfl := Array.mem_push.mp inside
      · exact orderly.named handle old
      · exact TypeRequest.registry_handle _ _ _
    · intro number inside
      rw [Array.getElem_push]
      split
      · next old => exact orderly.numbered number old
      · next new =>
          have last : number = registry.size := by
            have bound : number < registry.handles.size + 1 := by simpa using inside
            have := registry.handles.size
            simp only [TypeRegistry.size]
            omega
          rw [last, TypeRequest.id_handle]
    · intro first second left right same
      have above : first < registry.handles.size + 1 := by simpa using left
      have beyond : second < registry.handles.size + 1 := by simpa using right
      rw [Array.getElem_push, Array.getElem_push] at same
      split at same <;> split at same
      · exact orderly.distinct first second _ _ same
      · exact absurd (same.trans (TypeRequest.request_handle _ _ _)) (fresh first _)
      · exact absurd (same.symm.trans (TypeRequest.request_handle _ _ _)) (fresh second _)
      · omega

/-- A registry that holds the handle for a request answers it by this handle. -/
theorem Orderly.find?_of_mem (orderly : registry.Orderly) (inside : handle ∈ registry.handles) :
    registry.find? handle.request = some handle := by
  obtain ⟨second, right, rfl⟩ := Array.getElem_of_mem inside
  cases found : registry.find? registry.handles[second].request with
  | none => exact absurd rfl (request_ne_of_find? found (Array.getElem_mem right))
  | some answer =>
      obtain ⟨first, left, rfl⟩ := Array.getElem_of_mem (mem_of_find? found)
      have same := orderly.distinct first second left right (request_of_find? found)
      subst same
      rfl

theorem intern_of_find? (found : registry.find? request = some handle) :
    registry.intern request = (handle, registry) := by
  unfold intern
  rw [found]

theorem Orderly.nodup (orderly : registry.Orderly) : registry.handles.toList.Nodup := by
  refine List.nodup_iff_injective_getElem.mpr fun first second same => Fin.ext ?_
  exact orderly.distinct first second (by simp) (by simp)
    (congrArg TypeHandle.request (by simpa using same))

end TypeRegistry

/-- A request to a registry and the handle that answered it. -/
structure TypeAnswer where
  registry : Nat
  request : TypeRequest
  handle : TypeHandle

/-- Registries under their names, and all that they have answered, the latest first. -/
structure TypeHistory where
  registries : Nat → TypeRegistry
  answers : List TypeAnswer

namespace TypeHistory

def initial : TypeHistory := ⟨.empty, []⟩

/-- A registry has answered a request, and is another one since. -/
def record (history : TypeHistory) (registry : Nat) (request : TypeRequest)
    (answer : TypeHandle × TypeRegistry) : TypeHistory :=
  ⟨Function.update history.registries registry answer.2,
    ⟨registry, request, answer.1⟩ :: history.answers⟩

/-- The handle has been made by some registry. -/
def Knows (history : TypeHistory) (handle : TypeHandle) : Prop :=
  ∃ answer ∈ history.answers, answer.handle = handle

/-- One more request. The shortcut for strings asks for the character type first. -/
inductive Asks : TypeHistory → TypeHistory → Prop
  | scalar {history : TypeHistory} (registry : Nat) (kind : ScalarKind) :
    Asks history
      (history.record registry (.scalar kind) ((history.registries registry).scalar kind))
  | array {history : TypeHistory} (registry : Nat) {element : TypeHandle}
    (known : history.Knows element) :
    Asks history
      (history.record registry (.array element) ((history.registries registry).array element))
  | string {history : TypeHistory} (registry : Nat) :
    Asks history
      ((history.record registry (.scalar .char) ((history.registries registry).scalar .char)).record
        registry (.array ((history.registries registry).scalar .char).1)
        (history.registries registry).string)

/-- Any requests, one after the other. -/
inductive Reachable : TypeHistory → Prop
  | initial : Reachable .initial
  | step {history after : TypeHistory} (reached : Reachable history) (asks : Asks history after) :
    Reachable after

/-- The distinct handles that a registry has made. -/
def handles (history : TypeHistory) (registry : Nat) : Finset TypeHandle :=
  ((history.answers.filter fun answer => answer.registry = registry).map
    TypeAnswer.handle).toFinset

/-- The registries hold just what they have answered, and an array's element has been made before. -/
structure Canonical (history : TypeHistory) : Prop where
  orderly : ∀ registry, (history.registries registry).Orderly
  named : ∀ registry, (history.registries registry).name = registry
  asked : ∀ answer ∈ history.answers, answer.handle.request = answer.request
  stored : ∀ registry handle, handle ∈ (history.registries registry).handles ↔
    ∃ answer ∈ history.answers, answer.registry = registry ∧ answer.handle = handle
  founded : ∀ answer ∈ history.answers, ∀ element, answer.request = .array element →
    history.Knows element

variable {history after : TypeHistory}

theorem Canonical.initial : initial.Canonical where
  orderly := .empty
  named := fun _ => rfl
  asked := fun _ inside => absurd inside List.not_mem_nil
  stored := fun registry handle => by simp [TypeHistory.initial, TypeRegistry.empty]
  founded := fun _ inside => absurd inside List.not_mem_nil

theorem Canonical.record (canonical : history.Canonical) (registry : Nat) (request : TypeRequest)
    (known : ∀ element, request = .array element → history.Knows element) :
    (history.record registry request ((history.registries registry).intern request)).Canonical := by
  have later (element : TypeHandle) (knows : history.Knows element) :
      (history.record registry request ((history.registries registry).intern request)).Knows
        element := by
    obtain ⟨answer, inside, same⟩ := knows
    exact ⟨answer, .tail _ inside, same⟩
  refine ⟨?_, ?_, ?_, ?_, ?_⟩
  · intro other
    by_cases same : other = registry
    · subst same
      simpa [TypeHistory.record] using (canonical.orderly other).intern request
    · simpa [TypeHistory.record, same] using canonical.orderly other
  · intro other
    by_cases same : other = registry
    · subst same
      simpa [TypeHistory.record] using canonical.named other
    · simpa [TypeHistory.record, same] using canonical.named other
  · intro answer inside
    obtain rfl | old := List.mem_cons.mp inside
    · exact TypeRegistry.request_intern _ _
    · exact canonical.asked answer old
  · intro other handle
    have stored := canonical.stored other handle
    by_cases same : other = registry
    · subst same
      simp only [TypeHistory.record, Function.update_self, TypeRegistry.mem_intern, stored,
        List.exists_mem_cons_iff, true_and]
      exact or_comm.trans (or_congr_left eq_comm)
    · simp only [TypeHistory.record, Function.update_of_ne same, stored, List.exists_mem_cons_iff,
        Ne.symm same, false_and, false_or]
  · intro answer inside element array
    obtain rfl | old := List.mem_cons.mp inside
    · exact later element (known element array)
    · exact later element (canonical.founded answer old element array)

theorem Canonical.asks (canonical : history.Canonical) (asks : history.Asks after) :
    after.Canonical := by
  cases asks with
  | scalar registry kind => exact canonical.record registry _ fun _ array => nomatch array
  | array registry known =>
      refine canonical.record registry _ fun element array => ?_
      cases array
      exact known
  | string registry =>
      -- The second answer is that of the registry as the first one has left it.
      have first := canonical.record registry (.scalar .char) fun _ array => nomatch array
      have second := first.record registry (.array ((history.registries registry).scalar .char).1)
        fun element array => ⟨_, .head _, TypeRequest.array.inj array⟩
      simpa [TypeHistory.record, TypeRegistry.string, TypeRegistry.array, TypeRegistry.scalar]
        using second

theorem Reachable.canonical (reached : history.Reachable) : history.Canonical := by
  induction reached with
  | initial => exact .initial
  | step _ asks hypothesis => exact hypothesis.asks asks

theorem Canonical.mem_handles (canonical : history.Canonical) {registry : Nat} {handle : TypeHandle} :
    handle ∈ history.handles registry ↔ handle ∈ (history.registries registry).handles := by
  simp [handles, canonical.stored, and_assoc]

theorem Canonical.card_handles (canonical : history.Canonical) (registry : Nat) :
    (history.handles registry).card = (history.registries registry).size := by
  have same : history.handles registry =
      (history.registries registry).handles.toList.toFinset := by
    ext handle
    rw [canonical.mem_handles, List.mem_toFinset, Array.mem_toList_iff]
  rw [same, List.toFinset_card_of_nodup (canonical.orderly registry).nodup]
  rfl

/-- What was asked before is answered as before, and the registry stays what it is. -/
theorem Canonical.intern_asked (canonical : history.Canonical) {answer : TypeAnswer}
    (inside : answer ∈ history.answers) :
    (history.registries answer.registry).intern answer.request =
      (answer.handle, history.registries answer.registry) := by
  have stored := (canonical.stored answer.registry answer.handle).mpr ⟨answer, inside, rfl, rfl⟩
  have found := (canonical.orderly answer.registry).find?_of_mem stored
  rw [canonical.asked answer inside] at found
  exact TypeRegistry.intern_of_find? found

theorem Canonical.registry_eq (canonical : history.Canonical) {answer : TypeAnswer}
    (inside : answer ∈ history.answers) : answer.handle.registry = answer.registry := by
  have stored := (canonical.stored answer.registry answer.handle).mpr ⟨answer, inside, rfl, rfl⟩
  exact ((canonical.orderly answer.registry).named _ stored).trans (canonical.named answer.registry)

theorem Canonical.handle_eq_iff (canonical : history.Canonical) {first second : TypeAnswer}
    (left : first ∈ history.answers) (right : second ∈ history.answers) :
    first.handle = second.handle ↔
      first.registry = second.registry ∧ first.request = second.request := by
  constructor
  · intro same
    rw [← canonical.registry_eq left, ← canonical.registry_eq right, ← canonical.asked first left,
      ← canonical.asked second right, same]
    exact ⟨rfl, rfl⟩
  · rintro ⟨registry, request⟩
    have early := canonical.intern_asked left
    rw [registry, request, canonical.intern_asked right] at early
    exact (congrArg Prod.fst early).symm

/-- The numbers of a registry's handles are those below its size, each for one handle. -/
theorem Canonical.existsUnique_id (canonical : history.Canonical) {registry number : Nat}
    (few : (history.registries registry).size ≤ UInt32.size)
    (below : number < (history.registries registry).size) :
    ∃! handle, handle ∈ history.handles registry ∧ handle.id.toNat = number := by
  have orderly := canonical.orderly registry
  have id_eq (place : Nat) (inside : place < (history.registries registry).handles.size) :
      (history.registries registry).handles[place].id.toNat = place := by
    rw [orderly.numbered place inside]
    exact UInt32.toNat_ofNat_of_lt' (inside.trans_le few)
  have inside : number < (history.registries registry).handles.size := below
  refine ⟨(history.registries registry).handles[number],
    ⟨canonical.mem_handles.mpr (Array.getElem_mem inside), id_eq number inside⟩, ?_⟩
  rintro handle ⟨member, rfl⟩
  obtain ⟨place, within, rfl⟩ := Array.getElem_of_mem (canonical.mem_handles.mp member)
  simp only [id_eq place within]

theorem Canonical.id_lt (canonical : history.Canonical) {registry : Nat} {handle : TypeHandle}
    (few : (history.registries registry).size ≤ UInt32.size)
    (inside : handle ∈ history.handles registry) :
    handle.id.toNat < (history.registries registry).size := by
  obtain ⟨place, within, rfl⟩ := Array.getElem_of_mem (canonical.mem_handles.mp inside)
  rw [(canonical.orderly registry).numbered place within]
  exact (UInt32.toNat_ofNat_of_lt' (within.trans_le few)).trans_lt within

theorem Canonical.eq_of_request (canonical : history.Canonical) {registry : Nat}
    {first second : TypeHandle} (left : first ∈ history.handles registry)
    (right : second ∈ history.handles registry) (same : first.request = second.request) :
    first = second := by
  have early := (canonical.orderly registry).find?_of_mem (canonical.mem_handles.mp left)
  have late := (canonical.orderly registry).find?_of_mem (canonical.mem_handles.mp right)
  rw [same, late] at early
  exact (Option.some.inj early).symm

/-- The element of an array that lies in one registry is a handle of this registry. -/
theorem Canonical.mem_element (canonical : history.Canonical) {registry : Nat}
    {handle element : TypeHandle} (inside : handle ∈ history.handles registry)
    (within : handle.Within registry) (made : handle.request = .array element) :
    element ∈ history.handles registry := by
  obtain ⟨answer, answered, -, rfl⟩ :=
    (canonical.stored _ _).mp (canonical.mem_handles.mp inside)
  obtain ⟨earlier, known, rfl⟩ := canonical.founded answer answered element
    ((canonical.asked answer answered).symm.trans made)
  have home : earlier.registry = registry :=
    (canonical.registry_eq known).symm.trans (within.element made).registry_eq
  exact canonical.mem_handles.mpr ((canonical.stored _ _).mpr ⟨earlier, known, home, rfl⟩)

/-- Handles of one registry for the same type are one handle. The induction is on the type: the
elements are handles of this registry, too. -/
theorem Canonical.eq_of_type (canonical : history.Canonical) {registry : Nat} {type : Ty}
    {first second : TypeHandle} (left : first ∈ history.handles registry)
    (right : second ∈ history.handles registry) (near : first.Within registry)
    (close : second.Within registry) (early : first.type = type) (late : second.type = type) :
    first = second := by
  induction type generalizing first second with
  | scalar kind =>
      refine canonical.eq_of_request left right ?_
      rw [TypeHandle.request_of_scalar early, TypeHandle.request_of_scalar late]
  | array element hypothesis =>
      obtain ⟨inner, asked, inner_type⟩ := TypeHandle.request_of_array early
      obtain ⟨other, requested, other_type⟩ := TypeHandle.request_of_array late
      have same : inner = other :=
        hypothesis (canonical.mem_element left near asked)
          (canonical.mem_element right close requested) (near.element asked)
          (close.element requested) inner_type other_type
      exact canonical.eq_of_request left right (by rw [asked, requested, same])

/-- Types are interned canonically, whatever the registries are asked for. Two handles are the same
just when one registry made them for one request, and a registry's size is the number of the handles
that it has made. These are numbered from nought, each with a number of its own. A request made
before gets its old handle and changes nothing, and so does the shortcut for strings. Handles of one
registry are told apart by their displays where their elements, too, are all from this registry. -/
theorem Reachable.interned (reached : history.Reachable) :
    (∀ first ∈ history.answers, ∀ second ∈ history.answers, first.handle = second.handle ↔
      first.registry = second.registry ∧ first.request = second.request) ∧
    (∀ registry,
      (history.registries registry).size = (history.handles registry).card ∧
      ((history.registries registry).size ≤ UInt32.size →
        (∀ handle ∈ history.handles registry,
          handle.id.toNat < (history.registries registry).size) ∧
        ∀ number < (history.registries registry).size,
          ∃! handle, handle ∈ history.handles registry ∧ handle.id.toNat = number)) ∧
    (∀ answer ∈ history.answers,
      (history.registries answer.registry).intern answer.request =
        (answer.handle, history.registries answer.registry)) ∧
    (∀ registry character string, ⟨registry, .scalar .char, character⟩ ∈ history.answers →
      ⟨registry, .array character, string⟩ ∈ history.answers →
      (history.registries registry).string = (string, history.registries registry)) ∧
    ∀ registry, ∀ first ∈ history.handles registry, ∀ second ∈ history.handles registry,
      first.Within registry → second.Within registry →
      (first = second ↔ first.display = second.display) := by
  have canonical := reached.canonical
  refine ⟨fun first left second right => canonical.handle_eq_iff left right,
    fun registry => ⟨(canonical.card_handles registry).symm, fun few => ⟨fun handle inside =>
      canonical.id_lt few inside, fun number below => canonical.existsUnique_id few below⟩⟩,
    fun answer inside => canonical.intern_asked inside, ?_, ?_⟩
  · intro registry character string first second
    have early := canonical.intern_asked first
    have late := canonical.intern_asked second
    simp only [TypeRegistry.string, TypeRegistry.scalar, TypeRegistry.array, early, late]
  · intro registry first left second right near close
    exact ⟨congrArg _, fun same =>
      canonical.eq_of_type left right near close rfl (Ty.display_injective same).symm⟩

/-- A string, and an array of the characters of another registry, which bears the same display. -/
def foreignText : TypeHistory :=
  let character := initial.record 1 (.scalar .char) ((initial.registries 1).scalar .char)
  let element : TypeHandle := .scalar 1 0 .char
  let foreign := character.record 0 (.array element) ((character.registries 0).array element)
  (foreign.record 0 (.scalar .char) ((foreign.registries 0).scalar .char)).record 0
    (.array ((foreign.registries 0).scalar .char).1) (foreign.registries 0).string

theorem reachable_foreignText : foreignText.Reachable :=
  .step (.step (.step .initial (.scalar 1 .char)) (.array 0 ⟨_, .head _, rfl⟩)) (.string 0)

/-- The registry has made three handles, two of them for texts. -/
theorem interned_foreignText :
    foreignText.Reachable ∧ (foreignText.handles 0).card = 3 ∧
      ∃ first ∈ foreignText.answers, ∃ second ∈ foreignText.answers,
        first.handle.display = second.handle.display ∧ first.registry = second.registry ∧
          first.handle ≠ second.handle := by
  obtain ⟨equal, counted, -, -, -⟩ := reachable_foreignText.interned
  refine ⟨reachable_foreignText, (counted 0).1.symm.trans (by decide), ?_⟩
  let text : TypeAnswer := ⟨0, .array (.scalar 0 1 .char), .array 0 2 (.scalar 0 1 .char)⟩
  let foreign : TypeAnswer := ⟨0, .array (.scalar 1 0 .char), .array 0 0 (.scalar 1 0 .char)⟩
  have left : text ∈ foreignText.answers := .head _
  have right : foreign ∈ foreignText.answers := .tail _ (.tail _ (.head _))
  refine ⟨text, left, foreign, right, rfl, rfl, fun same => ?_⟩
  exact absurd ((equal text left foreign right).mp same).2 (by decide)

end TypeHistory

end CoopScript
