import CoopScript.Proofs.Machine.Mirrored
import CoopScript.Proofs.Machine.Relodging

/-!
Two machines of a program stay apart. Each has its bodies at places of its own in the common heap,
away from the literals, and whatever the host does with the other machine it moves on as it does
alone.
-/

namespace CoopScript

open Machine (Grounded)

variable {lodging : Lodging} {heap : Heap} {machine : Machine} {script : Script}

/-! What the host sees. -/

theorem Lodging.follow_heap (fits : lodging.size ≤ heap.size) (value : Value) (path : List Nat) :
    (lodging.heap heap).follow (lodging.value value) path =
      lodging.value (heap.follow value path) := by
  induction path generalizing value with
  | nil => rfl
  | cons position rest hypothesis =>
      simp only [Heap.follow, index_heap fits]
      cases heap.index value position with
      | error cause => rfl
      | ok element => exact hypothesis element

theorem Machine.lead_lodging (fits : lodging.size ≤ machine.heap.size) (path : Nat × List Nat) :
    (lodging.machine machine).lead path = lodging.value (machine.lead path) := by
  unfold lead
  rw [join_global?_lodging]
  exact Lodging.follow_heap fits _ path.2

/-- The host sees the same of a machine among others. -/
theorem Lodging.Hosts.report (hosts : lodging.Hosts script machine) :
    (lodging.machine machine).report = machine.report := by
  have globals : (lodging.machine machine).globalValues.map (lodging.machine machine).heap.view =
      machine.globalValues.map machine.heap.view := by
    rw [Machine.globalValues_lodging, List.map_map]
    exact List.map_congr_left fun value _ => view_heap hosts.fits hosts.grounded.sound value
  have shares (path other : Nat × List Nat) :
      (((lodging.machine machine).lead path).isSome &&
          decide ((lodging.machine machine).lead path = (lodging.machine machine).lead other)) =
        ((machine.lead path).isSome && decide (machine.lead path = machine.lead other)) := by
    simp only [Machine.lead_lodging hosts.fits, lodging.value_injective.eq_iff]
    exact congrArg (· && _) Option.isSome_map
  simp only [Machine.report, globals, shares, Machine.stackTrace_lodging]
  rfl

/-! Places of both machines. -/

/-- The machine on a side is as it would be alone but for the places of its bodies, of which none is
among the literals. -/
structure Company.Houses (company : Company) (stock : Stock script) (side : Side) (alone : Machine)
    (lodging : Lodging) : Prop where
  hosts : lodging.Hosts script alone
  host : lodging.host = company.heap
  size : lodging.size = alone.heap.size
  machine : company.machine side = lodging.machine alone
  beyond : ∀ own, own.index < lodging.size → stock.heap.size ≤ (lodging.place own).index

/-- So are both, neither has a body at a place of the other's, and the literals are as they were. -/
structure Company.Apart (company : Company) (stock : Stock script) (alone : Side → Machine)
    (lodging : Side → Lodging) : Prop where
  houses : ∀ side, company.Houses stock side (alone side) (lodging side)
  apart : ∀ side own other, own.index < (lodging side).size →
    other.index < (lodging side.other).size →
    (lodging side).place own ≠ (lodging side.other).place other
  extended : stock.heap.Extends company.heap

namespace Side

variable {side : Side}

theorem other_ne (side : Side) : side.other ≠ side := by cases side <;> nofun

@[simp] theorem other_other (side : Side) : side.other.other = side := by cases side <;> rfl

theorem both {motive : Side → Prop} (this : motive side) (other : motive side.other) (any : Side) :
    motive any := by
  cases side <;> cases any <;> assumption

end Side

namespace Company

variable {stock : Stock script} {company : Company} {side : Side}

theorem machine_put (company : Company) (side : Side) (machine : Machine) :
    (company.put side machine).machine side = machine := by
  simp only [Company.machine, put, Function.update_self]

theorem machine_put_other (company : Company) (side : Side) (machine : Machine) :
    (company.put side.other machine).machine side =
      { company.machine side with heap := machine.heap } := by
  simp only [Company.machine, put, Function.update_of_ne side.other_ne.symm]

namespace Houses

variable {alone after : Machine} (houses : company.Houses stock side alone lodging)

include houses

theorem heap_eq : lodging.heap alone.heap = company.heap :=
  (congrArg Machine.heap houses.machine).symm

/-- What is added to the machine's bodies comes behind all that there are. -/
theorem size_le_place {own : BodyId} (new : lodging.size ≤ own.index) :
    company.heap.size ≤ (lodging.place own).index := by
  rw [Lodging.index_place_of_le new, houses.host]
  exact Nat.le_add_right _ _

theorem place_lt_size {own : BodyId} (old : own.index < lodging.size) :
    (lodging.place own).index < company.heap.size := by
  rw [← houses.host]
  exact lodging.inside own old

theorem size_le_heap (after : Machine) : company.heap.size ≤ (lodging.heap after.heap).size := by
  rw [← houses.host]
  exact lodging.host_size_le after.heap

/-- The machine has moved on. -/
theorem grow (evolves : alone.Evolves after) (stocked : stock.heap.size ≤ company.heap.size) :
    (company.put side (lodging.machine after)).Houses stock side after
      (lodging.grow after.heap (houses.hosts.evolve evolves).fits) where
  hosts := ⟨evolves.grounded, evolves.grows.script.trans houses.hosts.script, le_rfl⟩
  host := rfl
  size := rfl
  machine := by
    rw [Lodging.machine_grow, machine_put]
  beyond := by
    intro own _
    by_cases old : own.index < lodging.size
    · exact houses.beyond own old
    · exact stocked.trans (houses.size_le_place (Nat.le_of_not_lt old))

/-- The other machine has moved on, and has not touched the bodies of this one. -/
theorem shift {other : Machine} (larger : lodging.host.size ≤ other.heap.size)
    (stays : ∀ id, id.index < lodging.size →
      other.heap.body? (some (lodging.place id)) = (alone.heap.body? (some id)).map lodging.body) :
    (company.put side.other other).Houses stock side alone (lodging.shift other.heap larger) where
  hosts := ⟨houses.hosts.grounded, houses.hosts.script, houses.hosts.fits⟩
  host := rfl
  size := houses.size
  machine := by
    rw [Lodging.machine_shift houses.hosts.grounded houses.size.symm stays, ← houses.machine,
      machine_put_other]
  beyond := by
    intro own old
    have same : (lodging.shift other.heap larger).place own = lodging.place own :=
      Lodging.place_shift_of_lt old
    rw [same]
    exact houses.beyond own old

end Houses

namespace Apart

variable {alone : Side → Machine} {lodging : Side → Lodging} {after : Machine}
  (apart : company.Apart stock alone lodging)

include apart

theorem foreign_stock (side : Side) {id : BodyId} (stocked : id.index < stock.heap.size) :
    (lodging side).Foreign id := by
  rintro own rfl
  by_cases old : own.index < (lodging side).size
  · exact absurd stocked (Nat.not_lt.mpr ((apart.houses side).beyond own old))
  · have behind := (apart.houses side).size_le_place (Nat.le_of_not_lt old)
    exact absurd stocked (Nat.not_lt.mpr (apart.extended.size.trans behind))

theorem foreign_other (side : Side) {id : BodyId} (old : id.index < (lodging side.other).size) :
    (lodging side).Foreign ((lodging side.other).place id) := by
  intro own same
  by_cases inside : own.index < (lodging side).size
  · exact apart.apart side own id inside old same
  · have behind := (apart.houses side).size_le_place (Nat.le_of_not_lt inside)
    rw [same] at behind
    exact absurd ((apart.houses side.other).place_lt_size old) (Nat.not_lt.mpr behind)

theorem spared_stock (side : Side) {value : Value} (has : stock.heap.Has value) :
    (lodging side).Spared value := by
  intro id reaches
  rw [(apart.houses side).host] at reaches
  have founded := stock.sound value has
  have before := (apart.extended.spares founded).reaches_iff.mp reaches
  exact apart.foreign_stock side ((founded.reached before).has id rfl)

theorem spared_other (side : Side) {value : Value}
    (held : value ∈ (company.machine side.other).roots) : (lodging side).Spared value := by
  have houses := apart.houses side.other
  have grounded := houses.hosts.grounded
  intro id reaches
  rw [houses.machine, Machine.roots_lodging] at held
  obtain ⟨root, own, rfl⟩ := List.mem_map.mp held
  rw [(apart.houses side).host, ← houses.heap_eq] at reaches
  obtain ⟨inner, within, same⟩ := (Lodging.reaches_heap_iff houses.hosts.fits).mp reaches
  cases inner with
  | none => cases same
  | some inner =>
      have has := FrameArena.within_iff.mp grounded.within root own
      have old := ((grounded.sound root has).reached within).has inner rfl
      rw [← houses.size] at old
      rw [Option.some.inj same]
      exact apart.foreign_other side old

/-- A machine reaches none of the literals and none of the other machine's values. -/
theorem suits (side : Side) : (lodging side).Suits (company.surroundings stock side) script where
  spared := by
    intro value inside
    rcases List.mem_append.mp inside with listed | held
    · exact apart.spared_stock side (stock.has value listed)
    · exact apart.spared_other side held
  literals := by
    intro id position datum coded
    have has := stock.has _ (stock.listed id position datum coded)
    have founded := stock.sound _ has
    refine ⟨?_, ?_, apart.spared_stock side has⟩
    · rw [(apart.houses side).host]
      exact apart.extended.founded founded
    · rw [(apart.houses side).host]
      exact (apart.extended.view founded).trans (stock.view id position datum coded)

/-! What becomes of the places when one of the machines has moved on. -/

/-- The bodies of the other machine are not touched. -/
theorem stays (side : Side) (after : Machine) {id : BodyId}
    (old : id.index < (lodging side.other).size) :
    ((lodging side).heap after.heap).body? (some ((lodging side.other).place id)) =
      ((alone side.other).heap.body? (some id)).map (lodging side.other).body := by
  have houses := apart.houses side.other
  rw [Lodging.body?_heap_of_foreign (apart.foreign_other side old), (apart.houses side).host,
    ← houses.heap_eq]
  exact Lodging.body?_heap houses.hosts.fits (some id)

/-- Neither are those of the literals. -/
theorem extended_heap (side : Side) (after : Machine) :
    stock.heap.Extends ((lodging side).heap after.heap) where
  size := apart.extended.size.trans ((apart.houses side).size_le_heap after)
  bodies := by
    intro value has
    cases value with
    | none => rfl
    | some id =>
        rw [Lodging.body?_heap_of_foreign (apart.foreign_stock side (has id rfl)),
          (apart.houses side).host]
        exact apart.extended.bodies (some id) has

theorem put (evolves : (alone side).Evolves after) :
    ∃ next, (company.put side ((lodging side).machine after)).Apart stock
      (Function.update alone side after) next := by
  have this := (apart.houses side).grow evolves apart.extended.size
  have larger : (lodging side.other).host.size ≤ ((lodging side).machine after).heap.size := by
    rw [(apart.houses side.other).host]
    exact (apart.houses side).size_le_heap after
  have other := (apart.houses side.other).shift larger fun id => apart.stays side after
  rw [side.other_other] at other
  have fits := ((apart.houses side).hosts.evolve evolves).fits
  let shifted := (lodging side.other).shift ((lodging side).machine after).heap larger
  let next := Function.update (fun _ => shifted) side ((lodging side).grow after.heap fits)
  have moved : next side = (lodging side).grow after.heap fits := Function.update_self ..
  have rested : next side.other = shifted := Function.update_of_ne side.other_ne ..
  have stays (id : BodyId) (old : id.index < shifted.size) :
      shifted.place id = (lodging side.other).place id := Lodging.place_shift_of_lt old
  refine ⟨next, @Side.both side _ ?_ ?_, @Side.both side _ ?_ ?_, apart.extended_heap side after⟩
  · rw [moved, Function.update_self]
    exact this
  · rw [rested, Function.update_of_ne side.other_ne]
    exact other
  · rw [moved, rested]
    intro own other _ old
    rw [stays other old]
    exact apart.foreign_other side old own
  · rw [side.other_other, moved, rested]
    intro own other old _
    rw [stays own old]
    exact (apart.foreign_other side old other).symm

end Apart

end Company

end CoopScript
