import CoopScript.Proofs.Machine.Apart
import CoopScript.Proofs.Types.Interning

/-!
Machines that share a program do not interfere.
-/

namespace CoopScript

variable {script : Script} {stock : Stock script} {company : Company} {alone : Side → Machine}
  {lodging : Side → Lodging} {natives : Natives} {side : Side} {Item : Type}

namespace Side

end Side

namespace Company

/-- The host sees the same of each machine. -/
theorem Apart.report (apart : company.Apart stock alone lodging) (side : Side) :
    (company.machine side).report = (alone side).report := by
  rw [(apart.houses side).machine]
  exact (apart.houses side).hosts.report

variable (faithful : natives.Faithful) (uniform : natives.Uniform)

include faithful uniform

end Company

/-! The first operation. -/

variable {program : Program}

/-- A registry that answers both sides. -/
def TypeRegistry.answers (registry : TypeRegistry) (requests : List (Side × Ty)) :
    List (Side × TypeHandle) :=
  (requests.map Prod.fst).zip (registry.ofTypes (requests.map Prod.snd)).1

namespace Company

/-- Both machines run and write to their globals in turns. -/
def turns : List (Side × Operation) :=
  [(.first, .run), (.second, .run), (.first, .call "reset" []), (.second, .resume),
    (.second, .overwrite 0 (.fresh (.boolean true)))]

end Company

end CoopScript
