import CoopScript.Proofs.Machine.Breaking
import CoopScript.Proofs.Machine.Scheduling
import CoopScript.Proofs.Machine.Secrecy

/-!
Sessions that go on and on. What a frame has made and kept among its operands stays as it is over a course
of a session, as long as nobody passes on handles that they never got.
-/

namespace CoopScript

open Machine (Transition Path Reachable)

/-- The machines of a session, one transition after another, with the handles that the host hands over. -/
structure Course (program : Program) (limits : Limits) where
  machine : Nat → Machine
  handed : Nat → List Value
  begins : (machine 0).Faithful program limits
  goes : ∀ moment, Transition program.natives (handed moment) (machine moment) (machine (moment + 1))
  given : ∀ moment, ∀ handle ∈ handed moment, (machine moment).heap.Has handle

namespace Course

variable {program : Program} {limits : Limits} (course : Course program limits)
  {moment later : Nat} {number : ThreadId} {secret : Secret}

theorem faithful (moment : Nat) : (course.machine moment).Faithful program limits := by
  induction moment with
  | zero => exact course.begins
  | succ moment hypothesis => exact hypothesis.step (course.goes moment) (course.given moment)

theorem reachable (moment : Nat) : Reachable program limits (course.machine moment) :=
  (course.faithful moment).reachable

theorem steady (moment : Nat) : (course.machine moment).Steady fun _ => True :=
  (course.reachable moment).steady (fun _ _ => trivial)
    fun _ _ _ => Routine.honest_of_forall (fun _ => trivial) _

theorem path (ordered : moment ≤ later) :
    Path program.natives (course.machine moment) (course.machine later) := by
  induction later, ordered using Nat.le_induction with
  | base => exact .refl
  | succ later _ hypothesis => exact hypothesis.tail ⟨_, course.goes later⟩

theorem script (moment : Nat) : (course.machine moment).script = program.script :=
  (course.reachable moment).script

/-- While it is the turn of a thread, the machine moves. -/
theorem moves (turn : (course.machine moment).current = some number) :
    course.machine (moment + 1) = (course.machine moment).move program.natives :=
  (course.goes moment).eq_move ((course.steady moment).current_running turn)

theorem advances (ordered : moment ≤ later) :
    (course.machine moment).threads.Advances (course.machine later).threads :=
  ((course.path ordered).changes (fun _ _ => trivial)
    (fun _ _ _ => Routine.honest_of_forall (fun _ => trivial) _) (course.steady moment)).advances

/-- A thread that was there before and lives later lives in between. -/
theorem lives {between : Nat} (after : moment ≤ between) (before : between ≤ later)
    (old : number.number < (course.machine moment).threads.next.number)
    (lives : number ∈ (course.machine later).threads.ids) :
    number ∈ (course.machine between).threads.ids :=
  ((course.advances before).older number lives).resolve_right
    (Nat.not_le.mpr (old.trans_le (course.advances after).next_le))

/-- A body that was made since the course began, and that nothing but operands of its owner has named. -/
def Concealed (secret : Secret) (moment : Nat) : Prop :=
  ∃ since < moment, ¬ (course.machine since).heap.Has secret.handle ∧
    ∀ later, since < later → later ≤ moment → (course.machine later).Conceals secret

/-- Such a body while the owner is there and has it among its operands. -/
structure Private (secret : Secret) (moment : Nat) : Prop where
  concealed : course.Concealed secret moment
  held : ∃ frame, (course.machine moment).frames.frame? secret.owner = some frame ∧
    secret.handle ∈ frame.stack

/-- Neither the host nor the native functions pass on what only operands of the frame have ever named:
they cannot have got it from anywhere. -/
def Unforged (owner : FrameId) (moment : Nat) : Prop :=
  ∀ secret, secret.owner = owner → course.Private secret moment →
    secret.handle ∉ course.handed moment ∧
      (course.machine moment).Withholds program.natives secret.handle

variable {course}

/-- A body that is made now. -/
theorem Concealed.make (new : ¬ (course.machine moment).heap.Has secret.handle)
    (conceals : (course.machine (moment + 1)).Conceals secret) :
    course.Concealed secret (moment + 1) := by
  refine ⟨moment, Nat.lt_succ_self _, new, fun later after upto => ?_⟩
  obtain rfl : later = moment + 1 := Nat.le_antisymm upto after
  exact conceals

namespace Concealed

variable (concealed : course.Concealed secret moment)

include concealed

theorem conceals : (course.machine moment).Conceals secret := by
  obtain ⟨since, earlier, _, hidden⟩ := concealed
  exact hidden moment earlier le_rfl

theorem next (conceals : (course.machine (moment + 1)).Conceals secret) :
    course.Concealed secret (moment + 1) := by
  obtain ⟨since, earlier, new, hidden⟩ := concealed
  refine ⟨since, Nat.lt_succ_of_lt earlier, new, fun later after upto => ?_⟩
  rcases Nat.le_succ_iff.mp upto with before | rfl
  · exact hidden later after before
  · exact conceals

end Concealed

/-- What a frame has kept to itself stays concealed while other frames execute. -/
theorem Private.next (privately : course.Private secret moment)
    (unforged : course.Unforged secret.owner moment)
    (elsewhere : ∀ number, ¬ (course.machine moment).ExecutesIn number secret.owner)
    (going : (course.machine (moment + 1)).stopped = false) :
    course.Concealed secret (moment + 1) := by
  obtain ⟨apart, withheld⟩ := unforged secret rfl privately
  have hidden := privately.concealed.conceals
  exact privately.concealed.next
    (hidden.transition withheld elsewhere apart (course.goes moment) going)

/-- Moves of a running machine until it rests. From then on its journal is cleared again and again. -/
def ofMoves {machine : Machine} (session : machine.Faithful program limits) (count : Nat)
    (running : ∀ before < count, ((Machine.move program.natives)^[before] machine).state = .running)
    (rests : ((Machine.move program.natives)^[count] machine).state ≠ .running) :
    Course program limits where
  machine moment :=
    if moment ≤ count then (Machine.move program.natives)^[moment] machine
    else ((Machine.move program.natives)^[count] machine).clearJournal
  handed _ := []
  begins := session
  goes moment := by
    rcases Nat.lt_trichotomy moment count with before | rfl | after
    · rw [if_pos before.le, if_pos (Nat.succ_le_of_lt before), Function.iterate_succ_apply']
      exact .move (running moment before)
    · rw [if_pos le_rfl, if_neg (Nat.not_succ_le_self _)]
      exact .clear rests
    · rw [if_neg (Nat.not_le.mpr after), if_neg (Nat.not_le.mpr (after.trans (Nat.lt_succ_self _)))]
      exact .clear rests
  given _ _ inside := absurd inside List.not_mem_nil

end Course

end CoopScript
