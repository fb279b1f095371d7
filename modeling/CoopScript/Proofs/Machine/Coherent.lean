import CoopScript.Proofs.Frames.Skeleton
import CoopScript.Script
import CoopScript.Machine.Thread

/-!
Frames and threads that fit together: every thread has a chain of executing frames of its own, every
executing frame is on such a chain, and the frames belong to blocks of the script.
-/

namespace CoopScript

/-- A frame is an activation of a block of the script. -/
def Frame.Activates (frame : Frame) (script : Script) : Prop :=
  ∃ block, script.block? frame.block = some block ∧ frame.kind = block.kind ∧
    frame.level = block.level ∧ frame.finish = block.size

/-- A thread executes a frame or waits in it for the return of an inner one. -/
def Occupies (arena : FrameArena) (threads : ThreadId → Option Thread) (id : ThreadId)
    (frame : FrameId) : Prop :=
  ∃ thread chain, threads id = some thread ∧ arena.Chain thread.root thread.current chain ∧
    frame ∈ chain

open FrameArena in
/-- The frames of an arena belong to the given threads and to the globals. -/
structure Coherent (script : Script) (arena : FrameArena) (globals : Option FrameId)
    (threads : ThreadId → Option Thread) : Prop where
  counted : arena.Counted (once globals)
  outermost : ∀ id, globals = some id →
    ∃ frame, arena.frame? id = some frame ∧ frame.parent = none
  activates : ∀ id frame, arena.frame? id = some frame → frame.Activates script
  chain : ∀ id thread, threads id = some thread →
    ∃ chain, arena.Chain thread.root thread.current chain ∧ chain.length = thread.depth + 1
  owned : ∀ id frame, arena.frame? id = some frame → frame.retired = false →
    ∃ owner, Occupies arena threads owner id
  apart : ∀ id first second, Occupies arena threads first id → Occupies arena threads second id →
    first = second

namespace Coherent

open FrameArena

variable {script : Script} {arena after : FrameArena} {globals : Option FrameId}
  {threads : ThreadId → Option Thread} {number : ThreadId} {thread : Thread} {frame : Frame}
  {id : FrameId}

theorem empty (script : Script) : Coherent script {} none fun _ => none where
  counted := FrameArena.Counted.empty
  outermost := by simp
  activates := by simp [frame?]
  chain := by simp
  owned := by simp [frame?]
  apart := by simp [Occupies]

theorem live_current (coherent : Coherent script arena globals threads)
    (found : threads number = some thread) :
    ∃ frame, arena.frame? thread.current = some frame ∧ frame.retired = false :=
  have ⟨_, whole, _⟩ := coherent.chain number thread found
  whole.running whole.head_mem

theorem live_root (coherent : Coherent script arena globals threads)
    (found : threads number = some thread) :
    ∃ frame, arena.frame? thread.root = some frame ∧ frame.retired = false :=
  have ⟨_, whole, _⟩ := coherent.chain number thread found
  whole.running whole.root_mem

theorem occupies_current (coherent : Coherent script arena globals threads)
    (found : threads number = some thread) : Occupies arena threads number thread.current :=
  have ⟨chain, whole, _⟩ := coherent.chain number thread found
  ⟨thread, chain, found, whole, whole.head_mem⟩

theorem live_of_occupies (occupied : Occupies arena threads number id) :
    ∃ frame, arena.frame? id = some frame ∧ frame.retired = false := by
  obtain ⟨thread, chain, found, whole, inside⟩ := occupied
  exact whole.running inside

/-- Whether frames and threads fit together does not depend on the contents of the frames. -/
theorem of_skeleton (coherent : Coherent script arena globals threads)
    (same : after.skeleton = arena.skeleton) : Coherent script after globals threads := by
  have occupies {owner : ThreadId} {member : FrameId} (held : Occupies after threads owner member) :
      Occupies arena threads owner member :=
    have ⟨thread, chain, found, whole, inside⟩ := held
    ⟨thread, chain, found, whole.of_skeleton same.symm, inside⟩
  constructor
  case counted => exact coherent.counted.of_skeleton same
  case outermost =>
    intro id named
    obtain ⟨frame, live, outermost⟩ := coherent.outermost id named
    obtain ⟨now, place, alike⟩ := frame?_of_skeleton same live
    exact ⟨now, place, (congrArg (·.parent) alike).trans outermost⟩
  case activates =>
    intro id frame live
    obtain ⟨before, earlier, alike⟩ := frame?_of_skeleton same.symm live
    obtain ⟨block, found, kind, level, finish⟩ := coherent.activates id before earlier
    have blocks : before.block = frame.block := congrArg (·.block) alike
    exact ⟨block, blocks ▸ found, (congrArg (·.kind) alike).symm.trans kind,
      (congrArg (·.level) alike).symm.trans level, (congrArg (·.finish) alike).symm.trans finish⟩
  case chain =>
    intro id thread found
    obtain ⟨chain, whole, length⟩ := coherent.chain id thread found
    exact ⟨chain, whole.of_skeleton same, length⟩
  case owned =>
    intro id frame live running
    obtain ⟨before, earlier, alike⟩ := frame?_of_skeleton same.symm live
    obtain ⟨owner, thread, chain, found, whole, inside⟩ := coherent.owned id before earlier
      ((congrArg (·.retired) alike).trans running)
    exact ⟨owner, thread, chain, found, whole.of_skeleton same, inside⟩
  case apart =>
    intro id first second held again
    exact coherent.apart id first second (occupies held) (occupies again)

/-! A frame comes in. -/

/-- A frame that fits in: it begins with no pins, and its parent is alive. -/
structure Fits (script : Script) (arena : FrameArena) (frame : Frame) : Prop where
  activates : frame.Activates script
  unpinned : frame.pins = 0
  running : frame.retired = false
  outside : ∀ parent, frame.parent = some parent → ∃ around, arena.frame? parent = some around

theorem occupies_grown (grown : arena.Grown frame id after)
    {owner : ThreadId} {member : FrameId} (found : threads owner = some thread)
    {threads' : ThreadId → Option Thread} (same : threads' owner = some thread)
    (whole : ∃ chain, arena.Chain thread.root thread.current chain) :
    Occupies after threads' owner member ↔ Occupies arena threads owner member := by
  obtain ⟨chain, whole⟩ := whole
  constructor
  · intro given
    obtain ⟨_, again, held, other, inside⟩ := given
    rw [same] at held
    cases held
    rw [other.unique (whole.grown grown)] at inside
    exact ⟨thread, chain, found, whole, inside⟩
  · intro given
    obtain ⟨_, again, held, other, inside⟩ := given
    rw [found] at held
    cases held
    exact ⟨thread, again, same, other.grown grown, inside⟩

/-- With a new frame that one thread occupies beyond what it did, everything still fits. -/
theorem grow (coherent : Coherent script arena globals threads) (fits : Fits script arena frame)
    {threads' : ThreadId → Option Thread} {chain : List FrameId}
    (others : ∀ other, other ≠ number → threads' other = threads other)
    (own : threads' number = some thread)
    (whole : (arena.allocate frame).2.Chain thread.root thread.current chain)
    (length : chain.length = thread.depth + 1)
    (members : ∀ member, member ∈ chain ↔
      member = (arena.allocate frame).1 ∨ Occupies arena threads number member) :
    Coherent script (arena.allocate frame).2 globals threads' := by
  have grown := coherent.counted.grown fits.outside
  have unheld (owner : ThreadId) : ¬ Occupies arena threads owner (arena.allocate frame).1 := by
    intro held
    obtain ⟨frame, live, _⟩ := live_of_occupies held
    rw [grown.vacant] at live
    cases live
  have occupied (owner : ThreadId) (member : FrameId) :
      Occupies (arena.allocate frame).2 threads' owner member ↔
        owner = number ∧ member = (arena.allocate frame).1 ∨
          Occupies arena threads owner member := by
    by_cases same : owner = number
    · subst same
      constructor
      · intro given
        obtain ⟨_, again, held, other, inside⟩ := given
        rw [own] at held
        cases held
        rw [other.unique whole] at inside
        exact ((members member).mp inside).imp (fun new => ⟨rfl, new⟩) id
      · intro held
        exact ⟨thread, chain, own, whole, (members member).mpr (held.imp And.right id)⟩
    · simp only [same, false_and, false_or]
      cases held : threads owner with
      | none => simp [Occupies, others owner same, held]
      | some thread =>
          obtain ⟨chain, whole, _⟩ := coherent.chain owner thread held
          exact occupies_grown grown held ((others owner same).trans held) ⟨chain, whole⟩
  constructor
  case counted => exact coherent.counted.allocate fits.outside fits.unpinned fits.running
  case outermost =>
    intro id named
    obtain ⟨held, live, outermost⟩ := coherent.outermost id named
    obtain ⟨pins, still⟩ := grown.kept id held live
    exact ⟨_, still, outermost⟩
  case activates =>
    intro id held live
    by_cases same : id = (arena.allocate frame).1
    · rw [same, grown.new] at live
      cases live
      exact fits.activates
    · obtain ⟨before, earlier, alike⟩ := grown.old id held live same
      rw [alike]
      exact coherent.activates id before earlier
  case chain =>
    intro other held again
    by_cases same : other = number
    · subst same
      rw [own] at again
      cases again
      exact ⟨chain, whole, length⟩
    · rw [others other same] at again
      obtain ⟨chain, whole, length⟩ := coherent.chain other held again
      exact ⟨chain, whole.grown grown, length⟩
  case owned =>
    intro id held live running
    by_cases same : id = (arena.allocate frame).1
    · exact ⟨number, (occupied number id).mpr (.inl ⟨rfl, same⟩)⟩
    · obtain ⟨before, earlier, alike⟩ := grown.old id held live same
      rw [alike] at running
      obtain ⟨owner, holds⟩ := coherent.owned id before earlier running
      exact ⟨owner, (occupied owner id).mpr (.inr holds)⟩
  case apart =>
    intro id first second held again
    rcases (occupied first id).mp held with ⟨rfl, new⟩ | old
    · rcases (occupied second id).mp again with ⟨rfl, _⟩ | other
      · rfl
      · exact (unheld second (new ▸ other)).elim
    · rcases (occupied second id).mp again with ⟨rfl, new⟩ | other
      · exact (unheld first (new ▸ old)).elim
      · exact coherent.apart id first second old other

/-- A thread goes into a new frame around which is its current one. -/
theorem descend (coherent : Coherent script arena globals threads) (fits : Fits script arena frame)
    (found : threads number = some thread) (parent : frame.parent = some thread.current) :
    Coherent script (arena.allocate frame).2 globals
      (Function.update threads number (some { thread with
        current := (arena.allocate frame).1
        depth := thread.depth + 1 })) := by
  have grown := coherent.counted.grown fits.outside
  obtain ⟨chain, whole, length⟩ := coherent.chain number thread found
  have different : (arena.allocate frame).1 ≠ thread.root := by
    intro same
    obtain ⟨root, live, _⟩ := whole.running whole.root_mem
    rw [← same, grown.vacant] at live
    cases live
  have deeper : (arena.allocate frame).2.Chain thread.root (arena.allocate frame).1
      ((arena.allocate frame).1 :: chain) :=
    .inner grown.new fits.running different parent (whole.grown grown)
  refine coherent.grow fits (fun other => (Function.update_of_ne · _ _)) (Function.update_self ..)
    deeper (by simp [length]) fun member => ?_
  have occupied : Occupies arena threads number member ↔ member ∈ chain := by
    constructor
    · intro given
      obtain ⟨_, again, held, other, inside⟩ := given
      rw [found] at held
      cases held
      exact other.unique whole ▸ inside
    · intro inside
      exact ⟨thread, chain, found, whole, inside⟩
  rw [occupied, List.mem_cons]

/-- A new thread begins with a new frame. -/
theorem launch (coherent : Coherent script arena globals threads) (fits : Fits script arena frame)
    (fresh : threads number = none) :
    Coherent script (arena.allocate frame).2 globals
      (Function.update threads number (some {
        root := (arena.allocate frame).1
        current := (arena.allocate frame).1 })) := by
  have grown := coherent.counted.grown fits.outside
  refine coherent.grow fits (fun other => (Function.update_of_ne · _ _)) (Function.update_self ..)
    (.root grown.new fits.running) rfl fun member => ?_
  simp [Occupies, fresh]

/-- With the globals in a frame that has nothing around it, everything still fits. -/
theorem adopt (coherent : Coherent script arena none threads) (live : arena.frame? id = some frame)
    (outermost : frame.parent = none) : Coherent script (arena.pin id) (some id) threads := by
  have stays {root current : FrameId} {chain : List FrameId}
      (whole : arena.Chain root current chain) : (arena.pin id).Chain root current chain :=
    whole.transport fun member held _ found running => by
      obtain ⟨pins, still⟩ := frame?_pin_of_frame? found id
      exact ⟨_, still, running, rfl⟩
  have occupied {owner : ThreadId} {member : FrameId} :
      Occupies (arena.pin id) threads owner member ↔ Occupies arena threads owner member := by
    constructor
    · intro given
      obtain ⟨thread, again, found, other, inside⟩ := given
      obtain ⟨chain, whole, _⟩ := coherent.chain owner thread found
      exact ⟨thread, chain, found, whole, other.unique (stays whole) ▸ inside⟩
    · intro given
      obtain ⟨thread, chain, found, whole, inside⟩ := given
      exact ⟨thread, chain, found, stays whole, inside⟩
  constructor
  case counted =>
    have pinned := coherent.counted.pin live
    rwa [show once none + once (some id) = once (some id) from zero_add _] at pinned
  case outermost =>
    intro _ equal
    cases equal
    obtain ⟨pins, still⟩ := frame?_pin_of_frame? live id
    exact ⟨_, still, outermost⟩
  case activates =>
    intro other held found
    obtain ⟨before, earlier, alike⟩ := frame?_of_frame?_pin found
    rw [alike]
    exact coherent.activates other before earlier
  case chain =>
    intro number thread found
    obtain ⟨chain, whole, length⟩ := coherent.chain number thread found
    exact ⟨chain, stays whole, length⟩
  case owned =>
    intro other held found running
    obtain ⟨before, earlier, alike⟩ := frame?_of_frame?_pin found
    rw [alike] at running
    obtain ⟨owner, occupies⟩ := coherent.owned other before earlier running
    exact ⟨owner, occupied.mpr occupies⟩
  case apart =>
    intro other first second held again
    exact coherent.apart other first second (occupied.mp held) (occupied.mp again)

/-! A frame goes. -/

/-- With the current frame of a thread retired, and occupied by that thread no more, everything
still fits. -/
theorem shrink (coherent : Coherent script arena globals threads)
    (found : threads number = some thread)
    {threads' : ThreadId → Option Thread}
    (others : ∀ other, other ≠ number → threads' other = threads other)
    (own : ∀ held, threads' number = some held → ∃ chain,
      (arena.retire thread.current).Chain held.root held.current chain ∧
        chain.length = held.depth + 1)
    (members : ∀ member, Occupies (arena.retire thread.current) threads' number member ↔
      Occupies arena threads number member ∧ member ≠ thread.current) :
    Coherent script (arena.retire thread.current) globals threads' := by
  obtain ⟨frame, current, running⟩ := coherent.live_current found
  have inside := coherent.occupies_current found
  -- No other thread is in the frame that retires, so their chains stay.
  have stays {other : ThreadId} (different : other ≠ number) {held : Thread}
      (again : threads other = some held) {chain : List FrameId}
      (whole : arena.Chain held.root held.current chain) :
      (arena.retire thread.current).Chain held.root held.current chain := by
    refine whole.transport fun member frame within live runs => ?_
    have distinct : member ≠ thread.current := by
      intro equal
      subst equal
      exact different (coherent.apart _ _ _ ⟨held, chain, again, whole, within⟩ inside)
    obtain ⟨pins, still⟩ := retire_kept current distinct live runs
    exact ⟨_, still, runs, rfl⟩
  have occupied (owner : ThreadId) (member : FrameId) :
      Occupies (arena.retire thread.current) threads' owner member ↔
        Occupies arena threads owner member ∧ member ≠ thread.current := by
    by_cases same : owner = number
    · exact same ▸ members member
    · constructor
      · intro given
        obtain ⟨held, chain, again, whole, within⟩ := given
        rw [others owner same] at again
        obtain ⟨before, earlier, _⟩ := coherent.chain owner held again
        have alike := whole.unique (stays same again earlier)
        have occupies : Occupies arena threads owner member :=
          ⟨held, before, again, earlier, alike ▸ within⟩
        refine ⟨occupies, ?_⟩
        intro equal
        subst equal
        exact same (coherent.apart _ _ _ occupies inside)
      · intro given
        obtain ⟨⟨held, chain, again, whole, within⟩, -⟩ := given
        exact ⟨held, chain, (others owner same).trans again, stays same again whole, within⟩
  constructor
  case counted => exact coherent.counted.retire current
  case outermost =>
    intro id named
    subst named
    obtain ⟨held, live, outermost⟩ := coherent.outermost id rfl
    have right := coherent.counted.retire current
    cases still : (arena.retire thread.current).frame? id with
    | none =>
        have unpinned := right.further_eq_zero id still
        simp at unpinned
    | some after =>
        obtain ⟨earlier, before, alike, _⟩ := retire_old current still
        rw [live] at before
        cases before
        exact ⟨after, rfl, by rw [alike]; exact outermost⟩
  case activates =>
    intro id held live
    obtain ⟨earlier, before, alike, _⟩ := retire_old current live
    rw [alike]
    exact coherent.activates id earlier before
  case chain =>
    intro other held again
    by_cases same : other = number
    · exact own held (same ▸ again)
    · rw [others other same] at again
      obtain ⟨chain, whole, length⟩ := coherent.chain other held again
      exact ⟨chain, stays same again whole, length⟩
  case owned =>
    intro id held live runs
    obtain ⟨earlier, before, _, old⟩ := retire_old current live
    obtain ⟨ran, different⟩ := old runs
    obtain ⟨owner, occupies⟩ := coherent.owned id earlier before ran
    exact ⟨owner, (occupied owner id).mpr ⟨occupies, different⟩⟩
  case apart =>
    intro id first second held again
    exact coherent.apart id first second ((occupied first id).mp held).1
      ((occupied second id).mp again).1

/-- A thread in its root frame ends. -/
theorem finish (coherent : Coherent script arena globals threads)
    (found : threads number = some thread) (last : thread.current = thread.root) :
    Coherent script (arena.retire thread.current) globals (Function.update threads number none) := by
  obtain ⟨frame, current, running⟩ := coherent.live_current found
  refine coherent.shrink found (fun other => (Function.update_of_ne · _ _)) (by simp) fun member => ?_
  constructor
  · intro given
    obtain ⟨held, chain, again, _⟩ := given
    simp at again
  · intro given
    obtain ⟨⟨held, chain, again, whole, within⟩, different⟩ := given
    rw [found] at again
    cases again
    rw [last] at whole
    rw [whole.unique (.root (last ▸ current) running)] at within
    exact (different (last ▸ List.mem_singleton.mp within)).elim

/-- A thread returns to the frame around its current one. -/
theorem ascend (coherent : Coherent script arena globals threads)
    (found : threads number = some thread) (inner : thread.current ≠ thread.root)
    (current : arena.frame? thread.current = some frame) :
    ∃ parent, frame.parent = some parent ∧ parent ≠ thread.current ∧
      (∃ around, arena.frame? parent = some around ∧ around.retired = false) ∧
      Coherent script (arena.retire thread.current) globals
        (Function.update threads number (some { thread with
          current := parent
          depth := thread.depth - 1 })) := by
  obtain ⟨chain, whole, length⟩ := coherent.chain number thread found
  obtain ⟨parent, outer, rfl, named, rest⟩ := whole.inward inner current
  have absent := whole.head_not_mem_outer coherent.counted
  have stays := whole.retire_head coherent.counted current rest
  have depth : outer.length = thread.depth - 1 + 1 := by
    have positive := rest.length_pos
    simp only [List.length_cons] at length
    omega
  refine ⟨parent, named, fun same => coherent.counted.parent_ne current (same ▸ named),
    rest.running rest.head_mem, ?_⟩
  refine coherent.shrink found (fun other => (Function.update_of_ne · _ _)) ?_ fun member => ?_
  · intro held again
    rw [Function.update_self] at again
    cases again
    exact ⟨outer, stays, depth⟩
  · constructor
    · intro given
      obtain ⟨held, chain, again, other, within⟩ := given
      rw [Function.update_self] at again
      cases again
      rw [other.unique stays] at within
      exact ⟨⟨thread, _, found, whole, List.mem_cons_of_mem _ within⟩,
        fun same => absent (same ▸ within)⟩
    · intro given
      obtain ⟨⟨held, chain, again, other, within⟩, different⟩ := given
      rw [found] at again
      cases again
      rw [other.unique whole] at within
      exact ⟨_, outer, Function.update_self .., stays,
        (List.mem_cons.mp within).resolve_left different⟩

/-- A thread is closed: its frames retire from the current one outward. -/
theorem close {chain : List FrameId} (coherent : Coherent script arena globals threads)
    (found : threads number = some thread)
    (whole : arena.Chain thread.root thread.current chain) :
    Coherent script (chain.foldl retire arena) globals (Function.update threads number none) := by
  induction chain generalizing arena threads thread with
  | nil => exact absurd whole.head_mem List.not_mem_nil
  | cons id outer hypothesis =>
      obtain ⟨frame, current, running⟩ := coherent.live_current found
      by_cases last : thread.current = thread.root
      · have alone := whole
        rw [last] at alone
        cases alone.unique (.root (last ▸ current) running)
        have ended := coherent.finish found last
        rw [last] at ended
        simpa using ended
      · obtain ⟨parent, rest, same, named, outward⟩ := whole.inward last current
        obtain ⟨rfl, rfl⟩ := List.cons.inj same
        obtain ⟨outside, names, _, _, ascended⟩ := coherent.ascend found last current
        rw [named] at names
        cases names
        have closed := hypothesis ascended (Function.update_self ..)
          (whole.retire_head coherent.counted current outward)
        simpa using closed

/-- A frame that comes in and retires at once leaves everything fitting. -/
theorem abandon (coherent : Coherent script arena globals threads) (fits : Fits script arena frame)
    (fresh : threads number = none) :
    Coherent script ((arena.allocate frame).2.retire (arena.allocate frame).1) globals threads := by
  have ended := (coherent.launch fits fresh).finish (Function.update_self ..) rfl
  rwa [Function.update_idem, ← fresh, Function.update_eq_self] at ended

end Coherent

end CoopScript
