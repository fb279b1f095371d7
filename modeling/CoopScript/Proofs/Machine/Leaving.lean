import CoopScript.Proofs.Machine.Counting
import CoopScript.Proofs.Machine.Nesting

/-!
Leaving frames. A thread whose current frame is at its end goes back to the frame around it, or is done
with its root. Nothing else is executed meanwhile, and besides the frames that are left only the one
around them changes.
-/

namespace CoopScript

open FrameArena MachineError

@[simp] theorem Frame.slots_receive (caller inner : Frame) :
    (caller.receive inner).slots = caller.slots := by
  unfold receive
  split <;> rfl

/-- A thread in a frame some steps further out. -/
def Thread.outward (steps : Nat) (id : FrameId) (thread : Thread) : Thread :=
  { thread with current := id, depth := thread.depth - steps }

theorem ThreadSet.update_update (set : ThreadSet) (id : ThreadId) (first second : Thread → Thread) :
    (set.update id first).update id second = set.update id (second ∘ first) := by
  simp only [update, List.map_map]
  congr 1
  refine List.map_congr_left fun entry _ => ?_
  by_cases same : entry.1 = id <;> simp [same]

theorem ThreadSet.remove_update (set : ThreadSet) (id : ThreadId) (change : Thread → Thread) :
    (set.update id change).remove id = set.remove id := by
  simp only [update, remove]
  congr 1
  induction set.threads with
  | nil => rfl
  | cons entry rest hypothesis =>
      rw [List.map_cons]
      by_cases same : entry.1 = id
      · rw [List.filter_cons_of_neg (by simp [same]), List.filter_cons_of_neg (by simp [same]),
          hypothesis]
      · rw [if_neg same, List.filter_cons_of_pos (by simpa using same),
          List.filter_cons_of_pos (by simpa using same), hypothesis]

namespace FrameArena

variable {arena before middle after : FrameArena} {id parent second : FrameId} {frame caller last : Frame}
  {left : List FrameId}

/-- When a frame retires, the frame around it loses a pin, and no other frame changes as long as that
one executes. -/
theorem retire_within (found : arena.frame? id = some frame) (named : frame.parent = some parent)
    (around : arena.frame? parent = some caller) (running : caller.retired = false)
    (different : parent ≠ id) :
    (∀ now, (arena.retire id).frame? id = some now → now = { frame with retired := true }) ∧
      (∃ pins, (arena.retire id).frame? parent = some { caller with pins }) ∧
      ∀ other, other ≠ id → other ≠ parent → (arena.retire id).frame? other = arena.frame? other := by
  simp only [FrameArena.retire, found]
  by_cases unpinned : frame.pins = 0
  · have still : (arena.remove id).frame? parent = some caller := by
      rw [frame?_remove, if_neg different, around]
    have released : (arena.remove id).release (frame.activation + 1) parent =
        (arena.remove id).set parent { caller with pins := caller.pins - 1 } := by
      simp only [release, still, running, Bool.false_and, Bool.false_eq_true, if_false]
    rw [if_pos unpinned]
    simp only [named, released, frame?_set (index_lt_of_frame? still), frame?_remove]
    refine ⟨fun now there => ?_, ⟨caller.pins - 1, by simp⟩, fun other apart away => ?_⟩
    · rw [if_neg different.symm] at there
      simp at there
    · rw [if_neg away, if_neg apart]
  · rw [if_neg unpinned]
    simp only [frame?_set (index_lt_of_frame? found)]
    refine ⟨fun now there => ?_, ⟨caller.pins, ?_⟩, fun other apart _ => if_neg apart⟩
    · exact (by simpa using there : _ = now).symm
    · rw [if_neg different, around]

/-- Some frames have been left for the one around them, which has got what the last of them returns. They
are gone, or kept with their slots for those that still use these. No other frame changes. -/
structure Sheds (before after : FrameArena) (left : List FrameId) (parent : FrameId) (last : Frame) :
    Prop where
  gone : ∀ id ∈ left, ∀ now, after.frame? id = some now →
    now.retired = true ∧ ∃ held, before.frame? id = some held ∧ now.slots = held.slots
  around : ∃ caller pins, before.frame? parent = some caller ∧
    after.frame? parent = some { caller.receive last with pins }
  others : ∀ id, id ∉ left → id ≠ parent → after.frame? id = before.frame? id

/-- One frame after another is left. -/
theorem Sheds.trans (early : before.Sheds middle [id] second frame)
    (late : middle.Sheds after (second :: left) parent last) (fresh : id ∉ second :: left)
    (inner : id ≠ parent) (outer : second ≠ parent) (distinct : second ∉ left) :
    before.Sheds after (id :: second :: left) parent last where
  gone := by
    rw [List.forall_mem_cons]
    refine ⟨fun now there => ?_, fun other inside now there => ?_⟩
    · rw [late.others id fresh inner] at there
      exact early.gone id List.mem_cons_self now there
    · obtain ⟨retired, held, live, slots⟩ := late.gone other inside now there
      refine ⟨retired, ?_⟩
      rcases List.mem_cons.mp inside with rfl | further
      · obtain ⟨caller, pins, found, changed⟩ := early.around
        cases live.symm.trans changed
        exact ⟨caller, found, slots.trans (caller.slots_receive frame)⟩
      · have apart : other ≠ second := fun same => distinct (same ▸ further)
        have away : other ∉ [id] := fun same => fresh (List.mem_singleton.mp same ▸ inside)
        exact ⟨held, (early.others other away apart).symm.trans live, slots⟩
  around := by
    obtain ⟨caller, pins, found, changed⟩ := late.around
    have away : parent ∉ [id] := fun same => inner (List.mem_singleton.mp same).symm
    exact ⟨caller, pins, (early.others parent away outer.symm).symm.trans found, changed⟩
  others := by
    intro other missing apart
    obtain ⟨first, further⟩ : other ≠ id ∧ other ∉ second :: left := by simpa using missing
    have away : other ∉ [id] := fun same => first (List.mem_singleton.mp same)
    have around : other ≠ second := fun same => further (same ▸ List.mem_cons_self)
    exact (late.others other further apart).trans (early.others other away around)

/-- Some frames have been left together with the root of their thread. They are gone, or kept with their
slots, and so are frames that executed no more before. The frames that execute change in nothing but
their pins. -/
structure Fades (before after : FrameArena) (left : List FrameId) : Prop where
  kept : ∀ id frame, before.frame? id = some frame → id ∉ left → frame.retired = false →
    ∃ pins, after.frame? id = some { frame with pins }
  old : ∀ id now, after.frame? id = some now → ∃ held, before.frame? id = some held ∧
    now.slots = held.slots ∧ (id ∈ left → now.retired = true) ∧
    (id ∉ left → now = { held with pins := now.pins })

theorem Fades.retire (found : arena.frame? id = some frame) :
    arena.Fades (arena.retire id) [id] where
  kept other held live away running :=
    retire_kept found (fun same => away (List.mem_singleton.mpr same)) live running
  old other now there := by
    obtain ⟨held, live, same, runs⟩ := retire_old found there
    refine ⟨held, live, by rw [same], fun inside => ?_, fun away => ?_⟩
    · by_contra running
      exact (runs (Bool.not_eq_true _ ▸ running)).2 (List.mem_singleton.mp inside)
    · -- Another frame is retired after this just if it was before.
      have retired : now.retired = held.retired := by
        cases before : held.retired with
        | true =>
            by_contra running
            have early := (runs (Bool.not_eq_true _ ▸ running)).1
            exact Bool.false_ne_true (early.symm.trans before)
        | false =>
            obtain ⟨pins, still⟩ := retire_kept found
              (fun same => away (List.mem_singleton.mpr same)) live before
            cases there.symm.trans still
            exact before
      rw [same, retired]

/-- After inner frames the root is left. -/
theorem Sheds.fades (early : before.Sheds middle left id last) (late : middle.Fades after [id])
    (fresh : id ∉ left) : before.Fades after (left ++ [id]) where
  kept other held live away running := by
    obtain ⟨outside, different⟩ : other ∉ left ∧ other ≠ id := by simpa using away
    have between := (early.others other outside different).trans live
    exact late.kept other held between (by simpa using different) running
  old other now there := by
    obtain ⟨between, live, slots, retires, stays⟩ := late.old other now there
    by_cases root : other = id
    · subst root
      obtain ⟨held, pins, found, changed⟩ := early.around
      cases live.symm.trans changed
      refine ⟨held, found, slots.trans (held.slots_receive last), fun _ => retires (by simp), ?_⟩
      exact fun away => (away (by simp)).elim
    · have same := stays (by simpa using root)
      by_cases inside : other ∈ left
      · obtain ⟨retired, held, found, kept⟩ := early.gone other inside between live
        refine ⟨held, found, slots.trans kept, fun _ => by rw [same, retired], fun away => ?_⟩
        exact (away (List.mem_append_left _ inside)).elim
      · refine ⟨between, (early.others other inside root).symm.trans live, slots, ?_, fun _ => same⟩
        intro given
        exact (List.mem_append.mp given).elim (fun within => (inside within).elim)
          fun last => (root (List.mem_singleton.mp last)).elim

end FrameArena

namespace Machine

variable {allowed : MachineError → Prop} {machine later : Machine} {number : ThreadId} {natives : Natives}
  {id parent : FrameId} {frame caller : Frame} {outer : CallStack}

/-- The instruction that comes next is that of the first frame of the current thread. -/
theorem next?_of_stacked (turn : machine.current = some number) (alive : machine.stopped = false)
    (stacked : machine.Stacked number ((id, frame) :: outer)) :
    machine.next? = frame.code? machine.script := by
  obtain ⟨thread, found, whole⟩ := stacked
  obtain ⟨_, _, same, shown⟩ := whole.cases_head
  obtain ⟨held, live, control⟩ := control?_eq_some_iff.mp shown
  have head : frame = held.control := (congrArg Prod.snd (List.cons.inj same).1).trans control.symm
  rw [next?, alive, turn]
  simp only [Bool.false_eq_true, if_false, Option.bind_eq_bind, Option.bind_some, found, live]
  rw [head]
  rfl

/-- A running machine stays as it is, or it moves. -/
theorem Path.of_running (running : machine.state = .running) (path : Path natives machine later) :
    later = machine ∨ Path natives (machine.move natives) later := by
  rcases path.cases_head with rfl | ⟨_, ⟨_, transition⟩, rest⟩
  · exact .inl rfl
  · exact .inr (transition.eq_move running ▸ rest)

/-- The first frame of a thread, which is at its end. -/
theorem advance_of_spent (natives : Natives) (alive : machine.stopped = false) (steady : machine.Steady allowed)
    (stacked : machine.Stacked number ((id, frame) :: outer))
    (spent : frame.code? machine.script = none) :
    (Action.advance natives number).run machine = (do
      return if ← Action.leave number then some Slice.finished else none).run machine := by
  obtain ⟨thread, found, whole⟩ := stacked
  obtain ⟨_, _, same, shown⟩ := whole.cases_head
  obtain ⟨held, live, control⟩ := control?_eq_some_iff.mp shown
  have head : frame = held.control := (congrArg Prod.snd (List.cons.inj same).1).trans control.symm
  obtain ⟨block, named, _⟩ := steady.coherent.activates _ held live
  have last : block.codes[held.position]? = none := by
    rw [head] at spent
    simpa [Frame.code?, Frame.control, named] using spent
  have fetches := Action.run_fetch live named
  rw [last] at fetches
  simp only [Action.advance, EStateM.run_bind, EStateM.run_get, alive, Bool.false_eq_true, if_false,
    found, fetches]

theorem run_leave_inner {thread : Thread} {held : Frame}
    (found : machine.threads.find? number = some thread) (inner : thread.current ≠ thread.root)
    (live : machine.frames.frame? thread.current = some held) (named : held.parent = some parent)
    (distinct : parent ≠ thread.current) {around : Frame}
    (there : machine.frames.frame? parent = some around) (running : around.retired = false) :
    ∃ frames, (Action.leave number).run machine = .ok false { machine with
        frames
        threads := machine.threads.update number (.outward 1 parent) } ∧
      machine.frames.Sheds frames [thread.current] parent held.control := by
  have looks : (Action.thread number).run machine = .ok thread machine := by
    simp only [Action.thread, EStateM.run_bind, EStateM.run_get, found]
    rfl
  simp only [Action.leave, EStateM.run_bind, looks, if_neg inner, Action.run_frame live]
  split
  · next missing =>
      rw [named] at missing
      cases missing
  next around' named' =>
  cases named.symm.trans named'
  by_cases returns : held.returnsResult = true
  · let emptied := machine.frames.set thread.current { held with result := none }
    have emptied_live : emptied.frame? thread.current = some { held with result := none } :=
      frame?_set_self _ (index_lt_of_frame? live)
    have there' : emptied.frame? parent = some around := by
      rw [frame?_set (index_lt_of_frame? live), if_neg distinct, there]
    obtain ⟨gone, ⟨pins, kept⟩, others⟩ :=
      retire_within emptied_live named there' running distinct
    have reads : (Action.frame parent).run { machine with frames := emptied.retire thread.current } =
      .ok _ _ := Action.run_frame kept
    refine ⟨(emptied.retire thread.current).set parent ({ around with pins }.push held.result),
      ?_, ?_, ?_, ?_⟩
    · simp only [if_pos returns, EStateM.run_bind, Action.run_setFrame, Action.retire,
        EStateM.run_modify, Action.push, emptied] at reads ⊢
      rw [reads]
      rfl
    · intro id inside now there
      cases List.mem_singleton.mp inside
      rw [frame?_set (index_lt_of_frame? kept), if_neg distinct.symm] at there
      rw [gone now there]
      exact ⟨rfl, held, live, rfl⟩
    · refine ⟨around, pins, there, ?_⟩
      rw [frame?_set_self _ (index_lt_of_frame? kept), Frame.receive]
      rw [if_pos (show held.control.returnsResult = true from returns)]
      rfl
    · intro id away apart
      have different : id ≠ thread.current := fun same => away (same ▸ List.mem_cons_self)
      rw [frame?_set (index_lt_of_frame? kept), if_neg apart, others id different apart,
        frame?_set (index_lt_of_frame? live), if_neg different]
  · obtain ⟨gone, ⟨pins, kept⟩, others⟩ := retire_within live named there running distinct
    refine ⟨machine.frames.retire thread.current, ?_, ?_, ?_, ?_⟩
    · simp only [if_neg returns]
      rfl
    · intro id inside now there
      cases List.mem_singleton.mp inside
      rw [gone now there]
      exact ⟨rfl, held, live, rfl⟩
    · refine ⟨around, pins, there, ?_⟩
      rw [kept, Frame.receive, if_neg (show ¬ held.control.returnsResult = true from returns)]
    · exact fun id away apart => others id (fun same => away (same ▸ List.mem_cons_self)) apart

/-- A thread that is at the end of its first frame goes back to the one around it. -/
theorem Steady.move_leaves (natives : Natives) (steady : machine.Steady allowed)
    (turn : machine.current = some number) (alive : machine.stopped = false)
    (stacked : machine.Stacked number ((id, frame) :: (parent, caller) :: outer))
    (spent : frame.code? machine.script = none) :
    ∃ frames, machine.move natives = { machine with
        frames
        threads := machine.threads.update number (.outward 1 parent) } ∧
      machine.frames.Sheds frames [id] parent frame ∧
      (machine.move natives).Stacked number ((parent, caller.receive frame) :: outer) := by
  have distinct := stacked.nodup steady
  have advances := advance_of_spent natives alive steady stacked spent
  obtain ⟨thread, found, whole⟩ := stacked
  obtain ⟨_, _, same, shown⟩ := whole.cases_head
  obtain rfl : id = thread.current := congrArg Prod.fst (List.cons.inj same).1
  obtain ⟨held, live, rfl, _⟩ := Action.head_frame (whole.shown List.mem_cons_self)
  obtain ⟨inner, _, named, rest⟩ := whole.around (by simp)
  obtain ⟨_, _, same, shown⟩ := rest.cases_head
  obtain ⟨rfl, rfl⟩ := Prod.mk.inj (List.cons.inj same).1
  obtain ⟨around, there, rfl⟩ := control?_eq_some_iff.mp shown
  have running : around.retired = false := rest.running List.mem_cons_self
  obtain ⟨apart, fresh⟩ : parent ≠ thread.current ∧ ∀ entry ∈ outer, entry.1 ≠ thread.current ∧
      entry.1 ≠ parent := by
    have away := absent_of_nodup distinct
    exact ⟨away _ List.mem_cons_self, fun entry inside => ⟨away _ (List.mem_cons_of_mem _ inside),
      absent_of_nodup (List.nodup_cons.mp distinct).2 entry inside⟩⟩
  obtain ⟨frames, leaves, sheds⟩ := run_leave_inner found inner live named apart there running
  have moved : machine.move natives = { machine with
      frames
      threads := machine.threads.update number (.outward 1 parent) } := by
    simp only [move, turn, advances, EStateM.run_bind, leaves]
    rfl
  refine ⟨frames, moved, sheds, ?_⟩
  rw [moved]
  refine ⟨thread.outward 1 parent, ?_, rest.goOn ?_ ?_⟩
  · rw [ThreadSet.find?_update found, Function.update_self]
  · rw [List.map_cons, List.map_cons]
    exact congrArg (· :: outer.map tie) (by unfold Frame.receive tie; split <;> rfl)
  · rw [List.forall_mem_cons]
    constructor
    · obtain ⟨before, pins, found, changed⟩ := sheds.around
      cases there.symm.trans found
      refine control?_eq_some_iff.mpr ⟨_, changed, ?_⟩
      unfold Frame.receive
      split <;> rfl
    · intro entry inside
      obtain ⟨first, second⟩ := fresh entry inside
      have kept := sheds.others entry.1 (by simpa using first) second
      exact (congrArg (Option.map Frame.control) kept).trans
        (rest.shown (List.mem_cons_of_mem _ inside))

/-- A thread that is at the end of its root is done. -/
theorem Steady.move_finishes (natives : Natives) (steady : machine.Steady allowed)
    (turn : machine.current = some number) (alive : machine.stopped = false) (stacked : machine.Stacked number [(id, frame)])
    (spent : frame.code? machine.script = none) :
    machine.move natives = { machine with
        frames := machine.frames.retire id
        threads := machine.threads.remove number
        current := none }.log (.threadFinished number) := by
  have advances := advance_of_spent natives alive steady stacked spent
  obtain ⟨thread, found, whole⟩ := stacked
  obtain ⟨_, _, same, shown⟩ := whole.cases_head
  obtain rfl : id = thread.current := congrArg Prod.fst (List.cons.inj same).1
  have last : thread.current = thread.root := by
    by_contra inner
    obtain ⟨_, _, rest⟩ := whole.outward inner
    exact absurd rest.chain.length_pos (by simp)
  have looks : (Action.thread number).run machine = .ok thread machine := by
    simp only [Action.thread, EStateM.run_bind, EStateM.run_get, found]
    rfl
  simp only [move, turn, advances, Action.leave, EStateM.run_bind, looks, if_pos last]
  rfl

/-- A machine executes nothing in so many moves, and nothing else happens to it meanwhile. -/
structure Drifts (natives : Natives) (machine : Machine) (count : Nat) : Prop where
  path : Path natives machine ((move natives)^[count] machine)
  silent : ∀ later, Path natives machine later →
    later.next? = none ∨ Path natives ((move natives)^[count] machine) later

theorem Drifts.single (running : machine.state = .running) (rests : machine.next? = none) :
    machine.Drifts natives 1 where
  path := .single ⟨_, .move running⟩
  silent later path := by
    rcases path.of_running running with rfl | rest
    · exact .inl rests
    · exact .inr rest

theorem Drifts.trans {first second : Nat} (early : machine.Drifts natives first)
    (late : ((move natives)^[first] machine).Drifts natives second) :
    machine.Drifts natives (second + first) where
  path := by
    rw [Function.iterate_add_apply]
    exact early.path.trans late.path
  silent later path := by
    rw [Function.iterate_add_apply]
    rcases early.silent later path with none | rest
    · exact .inl none
    · exact late.silent later rest

section Runs

variable (own : ∀ error : MachineError, ¬ error.IsInternal → allowed error)
  (honest : natives.Honest allowed) {inner : CallStack} {last around : FrameId × Frame}

include own honest

/-- A thread leaves frames that are at their ends one after another. -/
theorem Steady.moves_leave (steady : machine.Steady allowed) (turn : machine.current = some number)
    (alive : machine.stopped = false)
    (stacked : machine.Stacked number (inner ++ last :: around :: outer))
    (spent : ∀ entry ∈ inner ++ [last], entry.2.code? machine.script = none)
    (mute : ∀ entry ∈ inner, entry.2.returnsResult = false) :
    ∃ frames, (move natives)^[inner.length + 1] machine = { machine with
        frames
        threads := machine.threads.update number (.outward (inner.length + 1) around.1) } ∧
      machine.frames.Sheds frames ((inner ++ [last]).map (·.1)) around.1 last.2 ∧
      ((move natives)^[inner.length + 1] machine).Stacked number
        ((around.1, around.2.receive last.2) :: outer) ∧
      machine.Drifts natives (inner.length + 1) := by
  have running := steady.current_running turn
  induction inner generalizing machine with
  | nil =>
      have ended := spent last List.mem_cons_self
      obtain ⟨frames, moved, sheds, still⟩ := steady.move_leaves natives turn alive stacked ended
      exact ⟨frames, moved, sheds, still,
        .single running ((next?_of_stacked turn alive stacked).trans ended)⟩
  | cons first rest hypothesis =>
      obtain ⟨ended, further⟩ := List.forall_mem_cons.mp spent
      obtain ⟨silent, others⟩ := List.forall_mem_cons.mp mute
      obtain ⟨second, between, inside⟩ : ∃ second between, rest ++ [last] = second :: between := by
        cases rest <;> exact ⟨_, _, rfl⟩
      have same : rest ++ last :: around :: outer = second :: (between ++ around :: outer) := by
        rw [List.append_cons, inside, List.cons_append]
      rw [List.cons_append, same] at stacked
      have distinct := stacked.nodup steady
      obtain ⟨frames, moved, early, still⟩ := steady.move_leaves natives turn alive stacked ended
      rw [Frame.receive_of_mute _ silent] at still
      have steady' := steady.changes (move_changes own honest steady running)
      have once : machine.Drifts natives 1 :=
        .single running ((next?_of_stacked turn alive stacked).trans ended)
      have more (drifts : (machine.move natives).Drifts natives (rest.length + 1)) :
          machine.Drifts natives (rest.length + 1 + 1) := once.trans drifts
      rw [List.length_cons, Function.iterate_succ_apply]
      generalize machine.move natives = middle at moved still steady' more
      subst moved
      obtain ⟨frames', moved, late, still, drifts⟩ := hypothesis steady' turn alive (same ▸ still)
        further others running
      refine ⟨frames', ?_, ?_, still, more drifts⟩
      · rw [moved, ThreadSet.update_update]
        have steps : Thread.outward (rest.length + 1) around.1 ∘ Thread.outward 1 second.1 =
            Thread.outward (rest.length + 1 + 1) around.1 := by
          funext thread
          simp only [Function.comp_apply, Thread.outward, Thread.mk.injEq, true_and]
          omega
        rw [steps]
      · simp only [List.map_cons, List.map_append, List.nodup_cons, List.mem_cons, List.mem_append,
          not_or] at distinct
        rw [List.cons_append, inside]
        rw [inside] at late
        exact early.trans late (by simp [distinct]) (Ne.intro fun same => distinct.1.2.2.1 same)
          (Ne.intro fun same => distinct.2.1.2.1 same) distinct.2.1.1

omit own honest in
/-- A thread that is at the end of its root is done. -/
theorem Steady.ends (steady : machine.Steady allowed) (turn : machine.current = some number)
    (alive : machine.stopped = false) (stacked : machine.Stacked number [last])
    (spent : last.2.code? machine.script = none) :
    ∃ frames, machine.move natives = { machine with
        frames
        threads := machine.threads.remove number
        current := none }.log (.threadFinished number) ∧
      machine.frames.Fades frames [last.1] ∧ machine.Drifts natives 1 := by
  obtain ⟨_, whole⟩ := stacked.whole
  obtain ⟨held, live, _⟩ := control?_eq_some_iff.mp (whole.shown List.mem_cons_self)
  exact ⟨_, steady.move_finishes natives turn alive stacked spent, .retire live,
    .single (steady.current_running turn) ((next?_of_stacked turn alive stacked).trans spent)⟩

/-- A thread leaves frames that are at their ends one after another, and with its root it is done. -/
theorem Steady.moves_end (steady : machine.Steady allowed) (turn : machine.current = some number)
    (alive : machine.stopped = false) (stacked : machine.Stacked number (inner ++ [last]))
    (spent : ∀ entry ∈ inner ++ [last], entry.2.code? machine.script = none)
    (mute : ∀ entry ∈ inner, entry.2.returnsResult = false) :
    ∃ frames, (move natives)^[inner.length + 1] machine = { machine with
        frames
        threads := machine.threads.remove number
        current := none }.log (.threadFinished number) ∧
      machine.frames.Fades frames ((inner ++ [last]).map (·.1)) ∧
      machine.Drifts natives (inner.length + 1) := by
  obtain rfl | ⟨init, final, rfl⟩ := inner.eq_nil_or_concat'
  · exact steady.ends turn alive stacked (spent last List.mem_cons_self)
  · have distinct := stacked.nodup steady
    rw [List.append_assoc, List.singleton_append] at stacked
    obtain ⟨frames, moved, sheds, still, early⟩ := steady.moves_leave own honest turn alive stacked
      (fun entry inside => spent entry (List.mem_append_left _ inside))
      (fun entry inside => mute entry (List.mem_append_left _ inside))
    rw [Frame.receive_of_mute _ (mute final (by simp))] at still
    have steady' := steady.changes (early.path.changes own honest steady)
    have more (late : ((move natives)^[init.length + 1] machine).Drifts natives 1) :
        machine.Drifts natives (init.length + 1 + 1) := by
      rw [Nat.add_comm (init.length + 1)]
      exact early.trans late
    rw [List.length_append, List.length_singleton, Function.iterate_succ_apply']
    generalize (move natives)^[init.length + 1] machine = middle at moved still steady' more
    subst moved
    obtain ⟨frames', moved, fades, late⟩ := steady'.ends turn alive still (spent last (by simp))
    refine ⟨frames', ?_, ?_, more late⟩
    · rw [moved]
      simp only [ThreadSet.remove_update]
    · rw [List.map_append, List.map_cons, List.map_nil] at distinct ⊢
      refine sheds.fades fades fun inside => ?_
      exact (List.nodup_append.mp distinct).2.2 _ inside _ List.mem_cons_self rfl

end Runs

end Machine

end CoopScript
