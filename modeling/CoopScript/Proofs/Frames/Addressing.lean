import CoopScript.Proofs.Frames.Skeleton

/-!
The frames that hold variables. The frame at a lexical level is found among the frames around a
frame, from the inside out. For as long as a frame is alive these stay the same activations, whatever
comes into the arena or goes from it.
-/

namespace CoopScript

/-- What never changes of a frame: all but its contents, its pins and whether it is done. -/
def Frame.permanent (frame : Frame) : Frame := { frame.skeleton with pins := 0, retired := false }

namespace FrameArena

variable {arena after : FrameArena} {further later : FrameId → Nat} {id : FrameId} {frame : Frame}
  {frames : List (FrameId × Frame)}

/-! Looking up. -/

theorem get_of_frame? (found : arena.frame? id = some frame) : arena.get id = .ok frame :=
  get_eq_ok_iff.mpr found

theorem resolveWithin_succ (found : arena.frame? id = some frame) (level fuel : Nat) :
    arena.resolveWithin level (fuel + 1) id =
      if frame.level = level then .ok id
      else
        match frame.parent with
        | some parent =>
          if level < frame.level then arena.resolveWithin level fuel parent
          else .error (.unknownLevel level)
        | none => .error (.unknownLevel level) := by
  simp only [resolveWithin, get_of_frame? found]
  rfl

/-- A frame and those around it, out to one that has no parent. -/
inductive Around (arena : FrameArena) : FrameId → List (FrameId × Frame) → Prop
  | outermost {id : FrameId} {frame : Frame} : arena.frame? id = some frame → frame.parent = none →
      Around arena id [(id, frame)]
  | inner {id parent : FrameId} {frame : Frame} {outer : List (FrameId × Frame)} :
      arena.frame? id = some frame → frame.parent = some parent → Around arena parent outer →
      Around arena id ((id, frame) :: outer)

/-- The first of the frames that is at the level or below it, if it is at the level. -/
def holderAmong (level : Nat) (frames : List (FrameId × Frame)) : Except MachineError FrameId :=
  match frames.find? fun entry => entry.2.level ≤ level with
  | some (id, frame) => if frame.level = level then .ok id else .error (.unknownLevel level)
  | none => .error (.unknownLevel level)

theorem holderAmong_cons (level : Nat) (id : FrameId) (frame : Frame)
    (outer : List (FrameId × Frame)) :
    holderAmong level ((id, frame) :: outer) =
      if frame.level = level then .ok id
      else if level < frame.level then holderAmong level outer
      else .error (.unknownLevel level) := by
  simp only [holderAmong, List.find?_cons]
  rcases Nat.lt_trichotomy frame.level level with below | same | above
  · simp [below.le, below.ne, below.not_gt]
  · simp [same]
  · simp only [above.not_ge, above, above.ne', if_false, if_true, decide_false]

/-- Parents are older, so that the way outward ends. -/
theorem Counted.around (counted : arena.Counted further) (found : arena.frame? id = some frame) :
    ∃ frames, arena.Around id frames := by
  obtain ⟨serial, same⟩ : ∃ serial, serial = frame.activation := ⟨_, rfl⟩
  induction serial using Nat.strong_induction_on generalizing id frame with
  | _ serial hypothesis =>
      cases named : frame.parent with
      | none => exact ⟨_, .outermost found named⟩
      | some parent =>
          obtain ⟨around, outside, older⟩ := counted.parent_older id frame parent found named
          obtain ⟨outer, rest⟩ := hypothesis _ (same ▸ older) outside rfl
          exact ⟨_, .inner found named rest⟩

namespace Around

theorem live_of_mem (around : arena.Around id frames) {holder : FrameId} {held : Frame}
    (inside : (holder, held) ∈ frames) : arena.frame? holder = some held := by
  induction around with
  | outermost found _ =>
      cases List.mem_singleton.mp inside
      exact found
  | inner found _ _ hypothesis =>
      rcases List.mem_cons.mp inside with same | further
      · cases same
        exact found
      · exact hypothesis further

theorem length_le (counted : arena.Counted further) (around : arena.Around id frames)
    (found : arena.frame? id = some frame) : frames.length ≤ frame.activation + 1 := by
  induction around generalizing frame with
  | outermost _ _ => simp
  | inner again named _ hypothesis =>
      cases found.symm.trans again
      obtain ⟨outside, there, older⟩ := counted.parent_older _ _ _ found named
      have short := hypothesis there
      rw [List.length_cons]
      omega

/-- The search ends with the frames, and finds what is first among them. -/
theorem resolveWithin (around : arena.Around id frames) (level : Nat) {fuel : Nat}
    (enough : frames.length ≤ fuel) :
    arena.resolveWithin level fuel id = holderAmong level frames := by
  induction around generalizing fuel with
  | outermost found named =>
      obtain ⟨fuel, rfl⟩ := Nat.exists_eq_add_of_le' enough
      rw [List.length_singleton, resolveWithin_succ found, named, holderAmong_cons]
      simp [holderAmong]
  | inner found named _ hypothesis =>
      obtain ⟨fuel, rfl⟩ := Nat.exists_eq_add_of_le' (Nat.one_le_of_lt enough)
      rw [resolveWithin_succ found, named, holderAmong_cons,
        ← hypothesis (Nat.le_of_succ_le_succ enough)]

theorem resolve (counted : arena.Counted further) (around : arena.Around id frames)
    (found : arena.frame? id = some frame) (level : Nat) :
    arena.resolve id level = holderAmong level frames := by
  simp only [FrameArena.resolve, get_of_frame? found]
  exact around.resolveWithin level (around.length_le counted found)

/-- A frame that is found is one of those around. -/
theorem mem_of_holderAmong {level : Nat} {holder : FrameId}
    (holds : holderAmong level frames = .ok holder) :
    ∃ held, (holder, held) ∈ frames ∧ held.level = level := by
  induction frames with
  | nil => cases holds
  | cons entry outer hypothesis =>
      rw [holderAmong_cons] at holds
      split at holds
      · next same =>
          cases holds
          exact ⟨entry.2, List.mem_cons_self, same⟩
      · split at holds
        · obtain ⟨held, inside, same⟩ := hypothesis holds
          exact ⟨held, List.mem_cons_of_mem _ inside, same⟩
        · cases holds

end Around

/-! Later arenas. -/

/-- Frames that are as old as the first arena are in both, and only their contents, their pins and
whether they are done may differ. None that is done executes again. -/
structure Continues (before after : FrameArena) : Prop where
  activations : before.activations ≤ after.activations
  old : ∀ id now, after.frame? id = some now → now.activation < before.activations →
    ∃ earlier, before.frame? id = some earlier ∧ now.permanent = earlier.permanent ∧
      (now.retired = false → earlier.retired = false)

namespace Continues

theorem refl (arena : FrameArena) : arena.Continues arena where
  activations := le_rfl
  old _ now found _ := ⟨now, found, rfl, id⟩

theorem trans {first second third : FrameArena} (early : first.Continues second)
    (late : second.Continues third) : first.Continues third where
  activations := early.activations.trans late.activations
  old id now found aged := by
    obtain ⟨between, middle, same, going⟩ := late.old id now found (aged.trans_le early.activations)
    have serials : now.activation = between.activation := congrArg (·.activation) same
    obtain ⟨earlier, live, alike, runs⟩ := early.old id between middle (serials ▸ aged)
    exact ⟨earlier, live, same.trans alike, runs ∘ going⟩

theorem of_skeleton (same : after.skeleton = arena.skeleton) : arena.Continues after where
  activations := (congrArg (·.activations) same).ge
  old id now found _ := by
    obtain ⟨earlier, live, alike⟩ := frame?_of_skeleton same.symm found
    have retired : earlier.retired = now.retired := congrArg (·.retired) alike
    exact ⟨earlier, live, congrArg (fun frame => { frame with pins := 0, retired := false }) alike.symm,
      retired.trans⟩

theorem pin (arena : FrameArena) (id : FrameId) : arena.Continues (arena.pin id) where
  activations := (activations_pin arena id).ge
  old other now found _ := by
    obtain ⟨before, live, same⟩ := frame?_of_frame?_pin found
    exact ⟨before, live, by rw [same]; rfl, by rw [same]; exact fun running => running⟩

theorem activations_allocate (arena : FrameArena) (frame : Frame) :
    (arena.allocate frame).2.activations = arena.activations + 1 := by
  unfold allocate
  split
  · rw [activations_store, activations_pin]
  · exact activations_store arena frame

theorem allocate (counted : arena.Counted further)
    (outside : ∀ parent, frame.parent = some parent → ∃ around, arena.frame? parent = some around) :
    arena.Continues (arena.allocate frame).2 where
  activations := by
    rw [activations_allocate]
    exact Nat.le_succ _
  old id now found aged := by
    have grown := counted.grown outside
    by_cases same : id = (arena.allocate frame).1
    · rw [same, grown.new] at found
      cases found
      exact (Nat.lt_irrefl _ aged).elim
    · obtain ⟨earlier, live, alike⟩ := grown.old id now found same
      exact ⟨earlier, live, by rw [alike]; rfl, by rw [alike]; exact fun running => running⟩

theorem activations_release (arena : FrameArena) (fuel : Nat) (id : FrameId) :
    (arena.release fuel id).activations = arena.activations := by
  induction fuel generalizing arena id with
  | zero => rfl
  | succ fuel hypothesis =>
      simp only [release]
      split
      · rfl
      · split
        · split
          · exact hypothesis _ _
          · rfl
        · rfl

theorem activations_retire (arena : FrameArena) (id : FrameId) :
    (arena.retire id).activations = arena.activations := by
  unfold FrameArena.retire
  split
  · rfl
  · split
    · split
      · exact activations_release ..
      · rfl
    · rfl

theorem retire (arena : FrameArena) (id : FrameId) : arena.Continues (arena.retire id) where
  activations := (activations_retire arena id).ge
  old other now live _ := by
    cases found : arena.frame? id with
    | none =>
        simp only [FrameArena.retire, found] at live
        exact ⟨now, live, rfl, fun running => running⟩
    | some frame =>
        obtain ⟨earlier, before, same, runs⟩ := retire_old found live
        exact ⟨earlier, before, by rw [same]; rfl, fun running => (runs running).1⟩

theorem retireAll (chain : List FrameId) (arena : FrameArena) :
    arena.Continues (chain.foldl FrameArena.retire arena) := by
  induction chain generalizing arena with
  | nil => exact .refl arena
  | cons id rest hypothesis => exact (retire arena id).trans (hypothesis _)

/-- A frame of both arenas that is one activation is the same but for its contents. -/
theorem permanent (continues : arena.Continues after) (counted : arena.Counted further)
    (found : arena.frame? id = some frame) {now : Frame} (live : after.frame? id = some now)
    (same : now.activation = frame.activation) : now.permanent = frame.permanent := by
  have aged := same ▸ counted.activation_lt id frame found
  obtain ⟨earlier, before, alike, _⟩ := continues.old id now live aged
  cases found.symm.trans before
  exact alike

/-- For as long as a frame is alive, the frames around it stay. -/
theorem around (continues : arena.Continues after) (counted : arena.Counted further)
    (right : after.Counted later) (around : arena.Around id frames)
    (found : arena.frame? id = some frame) {now : Frame} (live : after.frame? id = some now)
    (same : now.activation = frame.activation) : ∃ others, after.Around id others ∧
      (others.map fun entry => (entry.1, entry.2.permanent)) =
        frames.map fun entry => (entry.1, entry.2.permanent) := by
  induction around generalizing frame now with
  | outermost place alone =>
      cases found.symm.trans place
      have lasts := continues.permanent counted found live same
      have outermost : now.parent = none := (congrArg (·.parent) lasts).trans alone
      exact ⟨_, .outermost live outermost, by simp [lasts]⟩
  | @inner id parent frame outer place named _ hypothesis =>
      cases found.symm.trans place
      have lasts := continues.permanent counted found live same
      have names : now.parent = some parent := (congrArg (·.parent) lasts).trans named
      obtain ⟨outside, there, _⟩ := counted.parent_older id frame parent found named
      obtain ⟨still, lives, older⟩ := right.parent_older id now parent live names
      -- the parent that the frame has now is older than it, so it was there before
      have aged : still.activation < arena.activations := by
        have bound := counted.activation_lt id frame found
        omega
      obtain ⟨earlier, before, alike, _⟩ := continues.old parent still lives aged
      cases there.symm.trans before
      obtain ⟨others, rest, kept⟩ := hypothesis there lives (congrArg (·.activation) alike)
      exact ⟨_, .inner live names rest, by simp [lasts, kept]⟩

end Continues

/-- Which frame holds a variable depends on nothing of the frames that changes. -/
theorem holderAmong_congr {others : List (FrameId × Frame)}
    (same : (others.map fun entry => (entry.1, entry.2.permanent)) =
      frames.map fun entry => (entry.1, entry.2.permanent)) (level : Nat) :
    holderAmong level others = holderAmong level frames := by
  have blind (frames : List (FrameId × Frame)) :
      holderAmong level (frames.map fun entry => (entry.1, entry.2.permanent)) =
        holderAmong level frames := by
    induction frames with
    | nil => rfl
    | cons entry outer hypothesis =>
        rw [List.map_cons, holderAmong_cons, holderAmong_cons, hypothesis]
        rfl
  rw [← blind others, same, blind]

end FrameArena

end CoopScript
