import CoopScript.Machine.Frame

/-!
Threads, the queue of those that are ready, and the ticks that others wait for.
-/

namespace CoopScript

structure ThreadId where
  number : Nat
  deriving DecidableEq, Inhabited

instance : ToString ThreadId := ⟨fun id => "t" ++ toString id.number⟩

def MachineError.threadGone (id : ThreadId) : MachineError :=
  .runtime ("thread " ++ toString id ++ " is gone")

/-- A thread ends with its root frame. The depth counts the frames entered above the root. -/
structure Thread where
  root : FrameId
  current : FrameId
  depth : Nat := 0
  deriving DecidableEq, Inhabited

/-- Threads and waiting threads are in ascending order of their numbers. The queue may still name
threads that are gone. -/
structure ThreadSet where
  threads : List (ThreadId × Thread) := []
  ready : List ThreadId := []
  waiting : List (ThreadId × Nat) := []
  next : ThreadId := ⟨0⟩
  deriving Inhabited

namespace ThreadSet

def find? (set : ThreadSet) (id : ThreadId) : Option Thread := set.threads.lookup id

def contains (set : ThreadSet) (id : ThreadId) : Bool := (set.find? id).isSome

def size (set : ThreadSet) : Nat := set.threads.length

def isEmpty (set : ThreadSet) : Bool := set.threads.isEmpty

def ids (set : ThreadSet) : List ThreadId := set.threads.map (·.1)

/-- A new thread stands at the end of the queue. -/
def spawn (set : ThreadSet) (root : FrameId) : ThreadId × ThreadSet :=
  (set.next,
    { set with
      threads := set.threads ++ [(set.next, { root, current := root })]
      ready := set.ready ++ [set.next]
      next := ⟨set.next.number + 1⟩ })

def update (set : ThreadSet) (id : ThreadId) (change : Thread → Thread) : ThreadSet :=
  { set with
    threads := set.threads.map fun entry =>
      if entry.1 = id then (entry.1, change entry.2) else entry }

def remove (set : ThreadSet) (id : ThreadId) : ThreadSet :=
  { set with
    threads := set.threads.filter fun entry => entry.1 ≠ id
    waiting := set.waiting.filter fun entry => entry.1 ≠ id }

/-- The first thread of the queue; entries of threads that are gone are dropped on the way. -/
def takeReady (set : ThreadSet) : Option ThreadId × ThreadSet :=
  match set.ready.dropWhile fun id => !set.contains id with
  | [] => (none, { set with ready := [] })
  | id :: rest => (some id, { set with ready := rest })

def requeue (set : ThreadSet) (id : ThreadId) : ThreadSet :=
  { set with ready := set.ready ++ [id] }

def insertWaiting (id : ThreadId) (ticks : Nat) :
    List (ThreadId × Nat) → List (ThreadId × Nat)
  | [] => [(id, ticks)]
  | (other, otherTicks) :: rest =>
    if id.number < other.number then (id, ticks) :: (other, otherTicks) :: rest
    else if id = other then (id, ticks) :: rest
    else (other, otherTicks) :: insertWaiting id ticks rest

def park (set : ThreadSet) (id : ThreadId) (ticks : Nat) : ThreadSet :=
  { set with waiting := insertWaiting id ticks set.waiting }

def waitingTicks? (set : ThreadSet) (id : ThreadId) : Option Nat := set.waiting.lookup id

/-- Counts one tick off every waiting thread and queues those that are due. -/
def wake (set : ThreadSet) : Nat × ThreadSet :=
  let counted := set.waiting.map fun entry => (entry.1, entry.2 - 1)
  let due := (counted.filter fun entry => entry.2 = 0).map (·.1)
  (due.length,
    { set with
      ready := set.ready ++ due
      waiting := counted.filter fun entry => entry.2 ≠ 0 })

end ThreadSet

end CoopScript
