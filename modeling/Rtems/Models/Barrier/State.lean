import Rtems.Core.Run
import Rtems.Models.ThreadQueue.Flush

/-!
# Core barriers

A barrier keeps a count of its waiting threads beside the queue they wait on. A thread
leaves the queue when the barrier is released, and also when its wait times out or the
thread is deleted: these two go through the generic thread queue code, which does not
know the count.
-/

namespace Rtems.Barrier

/-- How a barrier is released. -/
inductive Discipline where
  | automaticRelease
  | manualRelease
  deriving DecidableEq, Repr

/-- `CORE_barrier_Attributes`. -/
structure Attributes where
  /-- Whether the barrier releases itself. -/
  discipline : Discipline
  /-- The number of threads that makes an automatic barrier release. -/
  maximumCount : Nat
  deriving DecidableEq, Repr

/-- `CORE_barrier_Control`. -/
structure Control (T : Type) where
  /-- The attributes given at the barrier's creation. -/
  attributes : Attributes
  /-- The threads that wait, in the order in which they came. -/
  waitQueue : List T
  /-- The barrier's own count of waiting threads. -/
  numberOfWaitingThreads : Nat
  deriving DecidableEq, Repr

/-- The status a wait returns. -/
inductive Status where
  | successful
  | automaticallyReleased
  | timeout
  deriving DecidableEq, Repr

variable {T : Type}

/-- `_CORE_barrier_Initialize`. -/
def create (attributes : Attributes) : Control T :=
  ⟨attributes, [], 0⟩

/-- `_CORE_barrier_Is_automatic`. -/
def Control.isAutomatic (b : Control T) : Bool :=
  b.attributes.discipline = .automaticRelease

/-- `_CORE_barrier_Do_flush` with the default filter, which is `_CORE_barrier_Surrender`:
the barrier and the waits that end, with the status each thread gets. -/
def surrender (b : Control T) : Control T × List (T × Status) :=
  let result := WaitQueue.flushCritical WaitQueue.flushDefaultFilter
    { b with numberOfWaitingThreads := 0 } b.waitQueue
  ({ result.object with waitQueue := result.queue },
    result.extracted.map fun thread => (thread, .successful))

/-- `_CORE_barrier_Seize`: the barrier and the waits that end, the caller's own among them
unless the caller was put on the queue. -/
def seize (b : Control T) (executing : T) : Control T × List (T × Status) :=
  let numberOfWaitingThreads := b.numberOfWaitingThreads + 1
  if b.isAutomatic ∧ numberOfWaitingThreads = b.attributes.maximumCount then
    let (b', released) := surrender b
    (b', released ++ [(executing, .automaticallyReleased)])
  else
    ({ b with
        numberOfWaitingThreads
        waitQueue := b.waitQueue ++ [executing] }, [])

/-- A thread is taken off the queue from outside of the barrier, by `_Thread_Continue`
for a timeout and by `_Thread_queue_Extract` for a deletion. -/
def extract [DecidableEq T] (b : Control T) (thread : T) : Control T :=
  { b with waitQueue := b.waitQueue.erase thread }

/-- `_Thread_Timeout` for a thread that waits at the barrier; the wait of any other
thread is over already. -/
def timeout [DecidableEq T] (b : Control T) (thread : T) : Control T × List (T × Status) :=
  if thread ∈ b.waitQueue then (extract b thread, [(thread, .timeout)]) else (b, [])

/-- The operations on a barrier. -/
inductive Op (T : Type) where
  /-- A thread waits at the barrier, with or without a timeout. -/
  | wait (thread : T)
  /-- The timeout of a thread's wait expires. -/
  | timeout (thread : T)
  /-- A thread is deleted. -/
  | delete (thread : T)
  /-- The barrier is released by hand. -/
  | release
  deriving DecidableEq, Repr

/-- Only a thread that does not wait can call the barrier. -/
def Legal (b : Control T) : Op T → Prop
  | .wait thread => thread ∉ b.waitQueue
  | .timeout _ => True
  | .delete _ => True
  | .release => True

/-- One operation. -/
def step [DecidableEq T] (b : Control T) : Op T → Option (Control T)
  | .wait thread => some (seize b thread).1
  | .timeout thread => some (timeout b thread).1
  | .delete thread => some (extract b thread)
  | .release => some (surrender b).1

instance [DecidableEq T] (b : Control T) (op : Op T) : Decidable (Legal b op) :=
  match op with
  | .wait thread => inferInstanceAs (Decidable (thread ∉ b.waitQueue))
  | .timeout _ => inferInstanceAs (Decidable True)
  | .delete _ => inferInstanceAs (Decidable True)
  | .release => inferInstanceAs (Decidable True)

@[simp] theorem surrender_eq (b : Control T) :
    surrender b = (⟨b.attributes, [], 0⟩, b.waitQueue.map fun thread => (thread, .successful)) := by
  simp [surrender]

end Rtems.Barrier
