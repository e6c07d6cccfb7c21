import Rtems.Core.Run
import Rtems.Models.ThreadQueue.Flush

/-!
# Reader/writer locks

The lock counts its readers and keeps one first-in first-out queue for threads that wait
for reading and threads that wait for writing. A release that leaves no holder flushes
the queue through a filter, which grants the lock to the threads it lets go.
-/

namespace Rtems.RwLock

/-- What a thread wants to do with the lock; the source keeps it in `Wait.option`. -/
inductive Access where
  | read
  | write
  deriving DecidableEq, Repr

/-- A thread with the access it waits for or was given. -/
structure Request (T : Type) where
  /-- The thread. -/
  thread : T
  /-- The access it asked for. -/
  option : Access
  deriving DecidableEq, Repr

/-- `CORE_RWLock_States`. -/
inductive CurrentState where
  | unlocked
  | lockedForReading
  | lockedForWriting
  deriving DecidableEq, Repr

/-- `CORE_RWLock_Control` without its queue. -/
structure Control where
  /-- Who holds the lock. -/
  currentState : CurrentState
  /-- The number of readers that hold the lock, an `unsigned int`. -/
  numberOfReaders : UInt32
  deriving DecidableEq, Repr

/-- The status of an acquisition that returns. -/
inductive Status where
  | successful
  | unavailable
  | timeout
  deriving DecidableEq, Repr

/-- A lock with its queue, and the threads that were told that they hold the lock: a
thread is listed once for each acquisition that it has not released. -/
structure State (T : Type) where
  /-- The lock. -/
  lock : Control
  /-- The waiting threads, in queue order. -/
  queue : List (Request T)
  /-- The acquisitions that returned `successful` and are not released. -/
  holders : List (Request T)
  deriving DecidableEq, Repr

variable {T : Type}

/-- `_CORE_RWLock_Initialize`. -/
def start : State T :=
  ⟨⟨.unlocked, 0⟩, [], []⟩

/-- What an acquisition decides while it holds the queue lock: the new lock, or that the
lock is not to be had now. -/
def tryForReading (lock : Control) (queueIsEmpty : Bool) : Option Control :=
  match lock.currentState with
  | .unlocked => some ⟨.lockedForReading, lock.numberOfReaders + 1⟩
  | .lockedForReading =>
    if queueIsEmpty then some { lock with numberOfReaders := lock.numberOfReaders + 1 } else none
  | .lockedForWriting => none

/-- The same decision for a writer, who does not look at the queue. -/
def tryForWriting (lock : Control) : Option Control :=
  match lock.currentState with
  | .unlocked => some { lock with currentState := .lockedForWriting }
  | .lockedForReading => none
  | .lockedForWriting => none

/-- The end both acquisitions share: the lock is taken, or the caller is turned away, or it
is put on the queue with its access noted in `Wait.option`; then no status is returned yet. -/
def finishSeize (s : State T) (request : Request T) (wait : Bool) :
    Option Control → State T × Option Status
  | some lock => ({ s with lock, holders := s.holders ++ [request] }, some .successful)
  | none =>
    if wait then ({ s with queue := s.queue ++ [request] }, none) else (s, some .unavailable)

/-- `_CORE_RWLock_Seize_for_reading`. -/
def seizeForReading (s : State T) (executing : T) (wait : Bool) : State T × Option Status :=
  finishSeize s ⟨executing, .read⟩ wait (tryForReading s.lock s.queue.isEmpty)

/-- `_CORE_RWLock_Seize_for_writing`. -/
def seizeForWriting (s : State T) (executing : T) (wait : Bool) : State T × Option Status :=
  finishSeize s ⟨executing, .write⟩ wait (tryForWriting s.lock)

/-- `_CORE_RWLock_Flush_filter`. -/
def flushFilter (request : Request T) (lock : Control) : Option Control :=
  match lock.currentState with
  | .lockedForReading =>
    match request.option with
    | .read => some { lock with numberOfReaders := lock.numberOfReaders + 1 }
    | .write => none
  | .lockedForWriting => none
  | .unlocked =>
    match request.option with
    | .read => some ⟨.lockedForReading, 1⟩
    | .write => some { lock with currentState := .lockedForWriting }

/-- The part of a release in which no holder is left. -/
def handOver (lock : Control) (queue : List (Request T)) :
    WaitQueue.Flushed Control (Request T) :=
  WaitQueue.flushCritical flushFilter { lock with currentState := .unlocked } queue

/-- `_CORE_RWLock_Surrender` on the lock and its queue. -/
def surrenderLock (lock : Control) (queue : List (Request T)) :
    WaitQueue.Flushed Control (Request T) :=
  match lock.currentState with
  | .unlocked => ⟨[], lock, queue⟩
  | .lockedForReading =>
    if lock.numberOfReaders - 1 ≠ 0 then
      ⟨[], { lock with numberOfReaders := lock.numberOfReaders - 1 }, queue⟩
    else handOver { lock with numberOfReaders := lock.numberOfReaders - 1 } queue
  | .lockedForWriting => handOver lock queue

/-- A holder releases the lock; the waits of the flushed threads return `successful`. -/
def surrender [DecidableEq T] (s : State T) (executing : T) : State T :=
  let result := surrenderLock s.lock s.queue
  { lock := result.object
    queue := result.queue
    holders := s.holders.eraseP (·.thread = executing) ++ result.extracted }

/-- `_Thread_Timeout` for the waiting thread; nothing happens once its wait is over. -/
def timeout [DecidableEq T] (s : State T) (thread : T) : State T × Option Status :=
  if ∃ w ∈ s.queue, w.thread = thread then
    ({ s with queue := s.queue.eraseP (·.thread = thread) }, some .timeout)
  else (s, none)

/-- The operations on a lock. -/
inductive Op (T : Type) where
  /-- A thread asks for reading, and may be willing to wait. -/
  | seizeForReading (thread : T) (wait : Bool)
  /-- A thread asks for writing, and may be willing to wait. -/
  | seizeForWriting (thread : T) (wait : Bool)
  /-- The timeout of a thread's wait expires. -/
  | timeout (thread : T)
  /-- A thread releases the lock. -/
  | surrender (thread : T)
  deriving DecidableEq, Repr

/-- A waiting thread makes no call, and only a holder releases. -/
def Legal (s : State T) : Op T → Prop
  | .seizeForReading thread _ => ∀ w ∈ s.queue, w.thread ≠ thread
  | .seizeForWriting thread _ => ∀ w ∈ s.queue, w.thread ≠ thread
  | .timeout _ => True
  | .surrender thread =>
    (∀ w ∈ s.queue, w.thread ≠ thread) ∧ ∃ h ∈ s.holders, h.thread = thread

/-- One operation. -/
def step [DecidableEq T] (s : State T) : Op T → Option (State T)
  | .seizeForReading thread wait => some (seizeForReading s thread wait).1
  | .seizeForWriting thread wait => some (seizeForWriting s thread wait).1
  | .timeout thread => some (timeout s thread).1
  | .surrender thread => some (surrender s thread)

instance [DecidableEq T] (s : State T) (op : Op T) : Decidable (Legal s op) :=
  match op with
  | .seizeForReading thread _ => inferInstanceAs (Decidable (∀ w ∈ s.queue, w.thread ≠ thread))
  | .seizeForWriting thread _ => inferInstanceAs (Decidable (∀ w ∈ s.queue, w.thread ≠ thread))
  | .timeout _ => inferInstanceAs (Decidable True)
  | .surrender thread =>
    inferInstanceAs (Decidable ((∀ w ∈ s.queue, w.thread ≠ thread) ∧
      ∃ h ∈ s.holders, h.thread = thread))

end Rtems.RwLock
