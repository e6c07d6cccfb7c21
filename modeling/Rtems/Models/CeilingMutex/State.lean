import Rtems.Core.Run
import Rtems.Models.ThreadQueue.Aggregation

/-!
# Ceiling mutexes

The owner of a ceiling mutex has the ceiling among the nodes that contribute to its priority. The
mutex keeps the waiting threads in the order of their priorities. The other contributors of a
thread are named per thread, and their priorities may change at any time. One processor is
configured.
-/

namespace Rtems.CeilingMutex

open ThreadQueue

/-- A priority node that contributes to the priority of a thread. -/
inductive Node (N : Type*) where
  /-- A node that does not belong to the mutex, for example the real priority. -/
  | own (node : N)
  /-- `Priority_ceiling` of the mutex. -/
  | ceiling
  deriving DecidableEq, Repr

/-- The status codes of the operations. -/
inductive Status where
  | successful
  | unavailable
  | timeout
  | notOwner
  | nestingNotAllowed
  | mutexCeilingViolated
  deriving DecidableEq, Repr

/-- `CORE_ceiling_mutex_Control` and the priorities of the threads. -/
structure State (T N : Type*) where
  /-- `Wait_queue.Queue.owner`. -/
  owner : Option T
  /-- `nest_level`. -/
  nestLevel : Nat
  /-- `Priority_ceiling.priority`. -/
  priorityCeiling : Nat
  /-- The waiting threads. -/
  waitQueue : Aggregation T
  /-- `Wait.Priority` of the home node. -/
  waitPriority : T → Aggregation (Node N)
  /-- `priority` of a node of a thread. -/
  nodePriority : T → N → Nat

namespace State

variable {T N : Type*} [DecidableEq T] [DecidableEq N] (s : State T N)

/-- `priority` of a contributor of a thread. -/
def key (t : T) : Node N → Nat
  | .own node => s.nodePriority t node
  | .ceiling => s.priorityCeiling

/-- `_Priority_Get_priority` of the home node. -/
def priority (t : T) : Nat := (s.waitPriority t).priority

/-- The end of `_Thread_Priority_apply`: a reported change is passed on to the thread queue. -/
def applyPriority (t : T) (result : Aggregation (Node N) × Bool) : State T N :=
  let changed := { s with waitPriority := Function.update s.waitPriority t result.1 }
  if result.2 = true ∧ t ∈ s.waitQueue.contributors then
    { changed with waitQueue := s.waitQueue.plainChanged changed.priority t }
  else changed

/-- `_Thread_Priority_add` of the ceiling. -/
def threadPriorityAdd (t : T) : State T N :=
  s.applyPriority t (Aggregation.nonEmptyInsert (s.key t) (s.waitPriority t) .ceiling)

/-- `_Thread_Priority_remove` of the ceiling. -/
def threadPriorityRemove (t : T) : Option (State T N) :=
  (Aggregation.extractNonEmpty (s.key t) (s.waitPriority t) .ceiling).map (s.applyPriority t)

/-- `_Priority_Node_set_priority`. -/
def setNodePriority (t : T) (node : N) (priority : Nat) : State T N :=
  let nodes := Function.update (s.nodePriority t) node priority
  { s with nodePriority := Function.update s.nodePriority t nodes }

/-- `_Thread_Priority_change` of another contributor. -/
def threadPriorityChange (t : T) (node : N) (priority : Nat) : Option (State T N) :=
  let s := s.setNodePriority t node priority
  (Aggregation.changed (s.key t) (s.waitPriority t) (.own node)).map (s.applyPriority t)

/-- `_CORE_ceiling_mutex_Set_owner`. -/
def setOwner (t : T) : State T N × Status :=
  if s.priority t < s.priorityCeiling then (s, .mutexCeilingViolated)
  else ({ s with owner := some t }.threadPriorityAdd t, .successful)

/-- The nested seize: `_CORE_recursive_mutex_Seize_nested` and `_POSIX_Mutex_Lock_nested`. -/
def seizeNested (recursive : Bool) : State T N × Status :=
  if recursive then ({ s with nestLevel := s.nestLevel + 1 }, .successful)
  else (s, .nestingNotAllowed)

/-- `_CORE_mutex_Seize_slow`; a thread that waits gets its status later. -/
def seizeSlow (executing : T) (wait : Bool) : State T N × Option Status :=
  if wait then
    ({ s with waitQueue := (s.waitQueue.plainInsert s.priority executing).1 }, none)
  else (s, some .unavailable)

/-- `_CORE_ceiling_mutex_Seize`. -/
def seize (executing : T) (wait recursive : Bool) : State T N × Option Status :=
  match s.owner with
  | none => ((s.setOwner executing).1, some (s.setOwner executing).2)
  | some owner =>
    if owner = executing then
      ((s.seizeNested recursive).1, some (s.seizeNested recursive).2)
    else s.seizeSlow executing wait

/-- The second half of `_CORE_ceiling_mutex_Surrender`: the first waiting thread is the new
owner. It still waits when the ceiling is added. -/
def handOver : State T N :=
  match s.waitQueue.minimum with
  | none => { s with owner := none }
  | some newOwner =>
    let s := { s with owner := some newOwner }.threadPriorityAdd newOwner
    { s with waitQueue := s.waitQueue.plainExtract newOwner }

/-- `_CORE_ceiling_mutex_Surrender`. -/
def surrender (executing : T) : Option (State T N × Status) :=
  if s.owner ≠ some executing then some (s, .notOwner)
  else if 0 < s.nestLevel then some ({ s with nestLevel := s.nestLevel - 1 }, .successful)
  else (s.threadPriorityRemove executing).map fun s => (s.handOver, .successful)

/-- `_Thread_Timeout`; nothing happens once the wait is over. -/
def timeout (t : T) : State T N × Option Status :=
  if t ∈ s.waitQueue.contributors then
    ({ s with waitQueue := s.waitQueue.plainExtract t }, some .timeout)
  else (s, none)

end State

/-- The operations on a mutex, and the changes of other priorities. -/
inductive Op (T N : Type*) where
  /-- A thread seizes the mutex; the kind of mutex says if it may do so again. -/
  | seize (executing : T) (wait recursive : Bool)
  /-- A thread surrenders the mutex. -/
  | surrender (executing : T)
  /-- The timeout of a thread expires. -/
  | timeout (thread : T)
  /-- Another contributor of a thread gets a new priority. -/
  | changePriority (thread : T) (node : N) (priority : Nat)

variable {T N : Type*} [DecidableEq T] [DecidableEq N]

/-- One operation, with the status that the caller or the waiting thread gets. -/
def call (s : State T N) : Op T N → Option (State T N × Option Status)
  | .seize executing wait recursive => some (s.seize executing wait recursive)
  | .surrender executing => (s.surrender executing).map fun r => (r.1, some r.2)
  | .timeout thread => some (s.timeout thread)
  | .changePriority thread node priority =>
    (s.threadPriorityChange thread node priority).map fun s => (s, none)

/-- One operation. -/
def step (s : State T N) (op : Op T N) : Option (State T N) :=
  (call s op).map (·.1)

/-- A waiting thread executes nothing, and only a contributor can change. -/
def Allowed (s : State T N) : Op T N → Prop
  | .seize executing _ _ => executing ∉ s.waitQueue.contributors
  | .surrender executing => executing ∉ s.waitQueue.contributors
  | .timeout _ => True
  | .changePriority thread node _ => .own node ∈ (s.waitPriority thread).contributors

instance (s : State T N) : (op : Op T N) → Decidable (Allowed s op)
  | .seize executing _ _ => inferInstanceAs (Decidable (executing ∉ s.waitQueue.contributors))
  | .surrender executing => inferInstanceAs (Decidable (executing ∉ s.waitQueue.contributors))
  | .timeout _ => inferInstanceAs (Decidable True)
  | .changePriority thread node _ =>
    inferInstanceAs (Decidable (.own node ∈ (s.waitPriority thread).contributors))

/-- No thread waits with a priority higher than the ceiling: it does not begin to wait with one,
and does not get one while it waits. -/
def BelowCeiling (s : State T N) : Op T N → Prop
  | .seize executing wait _ =>
    wait = true → s.owner ≠ none → s.owner ≠ some executing →
      s.priorityCeiling ≤ s.priority executing
  | .surrender _ => True
  | .timeout _ => True
  | .changePriority thread _ priority =>
    thread ∈ s.waitQueue.contributors → s.priorityCeiling ≤ priority

instance (s : State T N) : (op : Op T N) → Decidable (BelowCeiling s op)
  | .seize executing wait _ => inferInstanceAs (Decidable (wait = true → s.owner ≠ none →
      s.owner ≠ some executing → s.priorityCeiling ≤ s.priority executing))
  | .surrender _ => inferInstanceAs (Decidable True)
  | .timeout _ => inferInstanceAs (Decidable True)
  | .changePriority thread _ priority =>
    inferInstanceAs (Decidable (thread ∈ s.waitQueue.contributors →
      s.priorityCeiling ≤ priority))

/-- A mutex after `_CORE_ceiling_mutex_Initialize`. -/
structure Fresh (s : State T N) : Prop where
  /-- It has no owner. -/
  owner : s.owner = none
  /-- No thread waits. -/
  waitQueue : s.waitQueue.contributors = []
  /-- The contributors of every thread are in order. -/
  ok : ∀ t, (s.waitPriority t).Ok (s.key t)
  /-- Every thread has a priority. -/
  own : ∀ t, ∃ node, .own node ∈ (s.waitPriority t).contributors
  /-- The ceiling contributes to no thread. -/
  ceiling : ∀ t, .ceiling ∉ (s.waitPriority t).contributors

end Rtems.CeilingMutex
