import Rtems.Models.ThreadQueue.Aggregation

/-!
# Threads and priority inheritance queues without SMP

Threads wait on the thread queues of recursive mutexes with priority inheritance.
Each thread has one scheduler node, whose wait priority aggregates the thread's own
priority nodes and one node for each owned queue with waiters; each queue aggregates
the threads that wait on it. The configuration has one processor and one scheduler,
so an action list holds at most one action and the scheduler is the deterministic
priority scheduler. The heads of a queue are absent exactly if nobody waits.
-/

namespace Rtems.ThreadQueue

/-- A priority node that can be in the tree of a thread. -/
inductive Contributor (N Q : Type*)
  | own (node : N)
  | queue (queue : Q)
  deriving DecidableEq, Repr

/-- The codes of `Status_Control` that the mutex operations use. -/
inductive Status
  | successful
  | unavailable
  | deadlock
  | notOwner
  | timeout
  deriving DecidableEq, Repr

/-- `Priority_Action_type`. -/
inductive ActionType
  | add
  | change
  | remove
  deriving DecidableEq, Repr

/-- The parts of `Thread_Control` and of its home scheduler node in use here. -/
structure Thread (N Q : Type*) where
  /-- `Wait.queue`; it is set exactly as long as `Wait.operations` are not the default ones. -/
  waitQueue : Option Q
  /-- `Wait.return_code`. -/
  returnCode : Status
  /-- The home scheduler node's `Wait.Priority`. -/
  waitPriority : Aggregation (Contributor N Q)
  /-- The home scheduler node's `Priority.value`. -/
  value : Nat
  /-- The home scheduler node's `Priority.prepend_it`. -/
  prependIt : Bool
  /-- `Ready_queue.current_priority` of the priority scheduler's node. -/
  currentPriority : Nat
  /-- The bit `STATES_WAITING_FOR_MUTEX` of `current_state`. -/
  waitingForMutex : Bool
  /-- The bit `STATES_LIFE_IS_CHANGING` of `current_state`. -/
  lifeIsChanging : Bool

/-- `Thread_queue_Queue` of a recursive mutex, with the mutex's nest level. -/
structure Queue (T : Type*) where
  /-- `owner`. -/
  owner : Option T
  /-- `nest_level` of the mutex. -/
  nestLevel : Nat
  /-- `heads->Heads.Priority.Queue`: the waiting threads. -/
  heads : Aggregation T
  /-- The thread of the `scheduler_node` in the priority queue. -/
  schedulerNode : Option T

/-- All threads, queues and priority nodes. -/
structure State (T Q N : Type*) where
  thread : T → Thread N Q
  queue : Q → Queue T
  /-- The `priority` of the threads' own priority nodes. -/
  nodePriority : N → Nat

variable {T Q N : Type*} [DecidableEq T] [DecidableEq Q] [DecidableEq N]

/-- `_Thread_Is_ready`. -/
def Thread.isReady (c : Thread N Q) : Bool := !c.waitingForMutex && !c.lifeIsChanging

namespace State

variable (s : State T Q N)

/-- The effective priority of a thread. -/
def priority (t : T) : Nat := (s.thread t).waitPriority.priority

/-- The priority of a contributor to a thread. -/
def nodeKey : Contributor N Q → Nat
  | .own node => s.nodePriority node
  | .queue q => (s.queue q).heads.priority

/-- Update one thread. -/
def modifyThread (t : T) (f : Thread N Q → Thread N Q) : State T Q N :=
  { s with thread := Function.update s.thread t (f (s.thread t)) }

/-- Update one queue. -/
def modifyQueue (q : Q) (f : Queue T → Queue T) : State T Q N :=
  { s with queue := Function.update s.queue q (f (s.queue q)) }

omit [DecidableEq Q] [DecidableEq N] in
@[simp] theorem modifyThread_self (t : T) (f : Thread N Q → Thread N Q) :
    (s.modifyThread t f).thread t = f (s.thread t) := by
  simp [modifyThread]

omit [DecidableEq Q] [DecidableEq N] in
theorem modifyThread_of_ne {t u : T} (f : Thread N Q → Thread N Q) (hu : u ≠ t) :
    (s.modifyThread t f).thread u = s.thread u := by
  simp [modifyThread, hu]

section

omit [DecidableEq T] [DecidableEq N]

@[simp] theorem modifyQueue_self (q : Q) (f : Queue T → Queue T) :
    (s.modifyQueue q f).queue q = f (s.queue q) := by
  simp [modifyQueue]

theorem modifyQueue_of_ne {q r : Q} (f : Queue T → Queue T) (hr : r ≠ q) :
    (s.modifyQueue q f).queue r = s.queue r := by
  simp [modifyQueue, hr]

theorem modifyQueue_modifyQueue (q : Q) (f g : Queue T → Queue T) :
    (s.modifyQueue q f).modifyQueue q g = s.modifyQueue q (g ∘ f) := by
  simp [modifyQueue]

theorem modifyQueue_congr {q : Q} {f g : Queue T → Queue T} (h : f (s.queue q) = g (s.queue q)) :
    s.modifyQueue q f = s.modifyQueue q g := by
  rw [modifyQueue, modifyQueue, h]

end

/-- Replace the wait priority of a thread. -/
def setWaitPriority (t : T) (a : Aggregation (Contributor N Q)) : State T Q N :=
  s.modifyThread t fun c => { c with waitPriority := a }

/-- Replace the tree of a queue. -/
def setHeads (q : Q) (a : Aggregation T) : State T Q N :=
  s.modifyQueue q fun d => { d with heads := a }

/-- `_Thread_Set_scheduler_node_priority` for the thread's wait priority. -/
def setSchedulerNodePriority (t : T) (prependIt : Bool) : State T Q N :=
  s.modifyThread t fun c => { c with value := c.waitPriority.priority, prependIt := prependIt }

end State

section Scheduler

variable (s : State T Q N)

/-- `_Scheduler_priority_Update_priority`, as far as the queued priority goes. -/
def schedulerUpdatePriority (t : T) : State T Q N :=
  if (s.thread t).isReady then s.modifyThread t fun c => { c with currentPriority := c.value }
  else s

/-- `_Thread_Priority_update`. -/
def threadPriorityUpdate (updates : List T) : State T Q N :=
  updates.foldl schedulerUpdatePriority s

/-- `_Scheduler_priority_Unblock`, as far as the queued priority goes. -/
def schedulerUnblock (t : T) : State T Q N :=
  s.modifyThread t fun c => { c with currentPriority := c.value }

/-- `_Thread_Set_state` with `STATES_WAITING_FOR_MUTEX`. -/
def setWaitingForMutex (t : T) : State T Q N :=
  s.modifyThread t fun c => { c with waitingForMutex := true }

/-- `_Thread_Clear_state`: a thread without a state left to wait for is unblocked. -/
def threadClearState (t : T) (isSet : Thread N Q → Bool) (clear : Thread N Q → Thread N Q) :
    State T Q N :=
  if isSet (s.thread t) then
    let s := s.modifyThread t clear
    if (s.thread t).isReady then schedulerUnblock s t else s
  else s

/-- `_Thread_Unblock`, which clears the states of local waits. -/
def threadUnblock (t : T) : State T Q N :=
  threadClearState s t Thread.waitingForMutex fun c => { c with waitingForMutex := false }

end Scheduler

section Actions

/-- The aggregation operation of one action and the place at which its change handler
asks the scheduler to put the thread. -/
def applyAction (s : State T Q N) (t : T) (node : Contributor N Q) (prependIt : Bool) :
    ActionType → Option (Aggregation (Contributor N Q) × Bool × Bool)
  | .add =>
    let (a, reported) := (s.thread t).waitPriority.nonEmptyInsert s.nodeKey node
    some (a, reported, false)
  | .remove =>
    ((s.thread t).waitPriority.extractNonEmpty s.nodeKey node).map fun (a, reported) =>
      (a, reported, true)
  | .change =>
    ((s.thread t).waitPriority.changed s.nodeKey node).map fun (a, reported) =>
      (a, reported, prependIt)

/-- `_Thread_queue_Priority_inherit_priority_actions` for a waiting thread whose priority
changed; tells if the owner has to be changed in turn. -/
def inheritPriorityActions (s : State T Q N) (q : Q) (t : T) : Option (State T Q N × Bool) :=
  ((s.queue q).heads.changed s.priority t).map fun (a, reported) => (s.setHeads q a, reported)

/-- `_Thread_Priority_do_perform_actions`: the updates registered so far grow by the thread
if its priority changed; the last component tells if an action for the owner of the
thread's wait queue is pending. -/
def doPerformActions (s : State T Q N) (t : T) (node : Contributor N Q) (type : ActionType)
    (prependIt : Bool) (updates : List T) : Option (State T Q N × List T × Bool) :=
  match applyAction s t node prependIt type with
  | none => none
  | some (a, false, _) => some (s.setWaitPriority t a, updates, false)
  | some (a, true, prepend) =>
    let s := (s.setWaitPriority t a).setSchedulerNodePriority t prepend
    match (s.thread t).waitQueue with
    | none => some (s, updates ++ [t], false)
    | some q => (inheritPriorityActions s q t).map fun (s, again) => (s, updates ++ [t], again)

/-- `_Thread_Priority_perform_actions`: follow the owners as long as an action is pending. -/
def performActions : Nat → State T Q N → T → Contributor N Q → ActionType → List T →
    Option (State T Q N × List T)
  | 0, _, _, _, _, _ => none
  | fuel + 1, s, t, node, type, updates =>
    match doPerformActions s t node type false updates with
    | none => none
    | some (s, updates', false) => some (s, updates')
    | some (s, _, true) =>
      match (s.thread t).waitQueue with
      | none => none
      | some q =>
        match (s.queue q).owner with
        | none => none
        | some owner => performActions fuel s owner (.queue q) .change updates

/-- `_Thread_Priority_apply`. -/
def threadPriorityApply (fuel : Nat) (s : State T Q N) (t : T) (node : Contributor N Q)
    (prependIt : Bool) (type : ActionType) : Option (State T Q N × List T) :=
  match doPerformActions s t node type prependIt [] with
  | none => none
  | some (s, updates, false) => some (s, updates)
  | some (s, updates, true) =>
    match (s.thread t).waitQueue with
    | none => none
    | some q =>
      match (s.queue q).owner with
      | none => none
      | some owner => performActions fuel s owner (.queue q) .change updates

/-- `_Thread_Priority_add` with a node of the given priority, and the update. -/
def threadPriorityAdd (fuel : Nat) (s : State T Q N) (t : T) (node : N) (priority : Nat) :
    Option (State T Q N) :=
  let s := { s with nodePriority := Function.update s.nodePriority node priority }
  (threadPriorityApply fuel s t (.own node) false .add).map fun (s, updates) =>
    threadPriorityUpdate s updates

/-- `_Thread_Priority_remove`, and the update. -/
def threadPriorityRemove (fuel : Nat) (s : State T Q N) (t : T) (node : N) :
    Option (State T Q N) :=
  (threadPriorityApply fuel s t (.own node) true .remove).map fun (s, updates) =>
    threadPriorityUpdate s updates

/-- `_Thread_Priority_change`, and the update. -/
def threadPriorityChange (fuel : Nat) (s : State T Q N) (t : T) (node : N) (priority : Nat)
    (prependIt : Bool) : Option (State T Q N) :=
  let s := { s with nodePriority := Function.update s.nodePriority node priority }
  (threadPriorityApply fuel s t (.own node) prependIt .change).map fun (s, updates) =>
    threadPriorityUpdate s updates

end Actions

section Inherit

/-- `_Thread_queue_Priority_inherit_do_initialize`. -/
def inheritDoInitialize (fuel : Nat) (s : State T Q N) (q : Q) (t owner : T) :
    Option (State T Q N × List T) :=
  let s := s.modifyQueue q fun d =>
    { d with schedulerNode := some owner, heads := .initializedOne s.priority t }
  performActions fuel s owner (.queue q) .add []

/-- `_Thread_queue_Priority_inherit_do_enqueue`. -/
def inheritDoEnqueue (fuel : Nat) (s : State T Q N) (q : Q) (t owner : T) :
    Option (State T Q N × List T) :=
  let (a, reported) := (s.queue q).heads.nonEmptyInsert s.priority t
  let s := s.setHeads q a
  if reported then performActions fuel s owner (.queue q) .change [] else some (s, [])

/-- `_Thread_queue_Priority_inherit_enqueue`. -/
def inheritEnqueue (fuel : Nat) (s : State T Q N) (q : Q) (t : T) :
    Option (State T Q N × List T) :=
  match (s.queue q).owner with
  | none => none
  | some owner =>
    if (s.queue q).heads.isEmpty then inheritDoInitialize fuel s q t owner
    else inheritDoEnqueue fuel s q t owner

/-- `_Thread_queue_Priority_inherit_extract`. -/
def inheritExtract (fuel : Nat) (s : State T Q N) (q : Q) (t : T) :
    Option (State T Q N × List T) :=
  match (s.queue q).owner with
  | none => none
  | some owner =>
    let (a, extracted) := (s.queue q).heads.extract s.priority t
    let s := s.setHeads q a
    match extracted with
    | .nothing => some (s, [])
    | .removed => performActions fuel s owner (.queue q) .remove []
    | .changed => performActions fuel s owner (.queue q) .change []

/-- The part of `_Thread_queue_Priority_inherit_do_surrender` that takes the queue's node
from the previous owner. -/
def surrenderRemove (s : State T Q N) (q : Q) (previousOwner : T) :
    Option (State T Q N × List T) :=
  match (s.queue q).schedulerNode with
  | none => none
  | some t =>
    match (s.thread t).waitPriority.extractNonEmpty s.nodeKey (.queue q) with
    | none => none
    | some (a, reported) =>
      let s := s.setWaitPriority t a
      some (if reported then (s.setSchedulerNodePriority t true, [previousOwner]) else (s, []))

/-- The part of `_Thread_queue_Priority_inherit_do_surrender` that gives the queue's node
to the new owner, if somebody still waits. -/
def surrenderInsert (s : State T Q N) (q : Q) (t : T) (updates : List T) :
    State T Q N × List T :=
  if (s.queue q).heads.isEmpty then (s, updates)
  else
    let s := s.modifyQueue q fun d => { d with schedulerNode := some t }
    let (a, reported) := (s.thread t).waitPriority.nonEmptyInsert s.nodeKey (.queue q)
    let s := s.setWaitPriority t a
    if reported then (s.setSchedulerNodePriority t false, updates ++ [t]) else (s, updates)

/-- `_Thread_queue_Priority_inherit_surrender`: the new owner and the registered updates. -/
def inheritSurrender (s : State T Q N) (q : Q) (previousOwner : T) :
    Option (State T Q N × T × List T) :=
  match (s.queue q).heads.minimum with
  | none => none
  | some first =>
    (surrenderRemove s q previousOwner).map fun (s, updates) =>
      let s := s.setHeads q ((s.queue q).heads.extract s.priority first).1
      let (s, updates) := surrenderInsert s q first updates
      (s, first, updates)

end Inherit

section Operations

/-- `_Thread_Wait_claim`. -/
def threadWaitClaim (s : State T Q N) (t : T) (q : Q) : State T Q N :=
  s.modifyThread t fun c => { c with waitQueue := some q }

/-- `_Thread_Wait_restore_default`. -/
def threadWaitRestoreDefault (s : State T Q N) (t : T) : State T Q N :=
  s.modifyThread t fun c => { c with waitQueue := none }

/-- Set `Wait.return_code`. -/
def setReturnCode (s : State T Q N) (t : T) (status : Status) : State T Q N :=
  s.modifyThread t fun c => { c with returnCode := status }

/-- `_Thread_queue_Path_acquire_critical`: false if the path from the queue leads to the
thread. -/
def pathAcquireCritical : Nat → State T Q N → Q → T → Option Bool
  | 0, _, _, _ => none
  | fuel + 1, s, q, t =>
    match (s.queue q).owner with
    | none => some true
    | some owner =>
      if owner = t then some false
      else
        match (s.thread owner).waitQueue with
        | none => some true
        | some q' => pathAcquireCritical fuel s q' t

/-- `_Thread_queue_Enqueue` with the deadlock callout `_Thread_queue_Deadlock_status`. -/
def threadQueueEnqueue (fuel : Nat) (s : State T Q N) (q : Q) (t : T) : Option (State T Q N) :=
  let s := threadWaitClaim s t q
  match pathAcquireCritical fuel s q t with
  | none => none
  | some false => some (setReturnCode (threadWaitRestoreDefault s t) t .deadlock)
  | some true =>
    (inheritEnqueue fuel s q t).map fun (s, updates) =>
      threadPriorityUpdate (setWaitingForMutex (setReturnCode s t .successful) t) updates

/-- `_Thread_queue_Surrender`. -/
def threadQueueSurrender (s : State T Q N) (q : Q) (previousOwner : T) : Option (State T Q N) :=
  (inheritSurrender s q previousOwner).map fun (s, newOwner, updates) =>
    let s := s.modifyQueue q fun d => { d with owner := some newOwner }
    let s := threadWaitRestoreDefault s newOwner
    threadUnblock (threadPriorityUpdate s updates) newOwner

/-- `_CORE_recursive_mutex_Seize`: the returned status is missing if the caller blocks. -/
def recursiveMutexSeize (fuel : Nat) (s : State T Q N) (q : Q) (executing : T) (wait : Bool) :
    Option (State T Q N × Option Status) :=
  match (s.queue q).owner with
  | none =>
    some (s.modifyQueue q fun d => { d with owner := some executing }, some .successful)
  | some owner =>
    if owner = executing then
      some (s.modifyQueue q fun d => { d with nestLevel := (d.nestLevel + 1) % 2 ^ 32 },
        some .successful)
    else if wait then
      (threadQueueEnqueue fuel s q executing).map fun s =>
        (s, if (s.thread executing).isReady then some (s.thread executing).returnCode else none)
    else some (s, some .unavailable)

/-- `_CORE_recursive_mutex_Surrender`. -/
def recursiveMutexSurrender (s : State T Q N) (q : Q) (executing : T) :
    Option (State T Q N × Status) :=
  if (s.queue q).owner ≠ some executing then some (s, .notOwner)
  else if 0 < (s.queue q).nestLevel then
    some (s.modifyQueue q fun d => { d with nestLevel := d.nestLevel - 1 }, .successful)
  else
    let s := s.modifyQueue q fun d => { d with owner := none }
    if (s.queue q).heads.isEmpty then some (s, .successful)
    else (threadQueueSurrender s q executing).map fun s => (s, .successful)

/-- `_Thread_Continue` of a thread that may wait. -/
def threadContinue (fuel : Nat) (s : State T Q N) (t : T) (status : Status) :
    Option (State T Q N) :=
  match (s.thread t).waitQueue with
  | none => some s
  | some q =>
    (inheritExtract fuel s q t).map fun (s, updates) =>
      let s := setReturnCode (threadWaitRestoreDefault s t) t status
      threadUnblock (threadPriorityUpdate s updates) t

/-- `_Thread_queue_Extract`: the registered updates are dropped. -/
def threadQueueExtract (fuel : Nat) (s : State T Q N) (t : T) : Option (State T Q N) :=
  match (s.thread t).waitQueue with
  | none => some s
  | some q =>
    (inheritExtract fuel s q t).map fun (s, _) => threadUnblock (threadWaitRestoreDefault s t) t

end Operations

section LifeChange

/-- What a thread is created with. -/
structure Config (T N : Type*) where
  /-- The thread's node `Real_priority`. -/
  realPriority : T → N
  /-- `Start.initial_priority`. -/
  initialPriority : T → Nat
  /-- `_Thread_Is_life_change_allowed` of the thread's life state. -/
  isLifeChangeAllowed : T → Bool

variable (C : Config T N)

/-- `_Thread_Raise_real_priority`. -/
def threadRaiseRealPriority (fuel : Nat) (s : State T Q N) (t : T) (priority : Nat) :
    Option (State T Q N) :=
  if priority < s.nodePriority (C.realPriority t) then
    threadPriorityChange fuel s t (C.realPriority t) priority false
  else some s

/-- `_Thread_Add_life_change_request` of a thread without pending requests. -/
def threadAddLifeChangeRequest (s : State T Q N) (t : T) : State T Q N :=
  s.modifyThread t fun c => { c with lifeIsChanging := true }

/-- `_Thread_Remove_life_change_request` of a thread with one pending request. -/
def threadRemoveLifeChangeRequest (s : State T Q N) (t : T) : State T Q N :=
  threadClearState s t Thread.lifeIsChanging fun c => { c with lifeIsChanging := false }

/-- `_Thread_Finalize_life_change`. -/
def threadFinalizeLifeChange (fuel : Nat) (s : State T Q N) (t : T) (priority : Nat) :
    Option (State T Q N) :=
  match threadQueueExtract fuel s t with
  | none => none
  | some s =>
    (threadRaiseRealPriority C fuel s t priority).map fun s => threadRemoveLifeChangeRequest s t

/-- `_Thread_Cancel` of a thread that is not dormant. -/
def threadCancel (fuel : Nat) (s : State T Q N) (t executing : T) : Option (State T Q N) :=
  let priority := s.priority executing
  let s := threadAddLifeChangeRequest s t
  if C.isLifeChangeAllowed t then threadFinalizeLifeChange C fuel s t priority
  else
    (threadRaiseRealPriority C fuel s t priority).map fun s => threadRemoveLifeChangeRequest s t

/-- `_Thread_Restart_other` of a thread that is not dormant. -/
def threadRestartOther (fuel : Nat) (s : State T Q N) (t : T) : Option (State T Q N) :=
  if C.isLifeChangeAllowed t then
    threadFinalizeLifeChange C fuel (threadAddLifeChangeRequest s t) t (C.initialPriority t)
  else some s

end LifeChange

end Rtems.ThreadQueue
