import Rtems.Core.OrderedList
import Mathlib.Order.Nat

/-!
# Multiprocessor scheduling state

The nodes, threads and processors of one scheduler instance. A node is named by the
thread that owns it. The functions of the scheduler implementation that handle the user
of a node follow the source; a result is undefined where the source takes an idle
thread from an empty chain.
-/

namespace Rtems.Scheduler.Smp

/-- `Scheduler_SMP_Node_state`. -/
inductive NodeState
  | blocked
  | scheduled
  | ready
  deriving DecidableEq

/-- `Thread_Scheduler_state`. -/
inductive ThreadState
  | blocked
  | scheduled
  | ready
  deriving DecidableEq

/-- `Scheduler_Try_to_schedule_action`. -/
inductive TryToScheduleAction
  | doSchedule
  | doIdleExchange
  | doBlock
  deriving DecidableEq

/-- `Scheduler_SMP_Node` with its base. -/
structure Node (T : Type*) where
  state : NodeState
  /-- The priority under which the scheduler has the node. -/
  priority : Nat
  /-- `Scheduler_Node.Priority.value`. -/
  value : Nat
  /-- `Scheduler_Node.Priority.prepend_it`. -/
  prependIt : Bool
  stickyLevel : Int
  user : T
  idle : Option T

/-- The scheduling fields of `Thread_Control`. -/
structure Thread (C : Type*) where
  /-- `Scheduler.state`. -/
  state : ThreadState
  cpu : C
  /-- `_Thread_Is_executing_on_a_processor`. -/
  isExecuting : Bool
  /-- `_Thread_Is_ready`. -/
  isReady : Bool

/-- The instance: threads, nodes, heirs, and the contexts of the shared and of the
particular scheduler. -/
structure State (T C R : Type*) where
  node : T → Node T
  thread : T → Thread C
  heir : C → T
  scheduled : List T
  idleThreads : List T
  context : R

variable {T C R : Type*} [DecidableEq T] [DecidableEq C]

namespace State

/-- Replace the fields of one node. -/
def setNode (s : State T C R) (n : T) (f : Node T → Node T) : State T C R :=
  { s with node := Function.update s.node n (f (s.node n)) }

/-- Replace the fields of one thread. -/
def setThread (s : State T C R) (t : T) (f : Thread C → Thread C) : State T C R :=
  { s with thread := Function.update s.thread t (f (s.thread t)) }

/-- `_Scheduler_SMP_Node_priority`. -/
def priority (s : State T C R) (n : T) : Nat := (s.node n).priority

/-- `_Scheduler_SMP_Node_change_state`. -/
def nodeChangeState (s : State T C R) (n : T) (newState : NodeState) : State T C R :=
  s.setNode n fun node => { node with state := newState }

/-- `_Scheduler_Thread_change_state`. -/
def threadChangeState (s : State T C R) (t : T) (newState : ThreadState) : State T C R :=
  s.setThread t fun th => { th with state := newState }

/-- `_Thread_Set_CPU`. -/
def setCpu (s : State T C R) (t : T) (cpu : C) : State T C R :=
  s.setThread t fun th => { th with cpu := cpu }

/-- `_Thread_Dispatch_update_heir`. -/
def dispatchUpdateHeir (s : State T C R) (cpu : C) (heir : T) : State T C R :=
  { s with heir := Function.update s.heir cpu heir }

/-- `_Scheduler_SMP_Node_update_priority`. -/
def nodeUpdatePriority (s : State T C R) (n : T) (newPriority : Nat) : State T C R :=
  s.setNode n fun node => { node with priority := newPriority }

/-- `_Scheduler_SMP_Extract_from_scheduled`. -/
def extractFromScheduled (s : State T C R) (n : T) : State T C R :=
  { s with scheduled := s.scheduled.erase n }

/-- `_Scheduler_SMP_Get_idle_thread`. -/
def getIdleThread (s : State T C R) : Option (State T C R × T) :=
  match s.idleThreads with
  | [] => none
  | idle :: rest => some ({ s with idleThreads := rest }, idle)

/-- `_Scheduler_SMP_Release_idle_thread`. -/
def smpReleaseIdleThread (s : State T C R) (idle : T) : State T C R :=
  { s with idleThreads := idle :: s.idleThreads }

/-- `_Scheduler_Set_idle_thread`. -/
def setIdleThread (s : State T C R) (n idle : T) : State T C R :=
  s.setNode n fun node => { node with user := idle, idle := some idle }

/-- `_Scheduler_Use_idle_thread`. -/
def useIdleThread (s : State T C R) (n : T) (cpu : C) : Option (State T C R × T) :=
  s.getIdleThread.map fun (s, idle) => ((s.setIdleThread n idle).setCpu idle cpu, idle)

/-- The idle thread leaves the node to its owner. -/
def resetIdleThread (s : State T C R) (n : T) : State T C R :=
  s.setNode n fun node => { node with user := n, idle := none }

/-- `_Scheduler_Release_idle_thread`. -/
def releaseIdleThread (s : State T C R) (n : T) : State T C R × Option T :=
  match (s.node n).idle with
  | some idle => ((s.resetIdleThread n).smpReleaseIdleThread idle, some idle)
  | none => (s, none)

/-- `_Scheduler_Exchange_idle_thread`. -/
def exchangeIdleThread (s : State T C R) (needsIdle usesIdle idle : T) : State T C R :=
  (s.resetIdleThread usesIdle).setIdleThread needsIdle idle

/-- `_Scheduler_Discard_idle_thread`; the source needs a node that uses an idle thread. -/
def discardIdleThread (s : State T C R) (t n : T) : Option (State T C R) :=
  (s.node n).idle.map fun idle =>
    let s := (s.resetIdleThread n).smpReleaseIdleThread idle
    let cpu := (s.thread idle).cpu
    (s.setCpu t cpu).dispatchUpdateHeir cpu t

/-- `_Scheduler_Try_to_schedule_node`. -/
def tryToScheduleNode (s : State T C R) (n : T) (idle : Option T) :
    Option (State T C R × TryToScheduleAction) :=
  if (s.thread n).state = .ready then
    some (s.threadChangeState n .scheduled, .doSchedule)
  else if (s.thread n).state = .scheduled ∧ (s.node n).stickyLevel ≤ 1 then some (s, .doBlock)
  else if (s.node n).stickyLevel = 0 then some (s, .doBlock)
  else if idle.isSome then some (s, .doIdleExchange)
  else (s.useIdleThread n (s.thread n).cpu).map fun (s, _) => (s, .doSchedule)

/-- `_Scheduler_Block_node`: the processor tells to go on with the blocking. -/
def blockNode (s : State T C R) (t n : T) (isScheduled : Bool) :
    Option (State T C R × Option C) :=
  let s := s.setNode n fun node => { node with stickyLevel := node.stickyLevel - 1 }
  let threadCpu := (s.thread t).cpu
  let s := s.threadChangeState t .blocked
  if 0 < (s.node n).stickyLevel then
    if isScheduled && (s.node n).idle.isNone then
      (s.useIdleThread n threadCpu).map fun (s, idle) =>
        (s.dispatchUpdateHeir threadCpu idle, none)
    else some (s, none)
  else some (s, some threadCpu)

/-- `_Scheduler_Unblock_node`. -/
def unblockNode (s : State T C R) (t n : T) (isScheduled : Bool) :
    Option (State T C R × Bool) :=
  let s := s.setNode n fun node => { node with stickyLevel := node.stickyLevel + 1 }
  if isScheduled then
    (s.discardIdleThread t n).map fun s => (s.threadChangeState t .scheduled, false)
  else some (s.threadChangeState t .ready, true)

end State

/-- `_Scheduler_SMP_Insert_priority_lifo_order`. -/
def insertPriorityLifoOrder (toInsert next : Nat) : Bool := decide (toInsert ≤ next)

/-- `_Scheduler_SMP_Insert_priority_fifo_order`. -/
def insertPriorityFifoOrder (toInsert next : Nat) : Bool := decide (toInsert < next)

/-- `_Scheduler_SMP_Insert_scheduled_lifo`. -/
def insertScheduledLifo (s : State T C R) (n : T) : State T C R :=
  { s with
    scheduled := insertBefore
      (fun next => insertPriorityLifoOrder (s.priority n) (s.priority next)) n s.scheduled }

/-- `_Scheduler_SMP_Insert_scheduled_fifo`. -/
def insertScheduledFifo (s : State T C R) (n : T) : State T C R :=
  { s with
    scheduled := insertBefore
      (fun next => insertPriorityFifoOrder (s.priority n) (s.priority next)) n s.scheduled }

/-- `_Scheduler_SMP_Get_lowest_scheduled`. -/
def getLowestScheduled (s : State T C R) (_ : T) : Option T := s.scheduled.getLast?

/-- `_Scheduler_SMP_Allocate_processor_lazy`: a thread that still executes on a
processor of the instance keeps it, and the heir of that processor moves instead. -/
def allocateProcessorLazy (isOwned : C → Bool) (s : State T C R) (scheduled victim : T)
    (victimCpu : C) : State T C R :=
  let scheduledThread := (s.node scheduled).user
  let victimThread := (s.node victim).user
  let scheduledCpu := (s.thread scheduledThread).cpu
  let (s, heir) :=
    if (s.thread scheduledThread).isExecuting then
      if isOwned scheduledCpu then
        (s.dispatchUpdateHeir scheduledCpu scheduledThread, s.heir scheduledCpu)
      else (s, scheduledThread)
    else (s, scheduledThread)
  if heir ≠ victimThread then (s.setCpu heir victimCpu).dispatchUpdateHeir victimCpu heir else s

/-- `_Scheduler_SMP_Allocate_processor_exact`. -/
def allocateProcessorExact (s : State T C R) (scheduled : T) (victimCpu : C) : State T C R :=
  let scheduledThread := (s.node scheduled).user
  (s.setCpu scheduledThread victimCpu).dispatchUpdateHeir victimCpu scheduledThread

namespace State

/-- `_Thread_Get_CPU`. -/
def cpu (s : State T C R) (t : T) : C := (s.thread t).cpu

section Lemmas

variable (s : State T C R) (n t : T) (x : NodeState) (y : ThreadState) (c : C)
omit [DecidableEq C]

theorem priority_setNode {f : Node T → Node T}
    (h : (f (s.node n)).priority = (s.node n).priority) :
    (s.setNode n f).priority = s.priority := by
  funext u
  by_cases hu : u = n
  · subst hu
    simp [priority, setNode, h]
  · simp [priority, setNode, hu]

theorem cpu_setThread {f : Thread C → Thread C} (h : (f (s.thread t)).cpu = (s.thread t).cpu) :
    (s.setThread t f).cpu = s.cpu := by
  funext u
  by_cases hu : u = t
  · subst hu
    simp [cpu, setThread, h]
  · simp [cpu, setThread, hu]

theorem priority_nodeUpdatePriority {u : T} (hu : u ≠ n) (p : Nat) :
    (s.nodeUpdatePriority n p).priority u = s.priority u := by
  simp [priority, nodeUpdatePriority, setNode, hu]

@[simp] theorem node_nodeChangeState :
    (s.nodeChangeState n x).node = Function.update s.node n { s.node n with state := x } := rfl

@[simp] theorem thread_nodeChangeState : (s.nodeChangeState n x).thread = s.thread := rfl

@[simp] theorem priority_nodeChangeState : (s.nodeChangeState n x).priority = s.priority :=
  s.priority_setNode n rfl

@[simp] theorem node_threadChangeState : (s.threadChangeState t y).node = s.node := rfl

@[simp] theorem thread_threadChangeState :
    (s.threadChangeState t y).thread =
      Function.update s.thread t { s.thread t with state := y } := rfl

@[simp] theorem priority_threadChangeState :
    (s.threadChangeState t y).priority = s.priority := rfl

@[simp] theorem cpu_nodeChangeState : (s.nodeChangeState n x).cpu = s.cpu := rfl

@[simp] theorem cpu_threadChangeState : (s.threadChangeState t y).cpu = s.cpu :=
  s.cpu_setThread t rfl

@[simp] theorem cpu_setCpu : (s.setCpu t c).cpu = Function.update s.cpu t c := by
  funext u
  by_cases hu : u = t
  · subst hu
    simp [cpu, setCpu, setThread]
  · simp [cpu, setCpu, setThread, hu]

theorem releaseIdleThread_of_none (h : (s.node n).idle = none) :
    s.releaseIdleThread n = (s, none) := by
  simp [releaseIdleThread, h]

theorem tryToScheduleNode_of_ready (h : (s.thread n).state = .ready) (idle : Option T) :
    s.tryToScheduleNode n idle = some (s.threadChangeState n .scheduled, .doSchedule) :=
  if_pos h

end Lemmas

end State

end Rtems.Scheduler.Smp
