import Rtems.Core.Run
import Mathlib.Order.Nat

/-!
# Uniprocessor scheduling state

The fields of a thread and of the only processor that the fixed-priority schedulers
read and write, and the operations through which the rest of the kernel calls a
scheduler. The scheduler context is a type parameter; the operation table is the
source's `Scheduler_Operations` restricted to these operations. An operation is
undefined where the source would take the first node of an empty ready queue.
-/

namespace Rtems.Scheduler.Uniprocessor

/-- The scheduling fields of `Thread_Control` and of its home scheduler node. -/
structure Thread where
  /-- `_Thread_Is_ready`. -/
  isReady : Bool
  isPreemptible : Bool
  /-- `_Thread_Get_priority`: the priority of the home node's `Wait.Priority`. -/
  priority : Nat
  /-- `Scheduler_Node.Priority.value`. -/
  value : Nat
  /-- `Scheduler_Node.Priority.prepend_it`. -/
  prependIt : Bool
  deriving DecidableEq

/-- The thread becomes ready or blocked. -/
def Thread.withReady (isReady : Bool) (th : Thread) : Thread := { th with isReady := isReady }

/-- A new effective priority, passed on to the scheduler node. -/
def Thread.withPriority (newPriority : Nat) (prependIt : Bool) (th : Thread) : Thread :=
  { th with priority := newPriority, value := newPriority, prependIt := prependIt }

/-- The thread becomes preemptible or not. -/
def Thread.withPreemptible (isPreemptible : Bool) (th : Thread) : Thread :=
  { th with isPreemptible := isPreemptible }

/-- The node carries the effective priority, which is in the scheduler's range. -/
def Thread.Valid (maximumPriority : Nat) (th : Thread) : Prop :=
  th.value = th.priority ∧ th.priority ≤ maximumPriority

instance (maximumPriority : Nat) (th : Thread) : Decidable (th.Valid maximumPriority) :=
  inferInstanceAs (Decidable (_ ∧ _))

/-- The fields of `Per_CPU_Control`. -/
structure PerCpu (T : Type*) where
  executing : T
  heir : T
  dispatchNecessary : Bool
  deriving DecidableEq

/-- Threads, processor and scheduler context. -/
structure State (T Q : Type*) where
  thread : T → Thread
  cpu : PerCpu T
  context : Q

variable {T Q : Type*} [DecidableEq T]

/-- Replace the fields of one thread. -/
def State.setThread (s : State T Q) (t : T) (f : Thread → Thread) : State T Q :=
  { s with thread := Function.update s.thread t (f (s.thread t)) }

/-- `_Thread_Get_priority`. -/
def State.priority (s : State T Q) (t : T) : Nat := (s.thread t).priority

/-- `PRIORITY_PSEUDO_ISR`. -/
def priorityPseudoIsr : Nat := 0

/-- `_Scheduler_Update_heir`. -/
def updateHeir (s : State T Q) (newHeir : T) (forceDispatch : Bool) : State T Q :=
  if s.cpu.heir ≠ newHeir ∧ ((s.thread s.cpu.heir).isPreemptible || forceDispatch) = true then
    { s with cpu := { s.cpu with heir := newHeir, dispatchNecessary := true } }
  else s

/-- `_Scheduler_Generic_block`. -/
def genericBlock (extract : State T Q → T → State T Q)
    (schedule : State T Q → Bool → Option (State T Q)) (s : State T Q) (t : T) :
    Option (State T Q) :=
  let s := extract s t
  if s.cpu.executing = t ∨ s.cpu.heir = t then schedule s true else some s

/-- The entries of `Scheduler_Operations` used here. -/
structure Operations (T Q : Type*) where
  schedule : State T Q → T → Option (State T Q)
  yield : State T Q → T → Option (State T Q)
  block : State T Q → T → Option (State T Q)
  unblock : State T Q → T → Option (State T Q)
  updatePriority : State T Q → T → Option (State T Q)

/-- The kernel events that reach the scheduler. -/
inductive Op (T : Type*)
  | unblock (t : T)
  | block (t : T)
  /-- `_Thread_Yield` of the executing thread. -/
  | yield
  /-- A new priority of the home node followed by `_Scheduler_Update_priority`. -/
  | updatePriority (t : T) (newPriority : Nat) (prependIt : Bool)
  | setPreemptible (t : T) (isPreemptible : Bool)
  /-- `_Scheduler_Schedule`, as done by `rtems_task_mode`. -/
  | schedule
  /-- `_Thread_Dispatch` of the heir. -/
  | dispatch

/-- One kernel event under a given scheduler. -/
def step (ops : Operations T Q) (s : State T Q) : Op T → Option (State T Q)
  | .unblock t => ops.unblock (s.setThread t (.withReady true)) t
  | .block t => ops.block (s.setThread t (.withReady false)) t
  | .yield =>
    if (s.thread s.cpu.executing).isReady then ops.yield s s.cpu.executing else some s
  | .updatePriority t p b =>
    ops.updatePriority (s.setThread t (.withPriority p b)) t
  | .setPreemptible t b => some (s.setThread t (.withPreemptible b))
  | .schedule => ops.schedule s s.cpu.executing
  | .dispatch =>
    some { s with cpu := { s.cpu with executing := s.cpu.heir, dispatchNecessary := false } }

/-- What the callers promise: only blocked threads are unblocked, only ready threads
other than the idle thread are blocked, and priorities are in the scheduler's range. -/
def Legal (maximumPriority : Nat) (idle : T) (s : State T Q) : Op T → Prop
  | .unblock t => (s.thread t).isReady = false
  | .block t => (s.thread t).isReady = true ∧ t ≠ idle
  | .updatePriority _ p _ => p ≤ maximumPriority
  | _ => True

instance (maximumPriority : Nat) (idle : T) (s : State T Q) (op : Op T) :
    Decidable (Legal maximumPriority idle s op) := by
  cases op <;> unfold Legal <;> infer_instance

/-- `_Thread_Create_idle_for_CPU`: the idle thread is executing and heir before the
scheduler unblocks it. -/
def createIdle (ops : Operations T Q) (thread : T → Thread) (context : Q) (idle : T) :
    Option (State T Q) :=
  step ops ⟨thread, ⟨idle, idle, false⟩, context⟩ (.unblock idle)

section Lemmas

variable (s : State T Q) (t u : T) (f : Thread → Thread)

@[simp] theorem setThread_cpu : (s.setThread t f).cpu = s.cpu := rfl

@[simp] theorem setThread_context : (s.setThread t f).context = s.context := rfl

@[simp] theorem setThread_thread_self : (s.setThread t f).thread t = f (s.thread t) :=
  Function.update_self ..

@[simp] theorem setThread_thread_of_ne {t u : T} (h : u ≠ t) :
    (s.setThread t f).thread u = s.thread u :=
  Function.update_of_ne h ..

@[simp] theorem updateHeir_thread (h : T) (b : Bool) : (updateHeir s h b).thread = s.thread := by
  unfold updateHeir
  split <;> rfl

@[simp] theorem updateHeir_context (h : T) (b : Bool) :
    (updateHeir s h b).context = s.context := by
  unfold updateHeir
  split <;> rfl

theorem updateHeir_false_eq_self {h : T}
    (hs : (s.thread s.cpu.heir).isPreemptible = true → h = s.cpu.heir) :
    updateHeir s h false = s := by
  unfold updateHeir
  refine if_neg ?_
  rintro ⟨hne, hp⟩
  exact hne (hs (by simpa using hp)).symm

theorem updateHeir_force {h : T}
    (hs : (s.thread s.cpu.heir).isPreemptible = true ∨ s.cpu.heir = h) :
    updateHeir s h false = updateHeir s h true := by
  unfold updateHeir
  rcases hs with hs | hs <;> simp [hs]

end Lemmas

end Rtems.Scheduler.Uniprocessor
