import Rtems.Core.Directory
import Rtems.Models.ThreadQueue.State

/-!
# Priority thread queues with SMP

With more than one scheduler the heads of a thread queue hold one priority queue for
each scheduler and a chain `Fifo` of them, and a thread has one scheduler node for each
scheduler and a chain `Wait_nodes` of those that contribute a priority. One thread
queue is modelled, with the threads that use it and the owner that inherits from it;
what other thread queues do to these threads arrives as priority actions. The heads
are absent exactly if nobody waits, since every waiting thread has lent its spare ones.
-/

namespace Rtems.ThreadQueue.Smp

variable {κ T S : Type} [DecidableEq κ] [DecidableEq T] [DecidableEq S]

/-- One priority aggregation for each scheduler and the chain that lists them. -/
structure Directory (κ S : Type) where
  /-- The aggregation of each scheduler. -/
  queue : S → Aggregation κ
  /-- The linked aggregations. -/
  chain : List S

namespace Directory

/-- Replace the aggregation of one scheduler. -/
def setQueue (d : Directory κ S) (i : S) (a : Aggregation κ) : Directory κ S :=
  { d with queue := Function.update d.queue i a }

variable (key : S → κ → Nat)

/-- Insert a node; an aggregation that was empty is linked. This is `_Priority_Insert`
with an `add` handler that links, and the body of the loop that enqueues. -/
def insert (d : Directory κ S) (i : S) (node : κ) :
    Option (Directory κ S × Option ActionType) :=
  if (d.queue i).isEmpty then
    (link d.chain i).map fun chain =>
      ({ d.setQueue i (Aggregation.initializedOne (key i) node) with chain }, some .add)
  else
    let (a, isChanged) := Aggregation.nonEmptyInsert (key i) (d.queue i) node
    some (d.setQueue i a, if isChanged then some .change else none)

/-- Extract a node; an aggregation that becomes empty is unlinked. This is
`_Priority_Extract` with a `remove` handler that unlinks. -/
def extract (d : Directory κ S) (i : S) (node : κ) :
    Option (Directory κ S × Option ActionType) :=
  match Aggregation.extract (key i) (d.queue i) node with
  | (a, .nothing) => some (d.setQueue i a, none)
  | (a, .changed) => some (d.setQueue i a, some .change)
  | (a, .removed) => (unlink d.chain i).map fun chain =>
      ({ d.setQueue i a with chain }, some .remove)

/-- `_Priority_Changed`. -/
def changed (d : Directory κ S) (i : S) (node : κ) :
    Option (Directory κ S × Option ActionType) :=
  (Aggregation.changed (key i) (d.queue i) node).map fun (a, isChanged) =>
    (d.setQueue i a, if isChanged then some .change else none)

/-- One action of an action list. -/
def perform (d : Directory κ S) (i : S) (type : ActionType) (node : κ) :
    Option (Directory κ S × Option ActionType) :=
  match type with
  | .add => d.insert key i node
  | .remove => d.extract key i node
  | .change => d.changed key i node

/-- Insert a node without a report; an aggregation that was empty is linked. -/
def plainEnqueue (d : Directory κ S) (i : S) (node : κ) :
    Option (Directory κ S × Option ActionType) :=
  if (d.queue i).isEmpty then
    (link d.chain i).map fun chain =>
      ({ d.setQueue i (Aggregation.initializedOne (key i) node) with chain }, none)
  else
    some (d.setQueue i (Aggregation.plainInsert (key i) (d.queue i) node).1, none)

/-- Extract a node without a report; an aggregation that becomes empty is unlinked. -/
def plainExtract (d : Directory κ S) (i : S) (node : κ) :
    Option (Directory κ S × Option ActionType) :=
  let a := (d.queue i).plainExtract node
  if a.isEmpty then
    (unlink d.chain i).map fun chain => ({ d.setQueue i a with chain }, none)
  else
    some (d.setQueue i a, none)

/-- One action of an action list, on the aggregation alone. -/
def plainPerform (d : Directory κ S) (i : S) (type : ActionType) (node : κ) : Directory κ S :=
  match type with
  | .add => d.setQueue i (Aggregation.plainInsert (key i) (d.queue i) node).1
  | .remove => d.setQueue i ((d.queue i).plainExtract node)
  | .change => d.setQueue i (Aggregation.plainChanged (key i) (d.queue i) node)

/-- `_Chain_First`, extracted and appended. -/
def rotation (d : Directory κ S) : Option (Directory κ S) :=
  match d.chain with
  | [] => none
  | i :: rest => some { d with chain := rest ++ [i] }

/-- Run the body of a loop over the items; `_Priority_Actions_add` puts each reported
action in front of the list. -/
def loop {ι : Type} (index : ι → S)
    (body : Directory κ S → ι → Option (Directory κ S × Option ActionType)) :
    Directory κ S → List (S × ActionType) → List ι →
      Option (Directory κ S × List (S × ActionType))
  | d, actions, [] => some (d, actions)
  | d, actions, item :: items => do
    let (d, report) ← body d item
    loop index body d (report.toList.map (fun type => (index item, type)) ++ actions) items

end Directory

/-- Where a priority node of a thread comes from. -/
inductive Source
  | real
  | inherited
  | other (node : Nat)
  deriving DecidableEq, Repr

/-- `Thread_queue_Operations`: the two priority disciplines. -/
inductive Operations
  | priority
  | priorityInherit
  deriving DecidableEq, Repr

/-- A thread queue, its owner and the threads. -/
structure State (T S : Type) where
  /-- `heads->Priority` and `heads->Heads.Fifo`; a scheduler node is named by its owner. -/
  heads : Directory T S
  /-- The owner of `priority_queue->scheduler_node`. -/
  schedulerNode : S → Option T
  /-- The threads enqueued on the thread queue. -/
  waiting : List T
  /-- `queue->owner`. -/
  owner : Option T
  /-- `Wait.Priority` of the scheduler nodes and `Scheduler.Wait_nodes`. -/
  threads : T → Directory Source S
  /-- The priorities of the priority nodes that do not belong to the thread queue. -/
  given : T → S → Source → Nat

namespace State

/-- The priority of a node in the aggregation of a thread. -/
def sourceKey (s : State T S) (t : T) (i : S) : Source → Nat
  | .inherited => (s.heads.queue i).priority
  | source => s.given t i source

/-- The priority of a thread in the priority queue of a scheduler. -/
def threadKey (s : State T S) (i : S) (t : T) : Nat := ((s.threads t).queue i).priority

/-- Replace the scheduler nodes of a thread. -/
def setThread (s : State T S) (t : T) (d : Directory Source S) : State T S :=
  { s with threads := Function.update s.threads t d }

section

variable (s : State T S) (t : T) (d : Directory Source S)
include s t d
omit [DecidableEq S]

@[simp] theorem setThread_heads :
    (s.setThread t d).heads = s.heads := rfl

@[simp] theorem setThread_waiting :
    (s.setThread t d).waiting = s.waiting := rfl

@[simp] theorem setThread_owner :
    (s.setThread t d).owner = s.owner := rfl

@[simp] theorem setThread_schedulerNode :
    (s.setThread t d).schedulerNode = s.schedulerNode := rfl

@[simp] theorem setThread_threads_self :
    (s.setThread t d).threads t = d := by
  simp [setThread]

end

omit [DecidableEq S] in
@[simp] theorem setThread_threads_of_ne (s : State T S) {t u : T}
    (d : Directory Source S) (h : u ≠ t) : (s.setThread t d).threads u = s.threads u := by
  simp [setThread, h]

end State

/-- `_Thread_Priority_do_perform_actions` up to the call of `priority_actions`. -/
def doPerformActions (s : State T S) (t : T) (actions : List (S × ActionType × Source)) :
    Option (State T S × List (S × ActionType)) := do
  let (d, reported) ← Directory.loop Prod.fst
    (fun d (i, type, source) => d.perform (s.sourceKey t) i type source) (s.threads t) [] actions
  some (s.setThread t d, reported)

/-- `_Thread_Priority_perform_actions` of the owner. The walk goes on in another thread
queue if the owner waits there; an owner that waits here is a deadlock. -/
def performOwnerActions (s : State T S) (owner : T) (actions : List (S × ActionType)) :
    Option (State T S) := do
  let (s, reported) ← doPerformActions s owner
    (actions.map fun (i, type) => (i, type, Source.inherited))
  if reported ≠ [] ∧ owner ∈ s.waiting then none else some s

/-- `_Thread_queue_Priority_priority_actions`. -/
def priorityPriorityActions (s : State T S) (t : T) (actions : List (S × ActionType)) :
    State T S :=
  { s with
    heads := actions.foldl (fun d (i, type) => d.plainPerform s.threadKey i type t) s.heads }

/-- `_Thread_queue_Priority_do_initialize`. -/
def priorityDoInitialize (s : State T S) (t : T) : Option (State T S) :=
  match (s.threads t).chain with
  | [] => none
  | home :: rest => do
    let d := { s.heads.setQueue home (Aggregation.initializedOne (s.threadKey home) t) with
      chain := [home] }
    let (heads, _) ← Directory.loop id (fun d i => do
      let chain ← link d.chain i
      some ({ d.setQueue i (Aggregation.initializedOne (s.threadKey i) t) with chain }, none))
      d [] rest
    some { s with heads }

/-- `_Thread_queue_Priority_do_enqueue`. -/
def priorityDoEnqueue (s : State T S) (t : T) : Option (State T S) := do
  let (heads, _) ← Directory.loop id (fun d i => d.plainEnqueue s.threadKey i t)
    s.heads [] (s.threads t).chain
  some { s with heads }

/-- `_Thread_queue_Priority_do_extract`. -/
def priorityDoExtract (s : State T S) (t : T) : Option (State T S) := do
  let (heads, _) ← Directory.loop id (fun d i => d.plainExtract i t)
    s.heads [] (s.threads t).chain
  some { s with heads }

/-- `_Thread_queue_Priority_do_surrender`. -/
def priorityDoSurrender (s : State T S) (t : T) : Option (State T S) := do
  let heads ← s.heads.rotation
  priorityDoExtract { s with heads } t

/-- `_Thread_queue_Priority_first`. -/
def priorityFirst (s : State T S) : Option T :=
  match s.heads.chain with
  | [] => none
  | i :: _ => (s.heads.queue i).minimum

/-- Set `priority_queue->scheduler_node` of the priority queues that have been linked. -/
def setSchedulerNodes (s : State T S) (t : T) (actions : List (S × ActionType)) : S → Option T :=
  fun i => if (i, ActionType.add) ∈ actions then some t else s.schedulerNode i

/-- `_Thread_queue_Priority_inherit_priority_actions`; the result lists the actions for
the owner. -/
def inheritPriorityActions (s : State T S) (t : T) (actions : List (S × ActionType)) :
    Option (State T S × List (S × ActionType)) := do
  let owner ← s.owner
  let (heads, reported) ← Directory.loop Prod.fst
    (fun d (i, type) => d.perform s.threadKey i type t) s.heads [] actions
  some ({ s with heads, schedulerNode := setSchedulerNodes s owner reported }, reported)

/-- `_Thread_queue_Priority_inherit_do_initialize`. -/
def inheritDoInitialize (s : State T S) (t : T) : Option (State T S) :=
  match (s.threads t).chain with
  | [] => none
  | home :: rest => do
    let owner ← s.owner
    let d := { s.heads.setQueue home (Aggregation.initializedOne (s.threadKey home) t) with
      chain := [home] }
    let (heads, actions) ← Directory.loop id (fun d i => do
      let chain ← link d.chain i
      some ({ d.setQueue i (Aggregation.initializedOne (s.threadKey i) t) with chain },
        some .add)) d [(home, .add)] rest
    performOwnerActions { s with heads, schedulerNode := setSchedulerNodes s owner actions }
      owner actions

/-- `_Thread_queue_Priority_inherit_do_enqueue`. -/
def inheritDoEnqueue (s : State T S) (t : T) : Option (State T S) := do
  let owner ← s.owner
  let (heads, actions) ← Directory.loop id (fun d i => d.insert s.threadKey i t)
    s.heads [] (s.threads t).chain
  performOwnerActions { s with heads, schedulerNode := setSchedulerNodes s owner actions }
    owner actions

/-- `_Thread_queue_Priority_inherit_do_extract`. -/
def inheritDoExtract (s : State T S) (t : T) : Option (State T S) := do
  let owner ← s.owner
  let (heads, actions) ← Directory.loop id (fun d i => d.extract s.threadKey i t)
    s.heads [] (s.threads t).chain
  performOwnerActions { s with heads } owner actions

/-- The first loop of `_Thread_queue_Priority_inherit_do_surrender`: the priority node
of each priority queue leaves the previous owner. -/
def surrenderRemove (s : State T S) (i : S) : Option (State T S) := do
  let previousOwner ← s.schedulerNode i
  let (d, _) ← (s.threads previousOwner).extract (s.sourceKey previousOwner) i .inherited
  some (s.setThread previousOwner d)

/-- The last loop of `_Thread_queue_Priority_inherit_do_surrender`: the priority node of
each remaining priority queue goes to the new owner. -/
def surrenderAdd (t : T) (s : State T S) (i : S) : Option (State T S) := do
  let s := { s with schedulerNode := Function.update s.schedulerNode i (some t) }
  let (d, _) ← (s.threads t).insert (s.sourceKey t) i .inherited
  some (s.setThread t d)

/-- `_Thread_queue_Priority_inherit_do_surrender`. -/
def inheritDoSurrender (s : State T S) (t : T) : Option (State T S) := do
  let heads ← s.heads.rotation
  let s := { s with heads }
  -- from the rotated priority queue at the end backwards to the head
  let s ← s.heads.chain.reverse.foldlM surrenderRemove s
  let (heads, _) ← Directory.loop id (fun d i => d.extract s.threadKey i t)
    s.heads [] (s.threads t).chain
  let s := { s with heads }
  s.heads.chain.foldlM (surrenderAdd t) s

/-- `_Thread_queue_Queue_enqueue` with the functions of the operations. -/
def enqueue (ops : Operations) (s : State T S) (t : T) : Option (State T S) :=
  let s' := { s with waiting := t :: s.waiting }
  match ops, s.waiting with
  | .priority, [] => priorityDoInitialize s' t
  | .priority, _ :: _ => priorityDoEnqueue s' t
  | .priorityInherit, [] => inheritDoInitialize s' t
  | .priorityInherit, _ :: _ => inheritDoEnqueue s' t

/-- `_Thread_queue_Queue_extract` with the `extract` function of the operations. -/
def extract (ops : Operations) (s : State T S) (t : T) : Option (State T S) :=
  let s' := { s with waiting := s.waiting.erase t }
  match ops with
  | .priority => priorityDoExtract s' t
  | .priorityInherit => inheritDoExtract s' t

/-- `_Thread_queue_Surrender` for a thread queue with heads: the `surrender` function of
the operations and the new owner. -/
def surrender (ops : Operations) (s : State T S) : Option (State T S) := do
  let first ← priorityFirst s
  let s' := { s with waiting := s.waiting.erase first }
  let s' ← match ops with
    | .priority => priorityDoSurrender s' first
    | .priorityInherit => inheritDoSurrender s' first
  some { s' with owner := some first }

/-- The `priority_actions` function of the operations, and for inheritance the next
round of `_Thread_Priority_perform_actions`. -/
def priorityActions (ops : Operations) (s : State T S) (t : T)
    (actions : List (S × ActionType)) : Option (State T S) :=
  match ops with
  | .priority => some (priorityPriorityActions s t actions)
  | .priorityInherit => do
    let (s, reported) ← inheritPriorityActions s t actions
    let owner ← s.owner
    performOwnerActions s owner reported

/-- A change of a priority node of a thread: scheduler, action, node and new priority. -/
abbrev Change (S : Type) := S × ActionType × Source × Nat

/-- The priority nodes get their new priorities. -/
def give (given : S → Source → Nat) (change : Change S) : S → Source → Nat :=
  match change with
  | (_, .remove, _, _) => given
  | (i, _, source, priority) =>
    Function.update given i (Function.update (given i) source priority)

/-- The priority nodes that an action list changes. -/
def changedNodes (changes : List (Change S)) : List (S × ActionType × Source) :=
  changes.map fun (i, type, source, _) => (i, type, source)

/-- `_Thread_Priority_perform_actions` for a thread whose priority nodes change. -/
def performActions (ops : Operations) (s : State T S) (t : T) (changes : List (Change S)) :
    Option (State T S) := do
  let s := { s with given := Function.update s.given t (changes.foldl give (s.given t)) }
  let (s, reported) ← doPerformActions s t (changedNodes changes)
  if reported ≠ [] ∧ t ∈ s.waiting then priorityActions ops s t reported else some s

/-- What happens to the thread queue and its threads. -/
inductive Op (T S : Type)
  | seize (t : T)
  | release
  | enqueue (t : T)
  | extract (t : T)
  | surrender
  | actions (t : T) (changes : List (Change S))

/-- One operation. -/
def step (ops : Operations) (s : State T S) : Op T S → Option (State T S)
  | .seize t => some { s with owner := some t }
  | .release => some { s with owner := none }
  | .enqueue t => enqueue ops s t
  | .extract t => extract ops s t
  | .surrender => surrender ops s
  | .actions t changes => performActions ops s t changes

end Rtems.ThreadQueue.Smp
