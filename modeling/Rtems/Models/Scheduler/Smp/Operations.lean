import Rtems.Models.Scheduler.Smp.State

/-!
# Multiprocessor scheduling operations

The operations shared by the multiprocessor schedulers, over the functions that each
scheduler passes to them. The two loops of the source take a bound on their number of
iterations; an iteration that does not schedule a node takes one off the ready set.
-/

namespace Rtems.Scheduler.Smp

/-- The functions a scheduler passes to the shared operations. -/
structure Callbacks (T C R : Type*) where
  getHighestReady : State T C R → T → Option T
  getLowestScheduled : State T C R → T → Option T
  extractFromReady : State T C R → T → State T C R
  insertReadyLifo : State T C R → T → State T C R
  insertReadyFifo : State T C R → T → State T C R
  moveFromScheduledToReady : State T C R → T → State T C R
  moveFromReadyToScheduled : State T C R → T → State T C R
  doUpdate : State T C R → T → Nat → State T C R
  allocateProcessor : State T C R → T → T → C → State T C R
  registerIdle : State T C R → T → C → State T C R

variable {T C R : Type*} [DecidableEq T] [DecidableEq C] (cb : Callbacks T C R)

/-- `_Scheduler_SMP_Allocate_processor`. -/
def allocateProcessor (s : State T C R) (scheduled victim : T) (victimCpu : C) : State T C R :=
  cb.allocateProcessor (s.nodeChangeState scheduled .scheduled) scheduled victim victimCpu

/-- `_Scheduler_SMP_Preempt`. -/
def preempt (s : State T C R) (scheduled victim : T) : State T C R :=
  let victimThread := (s.node victim).user
  let s := s.nodeChangeState victim .ready
  let victimCpu := (s.thread victimThread).cpu
  let s :=
    if (s.thread victimThread).state = .scheduled then s.threadChangeState victimThread .ready
    else s
  allocateProcessor cb s scheduled victim victimCpu

/-- `_Scheduler_SMP_Enqueue_to_scheduled`. -/
def enqueueToScheduled (insertScheduled : State T C R → T → State T C R) (s : State T C R)
    (n lowestScheduled : T) : Option (State T C R) :=
  (s.tryToScheduleNode n (s.node lowestScheduled).idle).bind fun (s, action) =>
    match action with
    | .doSchedule =>
      let s := preempt cb s n lowestScheduled
      let s := insertScheduled s n
      let s := cb.moveFromScheduledToReady s lowestScheduled
      some (s.releaseIdleThread lowestScheduled).1
    | .doIdleExchange =>
      let s := s.nodeChangeState lowestScheduled .ready
      let s := s.nodeChangeState n .scheduled
      let s := insertScheduled s n
      let s := cb.moveFromScheduledToReady s lowestScheduled
      (s.node lowestScheduled).idle.map fun idle => s.exchangeIdleThread n lowestScheduled idle
    | .doBlock => some (s.nodeChangeState n .blocked)

/-- `_Scheduler_SMP_Enqueue_ordered`: the result tells whether the thread needs help. -/
def enqueueOrdered (order : Nat → Nat → Bool)
    (insertReady insertScheduled : State T C R → T → State T C R) (s : State T C R) (n : T) :
    Option (State T C R × Bool) :=
  (cb.getLowestScheduled s n).bind fun lowestScheduled =>
    if order (s.priority n) (s.priority lowestScheduled) then
      (enqueueToScheduled cb insertScheduled s n lowestScheduled).map fun s => (s, false)
    else some (insertReady s n, true)

/-- The first branch of `_Scheduler_SMP_Enqueue_scheduled_ordered`: the node stays. -/
def staysScheduled (insertScheduled : State T C R → T → State T C R) (s : State T C R) (n : T) :
    Option (State T C R) :=
  let s := insertScheduled s n
  if (s.node n).idle.isSome ∧ (s.thread n).state = .ready then
    (s.discardIdleThread n n).map fun s => s.threadChangeState n .scheduled
  else some s

/-- `_Scheduler_SMP_Enqueue_scheduled_ordered`. -/
def enqueueScheduledOrdered (order : Nat → Nat → Bool)
    (insertReady insertScheduled : State T C R → T → State T C R) :
    Nat → State T C R → T → Option (State T C R × Bool)
  | 0, _, _ => none
  | fuel + 1, s, n =>
    (cb.getHighestReady s n).bind fun highestReady =>
      if 0 < (s.node n).stickyLevel ∧ order (s.priority n) (s.priority highestReady) then
        (staysScheduled insertScheduled s n).map fun s => (s, false)
      else
        (s.tryToScheduleNode highestReady (s.node n).idle).bind fun (s, action) =>
          match action with
          | .doSchedule =>
            let s := preempt cb s highestReady n
            let s := insertReady s n
            let s := cb.moveFromReadyToScheduled s highestReady
            let (s, idle) := s.releaseIdleThread n
            some (s, idle.isNone)
          | .doIdleExchange =>
            let s := s.nodeChangeState n .ready
            let s := s.nodeChangeState highestReady .scheduled
            let s := insertReady s n
            let s := cb.moveFromReadyToScheduled s highestReady
            (s.node n).idle.map fun idle => (s.exchangeIdleThread highestReady n idle, false)
          | .doBlock =>
            let s := s.nodeChangeState highestReady .blocked
            let s := cb.extractFromReady s highestReady
            enqueueScheduledOrdered order insertReady insertScheduled fuel s n

/-- `_Scheduler_SMP_Schedule_highest_ready`. -/
def scheduleHighestReady : Nat → State T C R → T → C → Option (State T C R)
  | 0, _, _, _ => none
  | fuel + 1, s, victim, victimCpu =>
    (cb.getHighestReady s victim).bind fun highestReady =>
      (s.tryToScheduleNode highestReady none).bind fun (s, action) =>
        if action = .doSchedule then
          let s := allocateProcessor cb s highestReady victim victimCpu
          some (cb.moveFromReadyToScheduled s highestReady)
        else
          let s := s.nodeChangeState highestReady .blocked
          let s := cb.extractFromReady s highestReady
          scheduleHighestReady fuel s victim victimCpu

/-- `_Scheduler_SMP_Preempt_and_schedule_highest_ready`. -/
def preemptAndScheduleHighestReady : Nat → State T C R → T → Option (State T C R)
  | 0, _, _ => none
  | fuel + 1, s, victim =>
    (cb.getHighestReady s victim).bind fun highestReady =>
      (s.tryToScheduleNode highestReady none).bind fun (s, action) =>
        if action = .doSchedule then
          let s := preempt cb s highestReady victim
          some (cb.moveFromReadyToScheduled s highestReady)
        else
          let s := s.nodeChangeState highestReady .blocked
          let s := cb.extractFromReady s highestReady
          preemptAndScheduleHighestReady fuel s victim

/-- `_Scheduler_*_SMP_Enqueue_lifo`. -/
def enqueueLifo : State T C R → T → Option (State T C R × Bool) :=
  enqueueOrdered cb insertPriorityLifoOrder cb.insertReadyLifo insertScheduledLifo

/-- `_Scheduler_*_SMP_Enqueue_fifo`. -/
def enqueueFifo : State T C R → T → Option (State T C R × Bool) :=
  enqueueOrdered cb insertPriorityFifoOrder cb.insertReadyFifo insertScheduledFifo

/-- `_Scheduler_*_SMP_Enqueue_scheduled_lifo`. -/
def enqueueScheduledLifo (fuel : Nat) : State T C R → T → Option (State T C R × Bool) :=
  enqueueScheduledOrdered cb insertPriorityLifoOrder cb.insertReadyLifo insertScheduledLifo fuel

/-- `_Scheduler_*_SMP_Enqueue_scheduled_fifo`. -/
def enqueueScheduledFifo (fuel : Nat) : State T C R → T → Option (State T C R × Bool) :=
  enqueueScheduledOrdered cb insertPriorityFifoOrder cb.insertReadyFifo insertScheduledFifo fuel

/-- `_Scheduler_SMP_Ask_for_help`, always with the last-in first-out order. -/
def askForHelp (s : State T C R) (n : T) : Option (State T C R) :=
  (cb.getLowestScheduled s n).bind fun lowestScheduled =>
    if (s.thread n).state = .ready then
      match (s.node n).state with
      | .blocked =>
        if insertPriorityLifoOrder (s.priority n) (s.priority lowestScheduled) then
          let s := s.threadChangeState n .scheduled
          let s := preempt cb s n lowestScheduled
          let s := insertScheduledLifo s n
          let s := cb.moveFromScheduledToReady s lowestScheduled
          some (s.releaseIdleThread lowestScheduled).1
        else some (cb.insertReadyLifo (s.nodeChangeState n .ready) n)
      | .scheduled => (s.discardIdleThread n n).map fun s => s.threadChangeState n .scheduled
      | .ready => some s
    else some s

/-- `_Scheduler_SMP_Block`. -/
def block (fuel : Nat) (s : State T C R) (n : T) : Option (State T C R) :=
  let nodeState := (s.node n).state
  (s.blockNode n n (nodeState = .scheduled)).bind fun (s, threadCpu) =>
    match threadCpu with
    | none => some s
    | some threadCpu =>
      let s := s.nodeChangeState n .blocked
      match nodeState with
      | .scheduled => scheduleHighestReady cb fuel (s.extractFromScheduled n) n threadCpu
      | .ready => some (cb.extractFromReady s n)
      | .blocked => some s

/-- `_Scheduler_SMP_Unblock`. -/
def unblock (s : State T C R) (n : T) : Option (State T C R) :=
  let nodeState := (s.node n).state
  (s.unblockNode n n (nodeState = .scheduled)).bind fun (s, unblock) =>
    if unblock then
      let newPriority := (s.node n).value
      let s := if newPriority ≠ s.priority n then cb.doUpdate s n newPriority else s
      if nodeState = .blocked then
        (enqueueFifo cb (s.nodeChangeState n .ready) n).map Prod.fst
      else some s
    else some s

/-- `_Scheduler_SMP_Update_priority`. -/
def updatePriority (fuel : Nat) (s : State T C R) (n : T) : Option (State T C R) :=
  let newPriority := (s.node n).value
  let prependIt := (s.node n).prependIt
  if newPriority = s.priority n then
    if (s.thread n).isReady then askForHelp cb s n else some s
  else
    match (s.node n).state with
    | .scheduled =>
      let s := s.extractFromScheduled n
      let s := cb.doUpdate s n newPriority
      (if prependIt then enqueueScheduledLifo cb fuel s n
        else enqueueScheduledFifo cb fuel s n).map Prod.fst
    | .ready =>
      let s := cb.extractFromReady s n
      let s := cb.doUpdate s n newPriority
      (if prependIt then enqueueLifo cb s n else enqueueFifo cb s n).map Prod.fst
    | .blocked =>
      let s := cb.doUpdate s n newPriority
      if (s.thread n).isReady then askForHelp cb s n else some s

/-- `_Scheduler_SMP_Yield`. -/
def yield (fuel : Nat) (s : State T C R) (n : T) : Option (State T C R) :=
  match (s.node n).state with
  | .scheduled => (enqueueScheduledFifo cb fuel (s.extractFromScheduled n) n).map Prod.fst
  | .ready => (enqueueFifo cb (cb.extractFromReady s n) n).map Prod.fst
  | .blocked => some s

/-- `_Scheduler_SMP_Set_affinity`. -/
def setAffinity (setAffinity : State T C R → T → State T C R) (fuel : Nat) (s : State T C R)
    (n : T) : Option (State T C R) :=
  match (s.node n).state with
  | .scheduled =>
    (preemptAndScheduleHighestReady cb fuel (s.extractFromScheduled n) n).bind fun s =>
      (enqueueFifo cb (setAffinity s n) n).map Prod.fst
  | .ready => (enqueueFifo cb (setAffinity (cb.extractFromReady s n) n) n).map Prod.fst
  | .blocked => some (setAffinity s n)

/-- `_Scheduler_SMP_Do_start_idle`. -/
def startIdle (s : State T C R) (idle : T) (cpu : C) : State T C R :=
  let s := s.threadChangeState idle .scheduled
  let s := s.nodeChangeState idle .scheduled
  let s := s.setCpu idle cpu
  let s := cb.registerIdle s idle cpu
  let s := { s with scheduled := s.scheduled ++ [idle] }
  s.smpReleaseIdleThread idle

/-- `_Thread_Create_idle_for_CPU`: the idle thread is the heir before it is started. -/
def createIdleForCpu (s : State T C R) (idle : T) (cpu : C) : State T C R :=
  let s := s.dispatchUpdateHeir cpu idle
  let s := s.setThread idle fun th => { th with isReady := true }
  startIdle cb s idle cpu

end Rtems.Scheduler.Smp
