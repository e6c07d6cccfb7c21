import Rtems.Models.Scheduler.Smp.Operations

/-!
# EDF SMP scheduler

The earliest-deadline-first scheduler with affinities to all processors or to one. A
processor is its index. A red-black tree of ready nodes is the list of its nodes in
order, and a ready queue on the chain of affine queues is its index.
-/

namespace Rtems.Scheduler.Smp.Edf

/-- `Scheduler_EDF_SMP_Context`, with the fields that it adds to the nodes. -/
structure Context (T : Type*) where
  /-- `Scheduler_EDF_SMP_Node.ready_queue_index`. -/
  readyQueueIndex : T → Nat
  /-- `Scheduler_EDF_SMP_Node.generation`. -/
  generation : T → Int
  generations : Fin 2 → Int
  affineQueues : List Nat
  /-- `Ready[ i ].Queue`. -/
  queue : Nat → List T
  /-- `Ready[ i ].scheduled`. -/
  scheduled : Nat → T

variable {T : Type*} [DecidableEq T]

/-- `_Scheduler_EDF_SMP_Less`. -/
def less (left right : Nat) : Bool := decide (left < right)

/-- `_Scheduler_EDF_SMP_Less_or_equal`. -/
def lessOrEqual (left right : Nat) : Bool := decide (left ≤ right)

namespace Context

/-- The initialised context: no node has an affinity and all queues are empty. -/
def initialized (scheduled : Nat → T) : Context T where
  readyQueueIndex _ := 0
  generation _ := 0
  generations _ := 0
  affineQueues := []
  queue _ := []
  scheduled := scheduled

/-- `_Scheduler_EDF_SMP_Overall_less`. -/
def overallLess (r : Context T) (priority : T → Nat) (left right : T) : Bool :=
  decide (priority left < priority right ∨
    priority left = priority right ∧ r.generation left < r.generation right)

/-- `_Scheduler_EDF_SMP_Challenge_highest_ready`; the source needs a queue that is not
empty. -/
def challengeHighestReady (r : Context T) (priority : T → Nat) (highestReady : T)
    (readyQueue : List T) : Option T :=
  readyQueue.head?.map fun other =>
    if r.overallLess priority other highestReady then other else highestReady

/-- `_Scheduler_EDF_SMP_Get_highest_ready`. -/
def getHighestReady (r : Context T) (priority : T → Nat) (filter : T) : Option T :=
  (r.queue 0).head?.bind fun highestReady =>
    let rqi := r.readyQueueIndex filter
    (if rqi ≠ 0 ∧ r.queue rqi ≠ [] then
        r.challengeHighestReady priority highestReady (r.queue rqi)
      else some highestReady).bind fun highestReady =>
      r.affineQueues.foldlM
        (fun highestReady i => r.challengeHighestReady priority highestReady (r.queue i))
        highestReady

/-- `_Scheduler_EDF_SMP_Set_scheduled`. -/
def setScheduled (r : Context T) (n : T) (cpu : Nat) : Context T :=
  { r with scheduled := Function.update r.scheduled (cpu + 1) n }

/-- `_Scheduler_EDF_SMP_Insert_ready`. -/
def insertReady (r : Context T) (priority : T → Nat) (n : T) (generationIndex : Fin 2)
    (less : Nat → Nat → Bool) : Context T :=
  let rqi := r.readyQueueIndex n
  let increment := 2 * (generationIndex : Int) - 1
  let generation := r.generations generationIndex
  { r with
    generation := Function.update r.generation n generation
    generations := Function.update r.generations generationIndex (generation + increment)
    queue := Function.update r.queue rqi
      (insertBefore (fun next => less (priority n) (priority next)) n (r.queue rqi))
    affineQueues :=
      if rqi ≠ 0 ∧ rqi ∉ r.affineQueues ∧ r.readyQueueIndex (r.scheduled rqi) = 0 then
        r.affineQueues ++ [rqi]
      else r.affineQueues }

/-- `_Scheduler_EDF_SMP_Extract_from_ready`. -/
def extractFromReady (r : Context T) (n : T) : Context T :=
  let rqi := r.readyQueueIndex n
  let queue := (r.queue rqi).erase n
  { r with
    queue := Function.update r.queue rqi queue
    affineQueues :=
      if rqi ≠ 0 ∧ queue = [] ∧ rqi ∈ r.affineQueues then r.affineQueues.erase rqi
      else r.affineQueues }

end Context

/-- `_Scheduler_EDF_SMP_Do_update`. -/
def doUpdate (s : State T Nat (Context T)) (n : T) (newPriority : Nat) :
    State T Nat (Context T) :=
  s.nodeUpdatePriority n newPriority

/-- `_Scheduler_EDF_SMP_Get_lowest_scheduled`. -/
def getLowestScheduled (s : State T Nat (Context T)) (filter : T) : Option T :=
  let rqi := s.context.readyQueueIndex filter
  let node := s.context.scheduled rqi
  if rqi ≠ 0 ∧ 0 < s.context.readyQueueIndex node then some node
  else Smp.getLowestScheduled s filter

/-- `_Scheduler_EDF_SMP_Insert_ready` on the instance. -/
def insertReady (generationIndex : Fin 2) (less : Nat → Nat → Bool)
    (s : State T Nat (Context T)) (n : T) : State T Nat (Context T) :=
  { s with context := s.context.insertReady s.priority n generationIndex less }

/-- `_Scheduler_EDF_SMP_Extract_from_ready` on the instance. -/
def extractFromReady (s : State T Nat (Context T)) (n : T) : State T Nat (Context T) :=
  { s with context := s.context.extractFromReady n }

/-- `_Scheduler_EDF_SMP_Move_from_scheduled_to_ready`. -/
def moveFromScheduledToReady (s : State T Nat (Context T)) (n : T) : State T Nat (Context T) :=
  insertReady 1 less (s.extractFromScheduled n) n

/-- `_Scheduler_EDF_SMP_Move_from_ready_to_scheduled`. -/
def moveFromReadyToScheduled (s : State T Nat (Context T)) (n : T) : State T Nat (Context T) :=
  insertScheduledFifo (extractFromReady s n) n

/-- The ready queue leaves the chain of affine queues if it is on it. -/
def extractAffineQueue (s : State T Nat (Context T)) (rqi : Nat) : State T Nat (Context T) :=
  { s with context := { s.context with affineQueues := s.context.affineQueues.erase rqi } }

/-- `_Scheduler_EDF_SMP_Set_scheduled` followed by
`_Scheduler_SMP_Allocate_processor_exact`. -/
def setScheduledExact (s : State T Nat (Context T)) (n : T) (cpu : Nat) :
    State T Nat (Context T) :=
  allocateProcessorExact { s with context := s.context.setScheduled n cpu } n cpu

/-- `_Scheduler_EDF_SMP_Allocate_processor`: a node with an affinity gets its processor,
and the node scheduled there moves to the victim's. -/
def allocateProcessor (s : State T Nat (Context T)) (scheduled _victim : T) (victimCpu : Nat) :
    State T Nat (Context T) :=
  let rqi := s.context.readyQueueIndex scheduled
  if rqi ≠ 0 then
    let s := extractAffineQueue s rqi
    let desiredCpu := rqi - 1
    if victimCpu ≠ desiredCpu then
      let node := s.context.scheduled rqi
      setScheduledExact (setScheduledExact s node victimCpu) scheduled desiredCpu
    else setScheduledExact s scheduled victimCpu
  else setScheduledExact s scheduled victimCpu

/-- `_Scheduler_EDF_SMP_Register_idle`. -/
def registerIdle (s : State T Nat (Context T)) (idle : T) (cpu : Nat) :
    State T Nat (Context T) :=
  { s with context := s.context.setScheduled idle cpu }

/-- The functions the scheduler passes to the shared operations. -/
def callbacks : Callbacks T Nat (Context T) where
  getHighestReady s filter := s.context.getHighestReady s.priority filter
  getLowestScheduled := getLowestScheduled
  extractFromReady := extractFromReady
  insertReadyLifo := insertReady 0 lessOrEqual
  insertReadyFifo := insertReady 1 less
  moveFromScheduledToReady := moveFromScheduledToReady
  moveFromReadyToScheduled := moveFromReadyToScheduled
  doUpdate := doUpdate
  allocateProcessor := allocateProcessor
  registerIdle := registerIdle

/-- `_Processor_mask_Find_last_set`, counted from one. -/
def findLastSet (mask : List Nat) : Nat := mask.foldr (fun cpu last => max (cpu + 1) last) 0

/-- The ready queue index for an affinity, if it has a processor of the instance. -/
def affinityIndex (processorCount : Nat) (processors affinity : List Nat) : Option Nat :=
  let a := processors.filter fun cpu => cpu ∈ affinity
  if a.length = 0 then none
  else if a.length = processorCount then some 0
  else some (findLastSet a)

/-- `_Scheduler_EDF_SMP_Do_set_affinity`. -/
def doSetAffinity (rqi : Nat) (s : State T Nat (Context T)) (n : T) : State T Nat (Context T) :=
  { s with context :=
      { s.context with
        readyQueueIndex := Function.update s.context.readyQueueIndex n rqi } }

/-- `_Scheduler_EDF_SMP_Set_affinity`; an affinity without a processor of the instance is
refused. -/
def setAffinity (processorCount : Nat) (processors : List Nat) (fuel : Nat)
    (s : State T Nat (Context T)) (n : T) (affinity : List Nat) :
    Option (State T Nat (Context T)) :=
  match affinityIndex processorCount processors affinity with
  | none => some s
  | some rqi => Smp.setAffinity callbacks (doSetAffinity rqi) fuel s n

end Rtems.Scheduler.Smp.Edf
