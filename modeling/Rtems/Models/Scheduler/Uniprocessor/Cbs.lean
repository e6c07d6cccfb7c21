import Mathlib.Algebra.Order.Group.Nat
import Rtems.Models.Scheduler.Uniprocessor.State
import Rtems.Models.ThreadQueue.Aggregation

/-!
# Constant bandwidth server

Threads attached to a server are scheduled by the deadline of their current job until the job is
cancelled. The priority of a thread is the least of its contributors; a deadline is less than
every background priority, which has its highest bit set. The servers are known by their
parameters, and the budget overrun callout is not represented.
-/

namespace Rtems.Scheduler.Uniprocessor.Cbs

open Function ThreadQueue

/-- `SCHEDULER_EDF_PRIO_MSB`. -/
def edfPrioMsb : Nat := 2 ^ 63

/-- `Scheduler_CBS_Parameters` as `_Scheduler_CBS_Create_server` accepts them. -/
structure Parameters where
  /-- `deadline`. -/
  deadline : Nat
  /-- `budget`. -/
  budget : Nat
  /-- The deadline is positive. -/
  deadline_pos : 0 < deadline
  /-- The budget is positive. -/
  budget_pos : 0 < budget

/-- The scheduler context, the CBS nodes of the threads and the priority nodes. -/
structure Context (T N : Type*) where
  /-- `Ready` in tree order. -/
  ready : List T
  /-- `Scheduler_EDF_Node.priority`. -/
  nodePriority : T → Nat
  /-- `Wait.Priority` of the home node. -/
  waitPriority : T → Aggregation N
  /-- `priority` of a priority node. -/
  nodeKey : N → Nat
  /-- `_Priority_Node_is_active`. -/
  isActive : N → Bool
  /-- `cbs_server`. -/
  cbsServer : T → Option Parameters
  /-- `deadline_node`. -/
  deadlineNode : T → Option N
  /-- `cpu_time_budget`. -/
  cpuTimeBudget : T → Nat
  /-- `Watchdog.ticks` of the processor, with which the deadlines are computed. -/
  ticks : Nat

variable {T N : Type*} [DecidableEq T] [DecidableEq N]

/-- `_Thread_Priority_remove` of a thread that is in no thread queue. -/
def threadPriorityRemove (s : State T (Context T N)) (t : T) (node : N) :
    Option (State T (Context T N)) :=
  ((s.context.waitPriority t).extractNonEmpty s.context.nodeKey node).map
    fun (aggregation, changed) =>
      let s := { s with context := { s.context with
        waitPriority := Function.update s.context.waitPriority t aggregation } }
      if changed then s.setThread t (.withPriority aggregation.priority true) else s

/-- `_Scheduler_EDF_Cancel_job`. -/
def edfCancelJob (s : State T (Context T N)) (t : T) (node : N) :
    Option (State T (Context T N)) :=
  (threadPriorityRemove s t node).map fun s =>
    { s with context := { s.context with
      isActive := Function.update s.context.isActive node false } }

/-- `_Scheduler_CBS_Cancel_job`. -/
def cancelJob (s : State T (Context T N)) (t : T) : Option (State T (Context T N)) :=
  match s.context.deadlineNode t with
  | none => some s
  | some node =>
    edfCancelJob { s with context := { s.context with
      deadlineNode := Function.update s.context.deadlineNode t none } } t node

/-- `_Scheduler_EDF_Enqueue`. -/
def edfEnqueue (s : State T (Context T N)) (t : T) (priority : Nat) : State T (Context T N) :=
  { s with context := { s.context with
    ready := insertBefore (fun next => decide (priority < s.context.nodePriority next)) t
      s.context.ready } }

/-- `_Scheduler_EDF_Unblock`. -/
def edfUnblock (s : State T (Context T N)) (t : T) : State T (Context T N) :=
  let priority := (s.thread t).value
  let s := { s with context := { s.context with
    nodePriority := Function.update s.context.nodePriority t priority } }
  let s := edfEnqueue s t priority
  if priority < s.priority s.cpu.heir then
    updateHeir s t (decide (priority = edfPrioMsb + priorityPseudoIsr))
  else s

/-- `_Watchdog_Ticks_since_boot` counts the same ticks in 32 bits. -/
def ticksSinceBoot (ctx : Context T N) : Nat :=
  ctx.ticks % 2 ^ 32

/-- The comparison of the late unblock rule. The remaining budget of the thread is called
`deadline_left` and the time to the deadline `budget_left`. The first product has 64 bits, the
second one the number of bits of `time_t`. -/
def isLate (timeBits : Nat) (server : Parameters) (ctx : Context T N) (t : T)
    (priority : Nat) : Prop :=
  let deadlineLeft := ctx.cpuTimeBudget t
  let budgetLeft := (priority + 2 ^ 64 - ticksSinceBoot ctx) % 2 ^ 64
  server.budget * deadlineLeft % 2 ^ timeBits < server.deadline * budgetLeft % 2 ^ 64

instance (timeBits : Nat) (server : Parameters) (ctx : Context T N) (t : T) (priority : Nat) :
    Decidable (isLate timeBits server ctx t priority) :=
  inferInstanceAs (Decidable (_ < _))

/-- `_Scheduler_CBS_Unblock`. -/
def unblock (timeBits : Nat) (s : State T (Context T N)) (t : T) :
    Option (State T (Context T N)) :=
  let priority := (s.thread t).value
  let ruled :=
    match s.context.cbsServer t with
    | none => some s
    | some server =>
      if priority < edfPrioMsb ∧ isLate timeBits server s.context t priority then cancelJob s t
      else some s
  ruled.map fun s => edfUnblock s t

/-- A thread that is driven by the deadline of its job. -/
structure Driven (s : State T (Context T N)) (t : T) (server : Parameters) (node : N)
    (deadline : Nat) : Prop where
  /-- It is attached to the server. -/
  attached : s.context.cbsServer t = some server
  /-- The job has a priority node. -/
  job : s.context.deadlineNode t = some node
  /-- The tree of the contributors is in order. -/
  ok : (s.context.waitPriority t).Ok s.context.nodeKey
  /-- The node of the job contributes. -/
  contributes : node ∈ (s.context.waitPriority t).contributors
  /-- It has the deadline. -/
  key_eq : s.context.nodeKey node = deadline
  /-- The thread has it, too. -/
  value_eq : (s.thread t).value = deadline
  /-- The scheduler node has the priority of the thread. -/
  least : (s.context.waitPriority t).priority = deadline
  /-- The thread has a real priority beside its job. -/
  real : (s.context.waitPriority t).contributors.erase node ≠ []
  /-- A deadline has its highest bit clear. -/
  deadline_lt : deadline < edfPrioMsb

/-- The thread is ready with the deadline of its job. -/
structure Keeps (s s' : State T (Context T N)) (t : T) (node : N) (deadline : Nat) : Prop where
  /-- The job stays. -/
  job : s'.context.deadlineNode t = some node
  /-- The contributors stay. -/
  contributors : s'.context.waitPriority t = s.context.waitPriority t
  /-- The thread is ready. -/
  ready : t ∈ s'.context.ready
  /-- It is queued with its deadline. -/
  queued : s'.context.nodePriority t = deadline

/-- The job was cancelled and the thread is ready with its background priority. -/
structure Cancels (s s' : State T (Context T N)) (t : T) (node : N) : Prop where
  /-- There is no job any more. -/
  job : s'.context.deadlineNode t = none
  /-- Its node is not active. -/
  inactive : s'.context.isActive node = false
  /-- It left the contributors, and no other one did. -/
  contributors : (s'.context.waitPriority t).contributors =
    (s.context.waitPriority t).contributors.erase node
  /-- The thread is ready. -/
  ready : t ∈ s'.context.ready
  /-- It is queued with the least priority of the others. -/
  queued : IsLeast {p | ∃ c ∈ (s.context.waitPriority t).contributors.erase node,
    s.context.nodeKey c = p} (s'.context.nodePriority t)

variable {s s' : State T (Context T N)} {t : T} {server : Parameters} {node : N}
  {deadline timeBits : Nat}

omit [DecidableEq N] in
/-- A new heir does not concern the queues. -/
theorem updateHeir_context (s : State T (Context T N)) (t : T) (force : Bool) :
    (updateHeir s t force).context = s.context := by
  unfold updateHeir
  split <;> rfl

omit [DecidableEq N] in
/-- `_Scheduler_EDF_Unblock` queues the thread with the priority of its node. -/
theorem edfUnblock_context (s : State T (Context T N)) (t : T) :
    (edfUnblock s t).context = { s.context with
      nodePriority := update s.context.nodePriority t (s.thread t).value
      ready := insertBefore (fun next => decide ((s.thread t).value <
        update s.context.nodePriority t (s.thread t).value next)) t s.context.ready } := by
  unfold edfUnblock
  simp only
  split
  · rw [updateHeir_context]
    rfl
  · rfl

/-- What `_Thread_Priority_remove` of the job does. -/
theorem threadPriorityRemove_spec (hok : (s.context.waitPriority t).Ok s.context.nodeKey)
    (hnode : node ∈ (s.context.waitPriority t).contributors)
    (hvalue : (s.thread t).value = (s.context.waitPriority t).priority)
    (hreal : (s.context.waitPriority t).contributors.erase node ≠ []) :
    ∃ s', threadPriorityRemove s t node = some s' ∧
      (s'.context.waitPriority t).contributors =
        (s.context.waitPriority t).contributors.erase node ∧
      s'.context.deadlineNode = s.context.deadlineNode ∧
      IsLeast {p | ∃ c ∈ (s.context.waitPriority t).contributors.erase node,
        s.context.nodeKey c = p} (s'.thread t).value := by
  obtain ⟨hok', hcontributors, -, hsame⟩ := Aggregation.extract_spec hok hnode
  have hleast := hok'.isLeast (by rwa [hcontributors])
  rw [hcontributors] at hleast
  unfold threadPriorityRemove
  rw [Aggregation.extractNonEmpty_eq hreal, Option.map_some]
  refine ⟨_, rfl, ?_⟩
  by_cases hchanged : (Aggregation.extract s.context.nodeKey (s.context.waitPriority t) node).2 =
      .changed
  · simp only [hchanged, decide_true, if_true]
    refine ⟨?_, rfl, ?_⟩
    · simpa [State.setThread] using hcontributors
    · simpa [State.setThread, Thread.withPriority] using hleast
  · have hfalse : decide ((Aggregation.extract s.context.nodeKey (s.context.waitPriority t)
        node).2 = .changed) = false := decide_eq_false hchanged
    simp only [hfalse, Bool.false_eq_true, if_false]
    refine ⟨?_, trivial, ?_⟩
    · simpa using hcontributors
    · rw [hvalue, ← hsame hchanged]
      exact hleast

/-- The job is cancelled once and the thread queued with the least priority of the others. -/
theorem Driven.cancel_unblock (h : Driven s t server node deadline) :
    ∃ s', (cancelJob s t).map (fun s => edfUnblock s t) = some s' ∧ Cancels s s' t node := by
  obtain ⟨s', hs', hcontributors, hdeadline, hleast⟩ := @threadPriorityRemove_spec T N _ _
    { s with context := { s.context with
      deadlineNode := update s.context.deadlineNode t none } } t node
    h.ok h.contributes (h.value_eq.trans h.least.symm) h.real
  unfold cancelJob
  rw [h.job]
  simp only [edfCancelJob]
  rw [hs']
  refine ⟨_, rfl, ?_⟩
  constructor
  · rw [edfUnblock_context]
    show s'.context.deadlineNode t = none
    rw [hdeadline]
    exact update_self ..
  · rw [edfUnblock_context]
    exact update_self ..
  · rw [edfUnblock_context]
    exact hcontributors
  · rw [edfUnblock_context]
    exact mem_insertBefore.mpr (.inl rfl)
  · rw [edfUnblock_context]
    show IsLeast _ (update s'.context.nodePriority t (s'.thread t).value t)
    rw [update_self]
    exact hleast

omit [DecidableEq N] in
/-- Without the rule the thread is queued with its deadline. -/
theorem Driven.keep_unblock [DecidableEq N] (h : Driven s t server node deadline) :
    Keeps s (edfUnblock s t) t node deadline := by
  constructor
  · rw [edfUnblock_context]
    exact h.job
  · rw [edfUnblock_context]
  · rw [edfUnblock_context]
    exact mem_insertBefore.mpr (.inl rfl)
  · rw [edfUnblock_context]
    show update s.context.nodePriority t (s.thread t).value t = deadline
    rw [update_self, h.value_eq]

/-- What the late unblock rule wants: the thread stays deadline driven if and only if serving the
remaining budget does not increase its utilisation, and otherwise its job is cancelled. -/
structure FollowsRule (s s' : State T (Context T N)) (t : T) (server : Parameters) (node : N)
    (deadline : Nat) : Prop where
  /-- The thread is kept with its deadline if the utilisation allows it, and only then. -/
  keeps_iff : Keeps s s' t node deadline ↔
    s.context.cpuTimeBudget t * server.deadline ≤ server.budget * (deadline - s.context.ticks)
  /-- Otherwise it goes to the background. -/
  cancels : ¬s.context.cpuTimeBudget t * server.deadline ≤
    server.budget * (deadline - s.context.ticks) → Cancels s s' t node

/-- Exchanging the remaining budget and the time to the deadline does not matter. -/
def Exchangeable (server : Parameters) (budgetLeft timeLeft : Nat) : Prop :=
  server.budget * max budgetLeft timeLeft < server.deadline * min budgetLeft timeLeft ∨
    server.deadline * max budgetLeft timeLeft ≤ server.budget * min budgetLeft timeLeft

/-- The tick counter has not wrapped and both products fit their types. -/
def Fits (timeBits : Nat) (server : Parameters) (budgetLeft deadline ticks : Nat) : Prop :=
  ticks < 2 ^ 32 ∧ server.deadline * (deadline - ticks) < 2 ^ 64 ∧
    server.budget * budgetLeft < 2 ^ timeBits

/-- The numbers of the source compare as those of the rule: as long as they fit their types this
is about the exchange of two of them only, and else the wrapped products have to compare so. -/
structure Agrees (timeBits : Nat) (server : Parameters) (budgetLeft deadline ticks : Nat) :
    Prop where
  /-- Without overflow. -/
  exchange : Fits timeBits server budgetLeft deadline ticks →
    Exchangeable server budgetLeft (deadline - ticks)
  /-- With overflow. -/
  wrapped : ¬Fits timeBits server budgetLeft deadline ticks →
    (server.budget * budgetLeft % 2 ^ timeBits <
        server.deadline * (deadline - ticks % 2 ^ 32) % 2 ^ 64 ↔
      server.budget * (deadline - ticks) < server.deadline * budgetLeft)

/-- Numbers are exchangeable if and only if the source's inequality is the one of the rule. -/
theorem exchangeable_iff {b x : Nat} : Exchangeable server b x ↔
    (server.budget * b < server.deadline * x ↔ server.budget * x < server.deadline * b) := by
  unfold Exchangeable
  rcases Nat.le_total b x with hle | hle
  · rw [max_eq_right hle, min_eq_left hle]
    have hbudget := Nat.mul_le_mul_left server.budget hle
    have hdeadline := Nat.mul_le_mul_left server.deadline hle
    omega
  · rw [max_eq_left hle, min_eq_right hle]
    have hbudget := Nat.mul_le_mul_left server.budget hle
    have hdeadline := Nat.mul_le_mul_left server.deadline hle
    omega

omit [DecidableEq T] [DecidableEq N] in
/-- The comparison of the source in terms of the ticks. -/
theorem isLate_iff {ctx : Context T N} (hlt : deadline < edfPrioMsb)
    (hticks : ctx.ticks ≤ deadline) : isLate timeBits server ctx t deadline ↔
    server.budget * ctx.cpuTimeBudget t % 2 ^ timeBits <
      server.deadline * (deadline - ctx.ticks % 2 ^ 32) % 2 ^ 64 := by
  have hleft : (deadline + 2 ^ 64 - ticksSinceBoot ctx) % 2 ^ 64 =
      deadline - ctx.ticks % 2 ^ 32 := by
    unfold edfPrioMsb at hlt
    unfold ticksSinceBoot
    omega
  unfold isLate
  simp only [hleft]

/-- The source's comparison is the one of the rule if and only if the numbers agree. -/
theorem agrees_iff {b ticks : Nat} : Agrees timeBits server b deadline ticks ↔
    (server.budget * b % 2 ^ timeBits <
        server.deadline * (deadline - ticks % 2 ^ 32) % 2 ^ 64 ↔
      server.budget * (deadline - ticks) < server.deadline * b) := by
  by_cases hfits : Fits timeBits server b deadline ticks
  · have hexchange : Agrees timeBits server b deadline ticks ↔
        Exchangeable server b (deadline - ticks) :=
      ⟨fun h => h.exchange hfits, fun h => ⟨fun _ => h, fun hnot => absurd hfits hnot⟩⟩
    rw [hexchange, exchangeable_iff, Nat.mod_eq_of_lt hfits.1, Nat.mod_eq_of_lt hfits.2.1,
      Nat.mod_eq_of_lt hfits.2.2]
  · exact ⟨fun h => h.wrapped hfits, fun h => ⟨fun hc => absurd hc hfits, fun _ => h⟩⟩

/-- A late job is cancelled and any other one kept. -/
theorem Driven.unblock_spec (timeBits : Nat) (h : Driven s t server node deadline) :
    ∃ s', unblock timeBits s t = some s' ∧
      (isLate timeBits server s.context t deadline → Cancels s s' t node) ∧
      (¬isLate timeBits server s.context t deadline → Keeps s s' t node deadline) := by
  unfold unblock
  simp only [h.attached, h.value_eq]
  by_cases hlate : isLate timeBits server s.context t deadline
  · rw [if_pos ⟨h.deadline_lt, hlate⟩]
    obtain ⟨s', hs', hcancels⟩ := h.cancel_unblock
    exact ⟨s', hs', fun _ => hcancels, fun hnot => absurd hlate hnot⟩
  · rw [if_neg fun hc => hlate hc.2]
    exact ⟨_, rfl, fun hc => absurd hc hlate, fun _ => h.keep_unblock⟩

omit [DecidableEq T] in
/-- A job that was cancelled is not kept. -/
theorem Cancels.not_keeps (h : Cancels s s' t node) : ¬Keeps s s' t node deadline := by
  intro hkeeps
  have hjob := hkeeps.job
  rw [h.job] at hjob
  cases hjob

/-- A server with a tenth of the processor. -/
def tenth : Parameters := ⟨10, 1, by decide, Nat.one_pos⟩

/-- At tick 100 a thread with a job until tick 110 is unblocked while an idle thread runs. -/
def lateThread (budgetLeft : Nat) : State Bool (Context Bool Bool) where
  thread t := if t then ⟨true, true, 110, 110, false⟩
    else ⟨true, true, edfPrioMsb + 255, edfPrioMsb + 255, false⟩
  cpu := ⟨false, false, false⟩
  context :=
    { ready := [false]
      nodePriority := fun _ => edfPrioMsb + 255
      waitPriority := fun t => if t then ⟨[true, false], 110⟩ else ⟨[], edfPrioMsb + 255⟩
      nodeKey := fun node => if node then 110 else edfPrioMsb + 5
      isActive := fun node => node
      cbsServer := fun t => if t then some tenth else none
      deadlineNode := fun t => if t then some true else none
      cpuTimeBudget := fun _ => budgetLeft
      ticks := 100 }

/-- The thread is driven by its deadline. -/
theorem lateThread_driven (budgetLeft : Nat) :
    Driven (lateThread budgetLeft) true tenth true 110 where
  attached := rfl
  job := rfl
  ok := by
    constructor
    · show [true, false].Nodup
      decide
    · show List.Pairwise (fun a b : Bool => (if a then 110 else edfPrioMsb + 5) ≤
        if b then 110 else edfPrioMsb + 5) [true, false]
      decide
    · intro min hmin
      cases hmin
      rfl
  contributes := List.mem_cons_self
  key_eq := rfl
  value_eq := rfl
  least := rfl
  real := by
    show [true, false].erase true ≠ []
    decide
  deadline_lt := by decide

end Rtems.Scheduler.Uniprocessor.Cbs
