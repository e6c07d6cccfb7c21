import Rtems.Core.Run
import Rtems.Models.ThreadQueue.Threads

/-!
# Runs of mutex, timeout, priority and life change operations

An operation is taken together with the fuel of its walks. Callers promise that the
executing thread does not wait, that a new priority node is in no tree, and that the
real priority node of a thread stays. Under these promises every operation returns and
keeps the invariant, so the invariant holds in every state reached.
-/

namespace Rtems.ThreadQueue

variable {T Q N : Type*}

/-- The operations of the system. -/
inductive Op (T Q N : Type*)
  | seize (q : Q) (executing : T) (wait : Bool)
  | surrender (q : Q) (executing : T)
  | timeout (t : T)
  | extract (t : T)
  | priorityAdd (t : T) (node : N) (priority : Nat)
  | priorityChange (t : T) (node : N) (priority : Nat) (prependIt : Bool)
  | priorityRemove (t : T) (node : N)
  | cancel (t executing : T)
  | restart (t : T)

/-- What the callers of the operations promise. -/
def Legal (C : Config T N) (s : State T Q N) : Op T Q N → Prop
  | .seize _ executing _ => s.waits executing = none
  | .surrender _ executing => s.waits executing = none
  | .timeout _ => True
  | .extract _ => True
  | .priorityAdd _ node _ => ∀ u, .own node ∉ (s.thread u).waitPriority.contributors
  | .priorityChange t node _ _ => .own node ∈ (s.thread t).waitPriority.contributors
  | .priorityRemove t node =>
    .own node ∈ (s.thread t).waitPriority.contributors ∧ node ≠ C.realPriority t
  | .cancel t executing => t ≠ executing
  | .restart _ => True

/-- The own nodes of the threads after an operation. -/
def ownStep (own : T → N → Prop) : Op T Q N → T → N → Prop
  | .priorityAdd t node _ => fun u n => own u n ∨ u = t ∧ n = node
  | .priorityRemove t node => fun u n => own u n ∧ ¬ (u = t ∧ n = node)
  | _ => own

/-- The own nodes of the threads after the operations: the real priority node and what was
added and not removed. -/
def ownNodes (C : Config T N) (actions : List (Nat × Op T Q N)) : T → N → Prop :=
  actions.foldl (fun own action => ownStep own action.2) fun t node => node = C.realPriority t

/-- Nobody waits and every thread has its real priority. -/
structure Initialized (C : Config T N) (s : State T Q N) : Prop where
  waits : ∀ t, s.waits t = none
  contributors : ∀ t, (s.thread t).waitPriority =
    ⟨[.own (C.realPriority t)], s.nodePriority (C.realPriority t)⟩
  told : Told s
  waitingForMutex : ∀ t, (s.thread t).waitingForMutex = false
  alive : Alive s
  queued : Queued s
  queue : ∀ q, s.owner q = none ∧ s.waiters q = []
  real : Function.Injective C.realPriority

variable [DecidableEq T] [DecidableEq Q] [DecidableEq N]

/-- One operation, with the fuel of its walks. -/
def step (C : Config T N) (s : State T Q N) : Nat × Op T Q N → Option (State T Q N)
  | (fuel, .seize q executing wait) =>
    (recursiveMutexSeize fuel s q executing wait).map Prod.fst
  | (_, .surrender q executing) => (recursiveMutexSurrender s q executing).map Prod.fst
  | (fuel, .timeout t) => threadContinue fuel s t .timeout
  | (fuel, .extract t) => threadQueueExtract fuel s t
  | (fuel, .priorityAdd t node priority) => threadPriorityAdd fuel s t node priority
  | (fuel, .priorityChange t node priority prependIt) =>
    threadPriorityChange fuel s t node priority prependIt
  | (fuel, .priorityRemove t node) => threadPriorityRemove fuel s t node
  | (fuel, .cancel t executing) => threadCancel C fuel s t executing
  | (fuel, .restart t) => threadRestartOther C fuel s t

instance (C : Config T N) [Fintype T] (s : State T Q N) : (op : Op T Q N) →
    Decidable (Legal C s op)
  | .seize _ executing _ => inferInstanceAs (Decidable (s.waits executing = none))
  | .surrender _ executing => inferInstanceAs (Decidable (s.waits executing = none))
  | .timeout _ => inferInstanceAs (Decidable True)
  | .extract _ => inferInstanceAs (Decidable True)
  | .priorityAdd _ node _ => inferInstanceAs
    (Decidable (∀ u, .own node ∉ (s.thread u).waitPriority.contributors))
  | .priorityChange t node _ _ => inferInstanceAs
    (Decidable (.own node ∈ (s.thread t).waitPriority.contributors))
  | .priorityRemove t node => inferInstanceAs
    (Decidable (.own node ∈ (s.thread t).waitPriority.contributors ∧ node ≠ C.realPriority t))
  | .cancel t executing => inferInstanceAs (Decidable (t ≠ executing))
  | .restart _ => inferInstanceAs (Decidable True)

variable {C : Config T N} {own : T → N → Prop} {s s' : State T Q N}

/-- The step does not depend on the fuel. -/
theorem steady_step (C : Config T N) (s : State T Q N) (op : Op T Q N) :
    Steady fun n => step C s (n, op) := by
  cases op with
  | seize q executing wait => exact (steady_recursiveMutexSeize s q executing wait).map _
  | surrender q executing => exact steady_const _
  | timeout t => exact steady_threadContinue s t .timeout
  | extract t => exact steady_threadQueueExtract s t
  | priorityAdd t node priority => exact steady_threadPriorityAdd s t node priority
  | priorityChange t node priority prependIt =>
    exact steady_threadPriorityChange s t node priority prependIt
  | priorityRemove t node => exact steady_threadPriorityRemove s t node
  | cancel t executing => exact steady_threadCancel C s t executing
  | restart t => exact steady_threadRestartOther C s t

omit [DecidableEq T] [DecidableEq Q] [DecidableEq N] in
/-- Being an own node is being in the tree. -/
theorem Invariant.own_iff (h : Invariant C own s) (t : T) (node : N) :
    .own node ∈ (s.thread t).waitPriority.contributors ↔ own t node :=
  (h.settled.threads t).mem (.own node)

/-- An operation that tells the scheduler nothing about other threads whose priority it
may change. -/
def Silent (C : Config T N) (s : State T Q N) : Op T Q N → Prop
  | .extract t => ¬ Undisturbed s t
  | .cancel t _ => C.isLifeChangeAllowed t = true ∧ ¬ Undisturbed (threadAddLifeChangeRequest s t) t
  | .restart t => C.isLifeChangeAllowed t = true ∧ ¬ Undisturbed (threadAddLifeChangeRequest s t) t
  | _ => False

/-- What an operation leaves behind. -/
structure Stepped (C : Config T N) (own : T → N → Prop) (s s' : State T Q N)
    (silent : Prop) : Prop where
  invariant : Invariant C own s'
  alive : Alive s'
  queued : Queued s → ¬ silent → Queued s'

omit [DecidableEq T] [DecidableEq Q] [DecidableEq N] in
theorem Outcome.stepped (h : Outcome C own s s') (halive : Alive s) (silent : Prop) :
    Stepped C own s s' silent :=
  ⟨h.invariant, fun t => (h.lifeIsChanging t).trans (halive t), fun hq _ => h.queued hq⟩

omit [DecidableEq Q] [DecidableEq N] in
theorem LifeChanged.stepped {t : T} {undisturbed silent : Prop}
    (h : LifeChanged C own s s' t undisturbed) (halive : Alive s)
    (hsilent : ¬ silent → undisturbed) : Stepped C own s s' silent := by
  refine ⟨h.invariant, fun u => ?_, fun hq hs => h.queued hq (hsilent hs)⟩
  rw [h.lifeIsChanging]
  split
  · rfl
  · exact halive u

/-- Every legal operation returns and keeps the invariant. -/
theorem step_spec (h : Invariant C own s) (halive : Alive s) {op : Op T Q N}
    (hlegal : Legal C s op) :
    ∃ s', Returns (fun n => step C s (n, op)) s' ∧
      Stepped C (ownStep own op) s s' (Silent C s op) := by
  cases op with
  | seize q executing wait =>
    obtain ⟨n, hn⟩ := recursiveMutexSeize_spec h hlegal q wait
    refine (steady_step C s _).exists_returns ⟨n, fun m hm => ?_⟩
    obtain ⟨s', status, hres, houtcome⟩ := hn m hm
    exact ⟨s', by rw [step, hres]; rfl, houtcome.stepped halive _⟩
  | surrender q executing =>
    obtain ⟨s', status, hres, houtcome⟩ := recursiveMutexSurrender_spec h hlegal q
    exact ⟨s', ⟨0, fun n _ => by simp [step, hres]⟩, houtcome.stepped halive _⟩
  | timeout t =>
    obtain ⟨s', hret, houtcome⟩ :=
      (steady_threadContinue s t .timeout).exists_returns (threadContinue_spec h t .timeout)
    exact ⟨s', hret, houtcome.stepped halive _⟩
  | extract t =>
    obtain ⟨s', hret, hinvariant, hlife, -, -, -, hqueued⟩ :=
      (steady_threadQueueExtract s t).exists_returns (threadQueueExtract_spec h t)
    refine ⟨s', hret, hinvariant, fun u => (hlife u).trans (halive u), fun hq hsilent => ?_⟩
    obtain ⟨n, hn⟩ := hret
    exact hqueued hq (Classical.not_not.mp hsilent n s' (hn n le_rfl))
  | priorityAdd t node priority =>
    obtain ⟨s', hret, houtcome⟩ := (steady_threadPriorityAdd s t node priority).exists_returns
      (threadPriorityAdd_spec h (fun u hu => hlegal u ((h.own_iff u node).mpr hu)) t priority)
    exact ⟨s', hret, houtcome.stepped halive _⟩
  | priorityChange t node priority prependIt =>
    obtain ⟨s', hret, houtcome⟩ :=
      (steady_threadPriorityChange s t node priority prependIt).exists_returns
        (threadPriorityChange_spec h ((h.own_iff t node).mp hlegal) priority prependIt)
    exact ⟨s', hret, houtcome.stepped halive _⟩
  | priorityRemove t node =>
    obtain ⟨s', hret, houtcome⟩ := (steady_threadPriorityRemove s t node).exists_returns
      (threadPriorityRemove_spec h ((h.own_iff t node).mp hlegal.1) hlegal.2)
    exact ⟨s', hret, houtcome.stepped halive _⟩
  | cancel t executing =>
    obtain ⟨s', hret, hchanged⟩ := threadCancel_spec h t executing
    refine ⟨s', hret, hchanged.stepped halive fun hsilent hallowed => ?_⟩
    exact Classical.byContradiction fun hu => hsilent ⟨hallowed, hu⟩
  | restart t =>
    obtain ⟨s', hret, hchanged⟩ := threadRestartOther_spec h halive t
    refine ⟨s', hret, hchanged.stepped halive fun hsilent hallowed => ?_⟩
    exact Classical.byContradiction fun hu => hsilent ⟨hallowed, hu⟩

omit [DecidableEq T] [DecidableEq Q] [DecidableEq N] in
/-- The invariant holds at the start. -/
theorem Initialized.invariant (h : Initialized C s) :
    Invariant C (fun t node => node = C.realPriority t) s where
  settled := by
    refine ⟨fun t => ⟨?_, fun c => ?_⟩, fun q => ⟨?_, fun t => ?_, ?_⟩⟩
    · rw [h.contributors]
      have hok : (Aggregation.initializedOne s.nodeKey (.own (C.realPriority t))).Ok s.nodeKey :=
        Aggregation.ok_initializedOne _
      exact hok
    · rw [h.contributors]
      cases c with
      | own node => simp [Wanted]
      | queue q => simp [Wanted, (h.queue q).1]
    · have hnil : (s.queue q).heads.contributors = [] := (h.queue q).2
      refine ⟨by rw [hnil]; exact List.nodup_nil, by rw [hnil]; exact sortedBy_nil, ?_⟩
      intro min hmin
      simp [Aggregation.minimum, hnil] at hmin
    · simp [(h.queue q).2, h.waits t]
    · simp [(h.queue q).2]
  acyclic := acyclic_of_forall_none h.waits
  real _ := rfl
  disjoint t u node ht hu := h.real (ht.symm.trans hu)
  told := h.told
  blocked t := by rw [h.waits, h.waitingForMutex]; rfl
  finite := by simp [h.waits]

/-- The invariant holds in every state reached. -/
theorem invariant_of_run {start : State T Q N} {actions : List (Nat × Op T Q N)}
    (hstart : Initialized C start)
    (hrun : Run (step C) (fun s action => Legal C s action.2) start actions s) :
    Invariant C (ownNodes C actions) s ∧ Alive s := by
  induction hrun with
  | nil => exact ⟨hstart.invariant, hstart.alive⟩
  | snoc _ hlegal hstep ih =>
    rename_i actions s s' action _
    obtain ⟨n, op⟩ := action
    obtain ⟨s'', hret, hstepped⟩ := step_spec ih.1 ih.2 hlegal
    cases hret.eq_of_steady (steady_step C s op) hstep
    rw [ownNodes, List.foldl_append]
    exact ⟨hstepped.invariant, hstepped.alive⟩

section AtRest

/-- Three threads whose first three nodes are the real ones. -/
def threeThreads : Config (Fin 3) (Fin 4) where
  realPriority := Fin.castSucc
  initialPriority t := 30 - 10 * t.val
  isLifeChangeAllowed _ := true

/-- Three threads with the priorities 30, 20 and 10, two free queues and a spare node. -/
def atRest : State (Fin 3) (Fin 2) (Fin 4) where
  nodePriority node := 30 - 10 * node.val
  thread t :=
    { waitQueue := none
      returnCode := .successful
      waitPriority := ⟨[.own t.castSucc], 30 - 10 * t.val⟩
      value := 30 - 10 * t.val
      prependIt := false
      currentPriority := 30 - 10 * t.val
      waitingForMutex := false
      lifeIsChanging := false }
  queue _ := { owner := none, nestLevel := 0, heads := ⟨[], 0⟩, schedulerNode := none }

theorem initialized_atRest : Initialized threeThreads atRest where
  waits _ := rfl
  contributors _ := rfl
  told _ := rfl
  waitingForMutex _ := rfl
  alive _ := rfl
  queued _ _ := rfl
  queue _ := ⟨rfl, rfl⟩
  real := Fin.castSucc_injective 3

end AtRest

end Rtems.ThreadQueue
