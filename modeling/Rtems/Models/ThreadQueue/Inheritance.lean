import Rtems.Core.WaitGraph
import Rtems.Models.ThreadQueue.State

/-!
# Priority changes along the owners

An action on the tree of one thread may change the thread's priority, which may change
the priority of the queue it waits on, which is an action on the tree of the queue's
owner. In the middle of the walk every tree is in order but the one that the pending
action is about. The walk ends because the wait graph is acyclic, and then every tree
is in order.
-/

namespace Rtems.ThreadQueue

variable {T Q N : Type*}

namespace State

/-- The queue each thread waits on. -/
def waits (s : State T Q N) (t : T) : Option Q := (s.thread t).waitQueue

/-- The owner of each queue. -/
def owner (s : State T Q N) (q : Q) : Option T := (s.queue q).owner

/-- The threads in the tree of a queue. -/
def waiters (s : State T Q N) (q : Q) : List T := (s.queue q).heads.contributors

end State

/-- The nodes that belong in the tree of a thread: its own ones and one for each owned
queue with waiters. -/
def Wanted (own : T → N → Prop) (s : State T Q N) (t : T) : Contributor N Q → Prop
  | .own node => own t node
  | .queue q => s.owner q = some t ∧ ∃ u, u ∈ s.waiters q

/-- The tree of a thread is right. -/
structure ThreadOk (own : T → N → Prop) (s : State T Q N) (t : T) : Prop where
  ok : (s.thread t).waitPriority.Ok s.nodeKey
  mem : ∀ c, c ∈ (s.thread t).waitPriority.contributors ↔ Wanted own s t c

/-- The tree of a queue is right; it holds the waiting threads but those on the way in
or out. -/
structure QueueOk (away : T → Prop) (s : State T Q N) (q : Q) : Prop where
  ok : (s.queue q).heads.Ok s.priority
  mem : ∀ t, t ∈ s.waiters q ↔ s.waits t = some q ∧ ¬ away t
  owner : ∀ t ∈ s.waiters q, ∃ o, s.owner q = some o ∧ (s.queue q).schedulerNode = some o

/-- No action is pending. -/
structure Settled (own : T → N → Prop) (away : T → Prop) (s : State T Q N) : Prop where
  threads : ∀ t, ThreadOk own s t
  queues : ∀ q, QueueOk away s q

/-- What the thread queue operations and the walks leave alone. -/
structure Frame (s s' : State T Q N) : Prop where
  waits : s'.waits = s.waits
  owner : s'.owner = s.owner
  nodePriority : s'.nodePriority = s.nodePriority
  returnCode : ∀ t, (s'.thread t).returnCode = (s.thread t).returnCode
  currentPriority : ∀ t, (s'.thread t).currentPriority = (s.thread t).currentPriority
  waitingForMutex : ∀ t, (s'.thread t).waitingForMutex = (s.thread t).waitingForMutex
  lifeIsChanging : ∀ t, (s'.thread t).lifeIsChanging = (s.thread t).lifeIsChanging

/-- What a change of priorities leaves alone. -/
structure Keeps (s s' : State T Q N) : Prop extends Frame s s' where
  schedulerNode : ∀ q, (s'.queue q).schedulerNode = (s.queue q).schedulerNode
  waiters : ∀ q t, t ∈ s'.waiters q ↔ t ∈ s.waiters q

/-- The scheduler nodes have been told the priorities. -/
def Told (s : State T Q N) : Prop := ∀ t, (s.thread t).value = s.priority t

section Keeps

variable {own : T → N → Prop} {away : T → Prop} {s s' s'' : State T Q N} {t : T} {q : Q}

theorem Frame.refl (s : State T Q N) : Frame s s :=
  ⟨rfl, rfl, rfl, fun _ => rfl, fun _ => rfl, fun _ => rfl, fun _ => rfl⟩

theorem Frame.trans (h : Frame s s') (h' : Frame s' s'') : Frame s s'' where
  waits := h'.waits.trans h.waits
  owner := h'.owner.trans h.owner
  nodePriority := h'.nodePriority.trans h.nodePriority
  returnCode t := (h'.returnCode t).trans (h.returnCode t)
  currentPriority t := (h'.currentPriority t).trans (h.currentPriority t)
  waitingForMutex t := (h'.waitingForMutex t).trans (h.waitingForMutex t)
  lifeIsChanging t := (h'.lifeIsChanging t).trans (h.lifeIsChanging t)

theorem Keeps.trans (h : Keeps s s') (h' : Keeps s' s'') : Keeps s s'' where
  toFrame := h.toFrame.trans h'.toFrame
  schedulerNode q := (h'.schedulerNode q).trans (h.schedulerNode q)
  waiters q t := (h'.waiters q t).trans (h.waiters q t)

theorem Keeps.wanted (h : Keeps s s') {c : Contributor N Q} :
    Wanted own s' t c ↔ Wanted own s t c := by
  cases c with
  | own node => exact .rfl
  | queue q => simp only [Wanted, h.owner, h.waiters]

theorem ThreadOk.congr {own' : T → N → Prop} (h : ThreadOk own s t)
    (hsame : (s'.thread t).waitPriority = (s.thread t).waitPriority)
    (hwanted : ∀ c, Wanted own' s' t c ↔ Wanted own s t c)
    (hkey : ∀ c, Wanted own s t c → s'.nodeKey c = s.nodeKey c) : ThreadOk own' s' t where
  ok := by
    rw [hsame]
    exact h.ok.congr fun c hc => (hkey c ((h.mem c).mp hc)).symm
  mem c := by rw [hsame, h.mem, hwanted]

/-- A thread's tree stays right if neither it nor the priorities of its queues change. -/
theorem ThreadOk.keep (h : ThreadOk own s t) (hk : Keeps s s')
    (hsame : (s'.thread t).waitPriority = (s.thread t).waitPriority)
    (hkey : ∀ q, s.owner q = some t → (s'.queue q).heads.priority = (s.queue q).heads.priority) :
    ThreadOk own s' t := by
  refine h.congr hsame (fun c => hk.wanted) ?_
  intro c hc
  cases c with
  | own node => exact congrFun hk.nodePriority node
  | queue q => exact hkey q hc.1

theorem QueueOk.of_ok (h : QueueOk away s q) (hk : Keeps s s')
    (hok : (s'.queue q).heads.Ok s'.priority) : QueueOk away s' q where
  ok := hok
  mem t := by rw [hk.waiters, h.mem, hk.waits]
  owner t ht := by
    rw [hk.owner, hk.schedulerNode]
    exact h.owner t ((hk.waiters q t).mp ht)

theorem QueueOk.keep (h : QueueOk away s q) (hk : Keeps s s')
    (hsame : (s'.queue q).heads = (s.queue q).heads)
    (hkey : ∀ t ∈ s.waiters q, s'.priority t = s.priority t) : QueueOk away s' q := by
  refine h.of_ok hk ?_
  rw [hsame]
  exact h.ok.congr fun t ht => (hkey t ht).symm

end Keeps

section SetThread

variable [DecidableEq T] {s : State T Q N} {t u : T}

theorem keeps_setWaitPriority (s : State T Q N) (t : T) (a : Aggregation (Contributor N Q)) :
    Keeps s (s.setWaitPriority t a) := by
  refine ⟨⟨funext fun u => ?_, rfl, rfl, fun u => ?_, fun u => ?_, fun u => ?_, fun u => ?_⟩,
    fun _ => rfl, fun _ _ => .rfl⟩ <;>
  by_cases hu : u = t <;>
  simp [State.waits, State.setWaitPriority, State.modifyThread, hu]

theorem keeps_setSchedulerNodePriority (s : State T Q N) (t : T) (prependIt : Bool) :
    Keeps s (s.setSchedulerNodePriority t prependIt) := by
  refine ⟨⟨funext fun u => ?_, rfl, rfl, fun u => ?_, fun u => ?_, fun u => ?_, fun u => ?_⟩,
    fun _ => rfl, fun _ _ => .rfl⟩ <;>
  by_cases hu : u = t <;>
  simp [State.waits, State.setSchedulerNodePriority, State.modifyThread, hu]

@[simp] theorem setWaitPriority_self (a : Aggregation (Contributor N Q)) :
    ((s.setWaitPriority t a).thread t).waitPriority = a := by
  simp [State.setWaitPriority, State.modifyThread]

@[simp] theorem setSchedulerNodePriority_waitPriority (prependIt : Bool) :
    ((s.setSchedulerNodePriority t prependIt).thread u).waitPriority =
      (s.thread u).waitPriority := by
  by_cases hu : u = t
  · subst hu
    simp [State.setSchedulerNodePriority, State.modifyThread]
  · simp [State.setSchedulerNodePriority, State.modifyThread, hu]

/-- Setting the scheduler node of the changed thread tells every scheduler node. -/
theorem Told.set (h : Told s) (t : T) (a : Aggregation (Contributor N Q)) (prependIt : Bool) :
    Told ((s.setWaitPriority t a).setSchedulerNodePriority t prependIt) := by
  intro u
  by_cases hu : u = t
  · subst hu
    simp [State.priority, State.setSchedulerNodePriority, State.setWaitPriority,
      State.modifyThread]
  · simpa [State.priority, State.setSchedulerNodePriority, State.setWaitPriority,
      State.modifyThread, hu] using h u

theorem Told.setWaitPriority (h : Told s) (t : T) (a : Aggregation (Contributor N Q))
    (ha : a.priority = s.priority t) : Told (s.setWaitPriority t a) := by
  intro u
  by_cases hu : u = t
  · subst hu
    simpa [State.priority, State.setWaitPriority, State.modifyThread, ha] using h u
  · simpa [State.priority, State.setWaitPriority, State.modifyThread, hu] using h u

end SetThread

section SetQueue

variable [DecidableEq Q] {s : State T Q N} {q : Q}

/-- The threads of a queue in a new order and with a new least priority. -/
theorem keeps_setHeads (s : State T Q N) (q : Q) (a : Aggregation T)
    (hmem : ∀ t, t ∈ a.contributors ↔ t ∈ s.waiters q) : Keeps s (s.setHeads q a) := by
  refine ⟨⟨rfl, funext fun r => ?_, rfl, fun _ => rfl, fun _ => rfl, fun _ => rfl, fun _ => rfl⟩,
    fun r => ?_, fun r t => ?_⟩ <;>
  by_cases hr : r = q
  · simp [State.owner, State.setHeads, State.modifyQueue, hr]
  · simp [State.owner, State.setHeads, State.modifyQueue, hr]
  · simp [State.setHeads, State.modifyQueue, hr]
  · simp [State.setHeads, State.modifyQueue, hr]
  · subst hr
    simpa [State.waiters, State.setHeads, State.modifyQueue] using hmem t
  · simp [State.waiters, State.setHeads, State.modifyQueue, hr]

@[simp] theorem setHeads_self (a : Aggregation T) : ((s.setHeads q a).queue q).heads = a := by
  simp [State.setHeads, State.modifyQueue]

theorem setHeads_of_ne {r : Q} (a : Aggregation T) (h : r ≠ q) :
    (s.setHeads q a).queue r = s.queue r := by
  simp [State.setHeads, State.modifyQueue, h]

end SetQueue

section Walk

variable [DecidableEq T] [DecidableEq Q] [DecidableEq N] {own : T → N → Prop}
  {away : T → Prop} {s s' : State T Q N} {t : T} {node : Contributor N Q}
  {type : ActionType}

/-- The tree of the thread is right but for the action. -/
def Awaits (own : T → N → Prop) (s : State T Q N) (t : T) (node : Contributor N Q) :
    ActionType → Prop
  | .add =>
    (s.thread t).waitPriority.Ok s.nodeKey ∧ (s.thread t).waitPriority.contributors ≠ [] ∧
      node ∉ (s.thread t).waitPriority.contributors ∧
      ∀ c, Wanted own s t c ↔ c = node ∨ c ∈ (s.thread t).waitPriority.contributors
  | .remove =>
    (s.thread t).waitPriority.Ok s.nodeKey ∧ node ∈ (s.thread t).waitPriority.contributors ∧
      (s.thread t).waitPriority.contributors.erase node ≠ [] ∧
      ∀ c, Wanted own s t c ↔ c ≠ node ∧ c ∈ (s.thread t).waitPriority.contributors
  | .change =>
    (s.thread t).waitPriority.contributors.Nodup ∧
      SortedBy s.nodeKey ((s.thread t).waitPriority.contributors.erase node) ∧
      node ∈ (s.thread t).waitPriority.contributors ∧
      ∀ c, Wanted own s t c ↔ c ∈ (s.thread t).waitPriority.contributors

/-- Every tree is right but the thread's, which waits for the action. -/
structure Pending (own : T → N → Prop) (away : T → Prop) (s : State T Q N) (t : T)
    (node : Contributor N Q) (type : ActionType) : Prop where
  others : ∀ u, u ≠ t → ThreadOk own s u
  queues : ∀ q, QueueOk away s q
  action : Awaits own s t node type

omit [DecidableEq T] in
/-- The action puts the tree right; without a report the thread's priority stays. -/
theorem applyAction_spec (h : Awaits own s t node type) (prependIt : Bool) :
    ∃ a reported prepend, applyAction s t node prependIt type = some (a, reported, prepend) ∧
      a.Ok s.nodeKey ∧ (∀ c, c ∈ a.contributors ↔ Wanted own s t c) ∧
      (reported = false → a.priority = s.priority t) := by
  cases type with
  | add =>
    obtain ⟨hok, hne, hnode, hwanted⟩ := h
    obtain ⟨hok', hmem, hsame⟩ := Aggregation.nonEmptyInsert_spec hok hnode hne
    exact ⟨_, _, _, rfl, hok', fun c => (hmem c).trans (hwanted c).symm, hsame⟩
  | remove =>
    obtain ⟨hok, hnode, hne, hwanted⟩ := h
    obtain ⟨hok', herase, -, hsame⟩ := Aggregation.extract_spec hok hnode
    refine ⟨_, _, _, by rw [applyAction, Aggregation.extractNonEmpty_eq hne]; rfl, hok', ?_, ?_⟩
    · intro c
      rw [herase, hok.nodup.mem_erase_iff, hwanted]
    · intro hreported
      exact hsame (of_decide_eq_false hreported)
  | change =>
    obtain ⟨hnodup, hsorted, hnode, hwanted⟩ := h
    obtain ⟨a, reported, hres, hok', hmem, hsame⟩ :=
      Aggregation.changed_spec hnodup hsorted hnode
    exact ⟨a, reported, _, by rw [applyAction, hres]; rfl, hok',
      fun c => (hmem c).trans (hwanted c).symm, hsame⟩

/-- A tree replaced, and the scheduler node told if the operation reported a change. -/
def State.retree (s : State T Q N) (t : T) (a : Aggregation (Contributor N Q))
    (reported prependIt : Bool) : State T Q N :=
  if reported then (s.setWaitPriority t a).setSchedulerNodePriority t prependIt
  else s.setWaitPriority t a

/-- Every thread's tree is right; one thread may have got a new priority. -/
structure Retreed (own : T → N → Prop) (s s' : State T Q N) (t : T) : Prop where
  keeps : Keeps s s'
  heads : s'.queue = s.queue
  threads : ∀ u, ThreadOk own s' u
  priority : ∀ u, u ≠ t → s'.priority u = s.priority u
  told : Told s → Told s'

omit [DecidableEq Q] [DecidableEq N] in
@[simp] theorem retree_self (a : Aggregation (Contributor N Q)) (reported prependIt : Bool) :
    ((s.retree t a reported prependIt).thread t).waitPriority = a := by
  cases reported <;> simp [State.retree]

omit [DecidableEq Q] [DecidableEq N] in
theorem retree_of_ne (a : Aggregation (Contributor N Q)) (reported prependIt : Bool) {u : T}
    (hu : u ≠ t) :
    ((s.retree t a reported prependIt).thread u).waitPriority = (s.thread u).waitPriority := by
  cases reported <;> simp [State.retree, State.setWaitPriority, State.modifyThread, hu]

omit [DecidableEq Q] [DecidableEq N] in
/-- A thread's tree replaced by the right one. -/
theorem retreed {a : Aggregation (Contributor N Q)} {reported : Bool} (prependIt : Bool)
    (hothers : ∀ u, u ≠ t → ThreadOk own s u) (hok : a.Ok s.nodeKey)
    (hmem : ∀ c, c ∈ a.contributors ↔ Wanted own s t c)
    (hsame : reported = false → a.priority = s.priority t) :
    Retreed own s (s.retree t a reported prependIt) t := by
  have hk : Keeps s (s.retree t a reported prependIt) := by
    cases reported with
    | false => exact keeps_setWaitPriority s t a
    | true =>
      exact (keeps_setWaitPriority s t a).trans (keeps_setSchedulerNodePriority _ t prependIt)
  have hqueue : (s.retree t a reported prependIt).queue = s.queue := by
    cases reported <;> rfl
  refine ⟨hk, hqueue, fun u => ?_, fun u hu => ?_, fun htold => ?_⟩
  · by_cases hu : u = t
    · subst hu
      refine ⟨?_, fun c => by rw [retree_self, hmem, hk.wanted]⟩
      rw [retree_self]
      refine hok.congr fun c _ => ?_
      cases c with
      | own n => exact congrFun hk.nodePriority.symm n
      | queue q => simp only [State.nodeKey, hqueue]
    · exact (hothers u hu).keep hk (retree_of_ne a _ _ hu) fun q _ => by rw [hqueue]
  · rw [State.priority, retree_of_ne a _ _ hu]
    rfl
  · cases reported with
    | false => exact htold.setWaitPriority t a (hsame rfl)
    | true => exact htold.set t a prependIt

omit [DecidableEq T] [DecidableEq Q] [DecidableEq N] in
/-- A queue whose tree does not hold the thread stays right. -/
theorem Retreed.queueOk (h : Retreed own s s' t) {q : Q} (hqueue : QueueOk away s q)
    (ht : t ∉ s.waiters q) : QueueOk away s' q := by
  refine hqueue.keep h.keeps (by rw [h.heads]) ?_
  intro u hu
  refine h.priority u ?_
  rintro rfl
  exact ht hu

/-- The thread finds its place in the tree of the queue; if the queue's priority changes
then the owner's tree is the next one to put right. -/
theorem Retreed.inheritPriorityActions (h : Retreed own s s' t)
    (hqueues : ∀ q, QueueOk away s q) (haway : ¬ away t) {q : Q} (ht : s.waits t = some q) :
    ∃ s'' again, inheritPriorityActions s' q t = some (s'', again) ∧ Keeps s' s'' ∧
      s''.thread = s'.thread ∧ (again = false → Settled own away s'') ∧
      (again = true → ∃ o, s.owner q = some o ∧
        Pending own away s'' o (.queue q) .change) := by
  have hwaiter : t ∈ (s'.queue q).heads.contributors := by
    rw [h.heads]
    exact ((hqueues q).mem t).mpr ⟨ht, haway⟩
  have hnodup : (s'.queue q).heads.contributors.Nodup := by
    rw [h.heads]
    exact (hqueues q).ok.nodup
  have hsorted : SortedBy s'.priority ((s'.queue q).heads.contributors.erase t) := by
    rw [h.heads] at hnodup ⊢
    refine ((hqueues q).ok.sorted.erase t).congr ?_
    intro u hu
    exact (h.priority u (hnodup.mem_erase_iff.mp hu).1).symm
  obtain ⟨b, again, hres, hok, hmem, hsame⟩ :=
    Aggregation.changed_spec hnodup hsorted hwaiter
  have hk := keeps_setHeads s' q b hmem
  have hqueues' : ∀ r, QueueOk away (s'.setHeads q b) r := by
    intro r
    by_cases hr : r = q
    · subst hr
      exact (hqueues r).of_ok (h.keeps.trans hk) (by rw [setHeads_self]; exact hok)
    · refine (h.queueOk (hqueues r) ?_).keep hk (by rw [setHeads_of_ne b hr]) fun _ _ => rfl
      rw [(hqueues r).mem, ht]
      exact fun hmem => hr (Option.some.inj hmem.1).symm
  refine ⟨s'.setHeads q b, again, by rw [ThreadQueue.inheritPriorityActions, hres]; rfl, hk, rfl,
    ?_, ?_⟩
  · intro hagain
    refine ⟨fun u => (h.threads u).keep hk rfl ?_, hqueues'⟩
    intro r _
    by_cases hr : r = q
    · subst hr
      rw [setHeads_self, hsame hagain]
    · rw [setHeads_of_ne b hr]
  · intro _
    obtain ⟨o, ho, -⟩ := (hqueues q).owner t (((hqueues q).mem t).mpr ⟨ht, haway⟩)
    have ho' : s'.owner q = some o := by rw [h.keeps.owner, ho]
    refine ⟨o, ho, ⟨?_, hqueues', ?_⟩⟩
    · intro u hu
      refine (h.threads u).keep hk rfl ?_
      intro r hr
      rw [setHeads_of_ne b]
      rintro rfl
      rw [ho'] at hr
      exact hu (Option.some.inj hr).symm
    · have hthread := h.threads o
      refine ⟨hthread.ok.nodup, ?_, (hthread.mem _).mpr ⟨ho', t, hwaiter⟩,
        fun c => hk.wanted.trans (hthread.mem c).symm⟩
      refine (hthread.ok.sorted.erase _).congr ?_
      intro c hc
      cases c with
      | own n => rfl
      | queue r =>
        have hr : r ≠ q := by
          rintro rfl
          exact (hthread.ok.nodup.mem_erase_iff.mp hc).1 rfl
        simp only [State.nodeKey, setHeads_of_ne b hr]

/-- The effect of an action on everything but the trees: who changed is registered or
waits, and the scheduler nodes are told. -/
structure Walked (s s' : State T Q N) (updates updates' : List T) : Prop where
  frame : Frame s s'
  told : Told s → Told s'
  changed : ∀ u, s'.priority u = s.priority u ∨ u ∈ updates' ∨ s.waits u ≠ none
  grows : ∀ u ∈ updates, u ∈ updates'

/-- One action and what it leaves pending. -/
theorem doPerformActions_spec (h : Pending own away s t node type) (haway : ¬ away t)
    (prependIt : Bool) (updates : List T) :
    ∃ s' updates' again,
      doPerformActions s t node type prependIt updates = some (s', updates', again) ∧
      Walked s s' updates updates' ∧ (∀ u, u ≠ t → s'.priority u = s.priority u) ∧
      (again = false → Settled own away s') ∧
      (again = true → ∃ q o, s.waits t = some q ∧ s.owner q = some o ∧
        Pending own away s' o (.queue q) .change) := by
  obtain ⟨a, reported, prepend, hres, hok, hmem, hsame⟩ := applyAction_spec h.action prependIt
  have hre := retreed prepend h.others hok hmem hsame
  cases reported with
  | false =>
    have hpriority : ∀ u, (s.setWaitPriority t a).priority u = s.priority u := by
      intro u
      by_cases hu : u = t
      · subst hu
        rw [State.priority, setWaitPriority_self]
        exact hsame rfl
      · exact hre.priority u hu
    exact ⟨s.setWaitPriority t a, updates, false, by simp [doPerformActions, hres],
      ⟨hre.keeps.toFrame, hre.told, fun u => .inl (hpriority u), fun _ hu => hu⟩,
      fun u _ => hpriority u,
      fun _ => ⟨hre.threads, fun q => (h.queues q).keep hre.keeps rfl fun u _ => hpriority u⟩,
      by simp⟩
  | true =>
    have hchanged : ∀ u, (s.retree t a true prepend).priority u = s.priority u ∨
        u ∈ updates ++ [t] ∨ s.waits u ≠ none := by
      intro u
      by_cases hu : u = t
      · exact .inr (.inl (by simp [hu]))
      · exact .inl (hre.priority u hu)
    have hgrows : ∀ u ∈ updates, u ∈ updates ++ [t] := fun u hu => List.mem_append_left _ hu
    have hwaits : ((s.retree t a true prepend).thread t).waitQueue = s.waits t :=
      congrFun hre.keeps.waits t
    cases hq : s.waits t with
    | none =>
      rw [hq] at hwaits
      refine ⟨_, updates ++ [t], false, ?_, ⟨hre.keeps.toFrame, hre.told, hchanged, hgrows⟩,
        hre.priority, fun _ => ⟨hre.threads, fun q => hre.queueOk (h.queues q) ?_⟩, by simp⟩
      · simp only [State.retree, if_true] at hwaits
        simp only [doPerformActions, hres, hwaits]
        rfl
      · rw [(h.queues q).mem, hq]
        simp
    | some q =>
      rw [hq] at hwaits
      obtain ⟨s'', again, hinherit, hk', hthread, hsettled, hpending⟩ :=
        hre.inheritPriorityActions h.queues haway hq
      have hpriority : s''.priority = (s.retree t a true prepend).priority := by
        funext u
        rw [State.priority, hthread]
        rfl
      refine ⟨s'', updates ++ [t], again, ?_, ⟨(hre.keeps.trans hk').toFrame, ?_, ?_, hgrows⟩, ?_,
        hsettled, ?_⟩
      · simp only [State.retree, if_true] at hwaits hinherit
        simp only [doPerformActions, hres, hwaits, hinherit, Option.map_some]
      · intro htold u
        rw [hthread, hpriority]
        exact hre.told htold u
      · rw [hpriority]
        exact hchanged
      · rw [hpriority]
        exact hre.priority
      · intro hagain
        obtain ⟨o, ho, hpend⟩ := hpending hagain
        exact ⟨q, o, rfl, ho, hpend⟩

/-- Walks that start at one thread of an acyclic graph have a common bound. -/
theorem exists_fuel_performActions (own : T → N → Prop) {waits : T → Option Q}
    {owner : Q → Option T} (hacc : Acc (fun v u => WaitsFor waits owner u v) t)
    (haway : ∀ u, Relation.ReflTransGen (WaitsFor waits owner) t u → ¬ away u) :
    ∃ n, ∀ fuel, n ≤ fuel → ∀ (s : State T Q N) (node : Contributor N Q) (type : ActionType)
      (updates : List T), s.waits = waits → s.owner = owner →
      Pending own away s t node type →
      ∃ s' updates', performActions fuel s t node type updates = some (s', updates') ∧
        Walked s s' updates updates' ∧ Settled own away s' := by
  induction hacc with
  | intro t _ ih =>
    -- The bound for the thread that `t` waits for, if there is one.
    obtain ⟨n, hn⟩ : ∃ n, ∀ v, WaitsFor waits owner t v → ∀ fuel, n ≤ fuel →
        ∀ (s : State T Q N) (node : Contributor N Q) (type : ActionType) (updates : List T),
        s.waits = waits → s.owner = owner → Pending own away s v node type →
        ∃ s' updates', performActions fuel s v node type updates = some (s', updates') ∧
          Walked s s' updates updates' ∧ Settled own away s' := by
      by_cases hex : ∃ v, WaitsFor waits owner t v
      · obtain ⟨v, hv⟩ := hex
        obtain ⟨n, hn⟩ := ih v hv fun u hu => haway u (.head hv hu)
        refine ⟨n, fun v' hv' => ?_⟩
        obtain ⟨q, hq, ho⟩ := hv
        obtain ⟨q', hq', ho'⟩ := hv'
        rw [hq] at hq'
        cases hq'
        rw [ho] at ho'
        cases ho'
        exact hn
      · exact ⟨0, fun v hv => absurd ⟨v, hv⟩ hex⟩
    refine ⟨n + 1, ?_⟩
    intro fuel hfuel s node type updates hwaits howner hpending
    obtain ⟨fuel, rfl⟩ : ∃ k, fuel = k + 1 := ⟨fuel - 1, by omega⟩
    obtain ⟨s', updates', again, hres, hwalked, hpriority, hsettled, hnext⟩ :=
      doPerformActions_spec hpending (haway t .refl) false updates
    cases again with
    | false => exact ⟨s', updates', by simp [performActions, hres], hwalked, hsettled rfl⟩
    | true =>
      obtain ⟨q, o, hq, ho, hpending'⟩ := hnext rfl
      have hwaits' : s'.waits = waits := hwalked.frame.waits.trans hwaits
      have howner' : s'.owner = owner := hwalked.frame.owner.trans howner
      obtain ⟨s'', updates'', hres', hwalked', hsettled'⟩ :=
        hn o ⟨q, hwaits ▸ hq, howner ▸ ho⟩ fuel (by omega) s' _ _ updates hwaits' howner'
          hpending'
      refine ⟨s'', updates'', ?_, ⟨hwalked.frame.trans hwalked'.frame,
        hwalked'.told ∘ hwalked.told, ?_, hwalked'.grows⟩, hsettled'⟩
      · have hq' : (s'.thread t).waitQueue = some q := (congrFun hwalked.frame.waits t).trans hq
        have ho' : (s'.queue q).owner = some o := (congrFun hwalked.frame.owner q).trans ho
        simp only [performActions, hres, hq', ho', hres']
      · intro u
        by_cases hu : u = t
        · exact .inr (.inr (by rw [hu, hq]; simp))
        · rw [← hpriority u hu, ← hwalked.frame.waits]
          exact hwalked'.changed u

theorem performActions_spec (hacyclic : Acyclic s.waits s.owner)
    (haway : ∀ u, Relation.ReflTransGen (WaitsFor s.waits s.owner) t u → ¬ away u)
    (h : Pending own away s t node type) :
    ∃ n, ∀ fuel, n ≤ fuel → ∀ updates, ∃ s' updates',
      performActions fuel s t node type updates = some (s', updates') ∧
      Walked s s' updates updates' ∧ Settled own away s' := by
  obtain ⟨n, hn⟩ := exists_fuel_performActions own (hacyclic.apply t) haway
  exact ⟨n, fun fuel hfuel updates => hn fuel hfuel s node type updates rfl rfl h⟩

end Walk

end Rtems.ThreadQueue
