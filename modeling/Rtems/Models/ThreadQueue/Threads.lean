import Rtems.Models.ThreadQueue.Mutex
import Rtems.Models.ThreadQueue.Steady

/-!
# Priority changes and life changes of threads

A thread gets, changes and loses own priority nodes; the change is passed on along the
owners if the thread waits. A life change takes a waiting thread out of its queue,
raises its real priority and lets it run.
-/

namespace Rtems.ThreadQueue

variable {T Q N : Type*} {C : Config T N} {own own' : T → N → Prop} {s s' : State T Q N} {t : T}
  {node : N}

section Priority

variable [DecidableEq T] [DecidableEq Q] [DecidableEq N] {c : Contributor N Q}
  {type : ActionType} {updates : List T}

/-- The action on a thread's tree and the walk that may follow. -/
theorem threadPriorityApply_spec (hacyclic : Acyclic s.waits s.owner)
    (h : Pending own nobody s t c type) (prependIt : Bool) :
    ∃ n, ∀ fuel, n ≤ fuel → ∃ s' updates,
      threadPriorityApply fuel s t c prependIt type = some (s', updates) ∧
      Walked s s' [] updates ∧ Settled own nobody s' := by
  obtain ⟨s₁, updates, again, hres, hwalked, hpriority, hsettled, hnext⟩ :=
    doPerformActions_spec h id prependIt []
  cases again with
  | false =>
    exact ⟨0, fun fuel _ => ⟨s₁, updates, by simp [threadPriorityApply, hres], hwalked,
      hsettled rfl⟩⟩
  | true =>
    obtain ⟨q, o, hq, ho, hpending⟩ := hnext rfl
    have hacyclic₁ : Acyclic s₁.waits s₁.owner := by
      rw [hwalked.frame.waits, hwalked.frame.owner]
      exact hacyclic
    obtain ⟨n, hn⟩ := performActions_spec hacyclic₁ (fun _ _ => id) hpending
    refine ⟨n, fun fuel hfuel => ?_⟩
    obtain ⟨s', updates', hres', hwalked', hsettled'⟩ := hn fuel hfuel updates
    refine ⟨s', updates', ?_, ⟨hwalked.frame.trans hwalked'.frame, hwalked'.told ∘ hwalked.told,
      fun u => ?_, fun u hu => hwalked'.grows u (hwalked.grows u hu)⟩, hsettled'⟩
    · have hq' : (s₁.thread t).waitQueue = some q := (congrFun hwalked.frame.waits t).trans hq
      have ho' : (s₁.queue q).owner = some o := (congrFun hwalked.frame.owner q).trans ho
      simp only [threadPriorityApply, hres, hq', ho', hres']
    · by_cases hu : u = t
      · exact .inr (.inr (by rw [hu, hq]; simp))
      · rw [← hpriority u hu, ← hwalked.frame.waits]
        exact hwalked'.changed u

omit [DecidableEq Q] [DecidableEq N] in
/-- Passing on the updates of a priority change. -/
theorem Invariant.applied (h : Invariant C own s) {f : N → Nat}
    (hwalked : Walked { s with nodePriority := f } s' [] updates)
    (hsettled : Settled own' nobody s') (hreal : ∀ t, own' t (C.realPriority t))
    (hdisjoint : ∀ t u node, own' t node → own' u node → t = u) :
    Outcome C own' s (threadPriorityUpdate s' updates) := by
  have hsame := same_threadPriorityUpdate s' updates
  have htold : Told s' := hwalked.told h.told
  refine ⟨⟨hsame.settled hsettled, ?_, hreal, hdisjoint, hsame.told htold, ?_, ?_⟩, ?_, ?_⟩
  · rw [hsame.waits, hsame.owner, hwalked.frame.waits, hwalked.frame.owner]
    exact h.acyclic
  · intro u
    rw [(threadPriorityUpdate_states s' updates u).1, hwalked.frame.waitingForMutex, hsame.waits,
      hwalked.frame.waits]
    exact h.blocked u
  · rw [hsame.waits, hwalked.frame.waits]
    exact h.finite
  · intro u
    rw [(threadPriorityUpdate_states s' updates u).2.1, hwalked.frame.lifeIsChanging]
  · intro hqueued
    refine hqueued.update htold fun u hready => hwalked.ready hready ?_
    rw [show (State.thread { s with nodePriority := f } u).waitingForMutex =
      (s.waits u).isSome from h.blocked u]
    exact id

omit [DecidableEq T] [DecidableEq Q] in
/-- A thread that does not own the node is not concerned by its priority. -/
theorem ThreadOk.setNode (h : ThreadOk own s t) (priority : Nat) (hnode : ¬ own t node)
    (hown : ∀ n, own' t n ↔ own t n) :
    ThreadOk own' { s with nodePriority := Function.update s.nodePriority node priority } t := by
  refine h.congr rfl ?_ ?_
  · intro c
    cases c with
    | own n => exact hown n
    | queue q => exact .rfl
  · intro c hc
    cases c with
    | own n =>
      have hn : n ≠ node := fun heq => hnode (heq ▸ hc)
      simp [State.nodeKey, hn]
    | queue q => rfl

/-- A new node of a thread. -/
theorem threadPriorityAdd_spec (h : Invariant C own s) (hfree : ∀ u, ¬ own u node) (t : T)
    (priority : Nat) :
    ∃ n, ∀ fuel, n ≤ fuel → ∃ s', threadPriorityAdd fuel s t node priority = some s' ∧
      Outcome C (fun u n => own u n ∨ u = t ∧ n = node) s s' := by
  let s₀ : State T Q N :=
    { s with nodePriority := Function.update s.nodePriority node priority }
  let own' : T → N → Prop := fun u n => own u n ∨ u = t ∧ n = node
  have hthread := h.settled.threads t
  have hnot : .own node ∉ (s.thread t).waitPriority.contributors := by
    rw [hthread.mem]
    exact hfree t
  have hpending : Pending own' nobody s₀ t (.own node) .add := by
    refine ⟨fun u hu => (h.settled.threads u).setNode priority (hfree u) ?_,
      fun q => ⟨(h.settled.queues q).ok, (h.settled.queues q).mem, (h.settled.queues q).owner⟩,
      (hthread.setNode priority (hfree t) fun _ => .rfl).ok, ?_, hnot, ?_⟩
    · intro n
      simp [own', hu]
    · exact List.ne_nil_of_mem ((hthread.mem (.own _)).mpr (h.real t))
    · intro c
      rw [hthread.mem]
      cases c with
      | own n => simp [Wanted, own', or_comm]
      | queue q => simp [Wanted, s₀, State.owner, State.waiters]
  obtain ⟨n, hn⟩ := threadPriorityApply_spec (s := s₀) h.acyclic hpending false
  refine ⟨n, fun fuel hfuel => ?_⟩
  obtain ⟨s', updates, hres, hwalked, hsettled⟩ := hn fuel hfuel
  refine ⟨_, by simp only [threadPriorityAdd]; rw [hres]; rfl,
    h.applied hwalked hsettled (fun u => .inl (h.real u)) ?_⟩
  rintro u v m (hu | ⟨rfl, rfl⟩) (hv | ⟨rfl, hm⟩)
  · exact h.disjoint u v m hu hv
  · exact absurd hu (hm ▸ hfree u)
  · exact absurd hv (hfree v)
  · rfl

/-- A new priority of a thread's node. -/
theorem threadPriorityChange_spec (h : Invariant C own s) (hown : own t node) (priority : Nat)
    (prependIt : Bool) :
    ∃ n, ∀ fuel, n ≤ fuel → ∃ s', threadPriorityChange fuel s t node priority prependIt = some s' ∧
      Outcome C own s s' := by
  let s₀ : State T Q N :=
    { s with nodePriority := Function.update s.nodePriority node priority }
  have hthread := h.settled.threads t
  have hpending : Pending own nobody s₀ t (.own node) .change := by
    refine ⟨fun u hu => (h.settled.threads u).setNode priority ?_ fun _ => .rfl,
      fun q => ⟨(h.settled.queues q).ok, (h.settled.queues q).mem, (h.settled.queues q).owner⟩,
      hthread.ok.nodup, ?_, (hthread.mem (.own node)).mpr hown, fun c => (hthread.mem c).symm⟩
    · exact fun hu' => hu (h.disjoint u t node hu' hown)
    · refine (hthread.ok.sorted.erase _).congr fun c hc => ?_
      have hne : c ≠ .own node := (hthread.ok.nodup.mem_erase_iff.mp hc).1
      cases c with
      | own n =>
        have hn : n ≠ node := fun heq => hne (heq ▸ rfl)
        simp [State.nodeKey, s₀, hn]
      | queue q => rfl
  obtain ⟨n, hn⟩ := threadPriorityApply_spec (s := s₀) h.acyclic hpending prependIt
  refine ⟨n, fun fuel hfuel => ?_⟩
  obtain ⟨s', updates, hres, hwalked, hsettled⟩ := hn fuel hfuel
  exact ⟨_, by simp only [threadPriorityChange]; rw [hres]; rfl,
    h.applied hwalked hsettled h.real h.disjoint⟩

/-- A node leaves a thread that has another one. -/
theorem threadPriorityRemove_spec (h : Invariant C own s) (hown : own t node)
    (hreal : node ≠ C.realPriority t) :
    ∃ n, ∀ fuel, n ≤ fuel → ∃ s', threadPriorityRemove fuel s t node = some s' ∧
      Outcome C (fun u n => own u n ∧ ¬ (u = t ∧ n = node)) s s' := by
  let own' : T → N → Prop := fun u n => own u n ∧ ¬ (u = t ∧ n = node)
  have hthread := h.settled.threads t
  have hpending : Pending own' nobody s t (.own node) .remove := by
    refine ⟨fun u hu => (h.settled.threads u).congr rfl ?_ fun _ _ => rfl, h.settled.queues,
      hthread.ok, (hthread.mem (.own node)).mpr hown, ?_, ?_⟩
    · intro c
      cases c with
      | own n => simp [Wanted, own', hu]
      | queue q => exact .rfl
    · refine List.ne_nil_of_mem ((List.mem_erase_of_ne ?_).mpr
        ((hthread.mem (.own (C.realPriority t))).mpr (h.real t)))
      exact fun heq => hreal (Contributor.own.inj heq).symm
    · intro c
      rw [hthread.mem]
      cases c with
      | own n => simp [Wanted, own', and_comm]
      | queue q => simp [Wanted]
  obtain ⟨n, hn⟩ := threadPriorityApply_spec h.acyclic hpending true
  refine ⟨n, fun fuel hfuel => ?_⟩
  obtain ⟨s', updates, hres, hwalked, hsettled⟩ := hn fuel hfuel
  refine ⟨_, by rw [threadPriorityRemove, hres]; rfl,
    h.applied (f := s.nodePriority) hwalked hsettled ?_ ?_⟩
  · refine fun u => ⟨h.real u, ?_⟩
    rintro ⟨rfl, heq⟩
    exact hreal heq.symm
  · exact fun u v m hu hv => h.disjoint u v m hu.1 hv.1

end Priority

section LifeChange

/-- No life change is pending. -/
def Alive (s : State T Q N) : Prop := ∀ t, (s.thread t).lifeIsChanging = false

variable [DecidableEq T]

/-- A thread with a life change is not ready. -/
theorem Invariant.addLifeChangeRequest (h : Invariant C own s) (t : T) :
    Invariant C own (threadAddLifeChangeRequest s t) ∧
      (Queued s → Queued (threadAddLifeChangeRequest s t)) := by
  have hsame : Same s (threadAddLifeChangeRequest s t) := same_modifyThread rfl rfl rfl
  refine ⟨⟨hsame.settled h.settled, ?_, h.real, h.disjoint, hsame.told h.told, fun u => ?_,
    by rw [hsame.waits]; exact h.finite⟩, fun hqueued u hready => ?_⟩
  · rw [hsame.waits, hsame.owner]
    exact h.acyclic
  · rw [hsame.waits, ← h.blocked u]
    by_cases hu : u = t
    · subst hu
      simp [threadAddLifeChangeRequest]
    · simp [threadAddLifeChangeRequest, State.modifyThread_of_ne, hu]
  · rw [hsame.priority]
    by_cases hu : u = t
    · subst hu
      simp [threadAddLifeChangeRequest, Thread.isReady] at hready
    · rw [threadAddLifeChangeRequest, s.modifyThread_of_ne _ hu] at hready ⊢
      exact hqueued u hready

/-- The end of a life change makes the thread ready unless it waits. -/
theorem Invariant.removeLifeChangeRequest (h : Invariant C own s) (t : T) :
    Invariant C own (threadRemoveLifeChangeRequest s t) ∧
      (∀ u, ((threadRemoveLifeChangeRequest s t).thread u).lifeIsChanging =
        if u = t then false else (s.thread u).lifeIsChanging) ∧
      (Queued s → Queued (threadRemoveLifeChangeRequest s t)) := by
  have hsame : Same s (threadRemoveLifeChangeRequest s t) := same_threadClearState rfl rfl rfl
  have hthread : ∀ u,
      ((threadRemoveLifeChangeRequest s t).thread u).waitingForMutex =
        (s.thread u).waitingForMutex ∧
      ((threadRemoveLifeChangeRequest s t).thread u).lifeIsChanging =
        if u = t then false else (s.thread u).lifeIsChanging := by
    intro u
    rw [threadRemoveLifeChangeRequest, thread_threadClearState]
    by_cases hu : u = t
    · subst hu
      by_cases hset : (s.thread u).lifeIsChanging = true
      · rw [if_pos ⟨rfl, hset⟩]
        split <;> simp
      · simp [hset]
    · simp [hu]
  refine ⟨⟨hsame.settled h.settled, ?_, h.real, h.disjoint, hsame.told h.told, fun u => ?_,
    by rw [hsame.waits]; exact h.finite⟩, fun u => (hthread u).2,
    fun hqueued => hqueued.threadClearState h.told rfl rfl rfl⟩
  · rw [hsame.waits, hsame.owner]
    exact h.acyclic
  · rw [(hthread u).1, hsame.waits]
    exact h.blocked u

variable [DecidableEq Q] [DecidableEq N]

theorem threadRaiseRealPriority_spec (h : Invariant C own s) (t : T) (priority : Nat) :
    ∃ n, ∀ fuel, n ≤ fuel → ∃ s', threadRaiseRealPriority C fuel s t priority = some s' ∧
      Outcome C own s s' := by
  by_cases hlt : priority < s.nodePriority (C.realPriority t)
  · simp only [threadRaiseRealPriority, if_pos hlt]
    exact threadPriorityChange_spec h (h.real t) priority false
  · simp only [threadRaiseRealPriority, if_neg hlt]
    exact ⟨0, fun _ _ => ⟨s, rfl, h, fun _ => rfl, id⟩⟩

/-- The extract that a life change makes lets the other ready threads keep their
priorities. -/
def Undisturbed (s : State T Q N) (t : T) : Prop :=
  ∀ fuel s₁, threadQueueExtract fuel s t = some s₁ →
    ∀ u, u ≠ t → (s.thread u).isReady = true → s₁.priority u = s.priority u

/-- What a life change leaves behind. -/
structure LifeChanged (C : Config T N) (own : T → N → Prop) (s s' : State T Q N) (t : T)
    (undisturbed : Prop) : Prop where
  invariant : Invariant C own s'
  lifeIsChanging : ∀ u, (s'.thread u).lifeIsChanging =
    if u = t then false else (s.thread u).lifeIsChanging
  queued : Queued s → undisturbed → Queued s'

section

variable (h : Invariant C own s)
include h

theorem Invariant.raised (t : T) (priority : Nat) :
    ∃ s', Returns (fun n => (threadRaiseRealPriority C n s t priority).map fun s =>
        threadRemoveLifeChangeRequest s t) s' ∧ LifeChanged C own s s' t True := by
  obtain ⟨s₁, hret, houtcome⟩ := (steady_threadRaiseRealPriority C s t priority).exists_returns
    (threadRaiseRealPriority_spec h t priority)
  obtain ⟨hinvariant, hlife, hqueued⟩ := houtcome.invariant.removeLifeChangeRequest t
  refine ⟨_, hret.map _, hinvariant, fun u => ?_, fun hq _ => hqueued (houtcome.queued hq)⟩
  rw [hlife, houtcome.lifeIsChanging]

/-- A life change is completed. -/
theorem threadFinalizeLifeChange_spec (t : T) (priority : Nat) :
    ∃ s', Returns (fun n => threadFinalizeLifeChange C n s t priority) s' ∧
      LifeChanged C own s s' t (Undisturbed s t) := by
  obtain ⟨s₁, ⟨n, hn⟩, hinvariant, hlife, -, -, -, hqueued⟩ :=
    (steady_threadQueueExtract s t).exists_returns (threadQueueExtract_spec h t)
  obtain ⟨s', ⟨k, hk⟩, hchanged⟩ := hinvariant.raised t priority
  refine ⟨s', ⟨max n k, fun m hm => ?_⟩, hchanged.invariant, fun u => ?_, fun hq hu => ?_⟩
  · simp only [threadFinalizeLifeChange, hn m (le_trans (le_max_left n k) hm)]
    exact hk m (le_trans (le_max_right n k) hm)
  · rw [hchanged.lifeIsChanging, hlife]
  · exact hchanged.queued (hqueued hq (hu n s₁ (hn n le_rfl))) trivial

omit [DecidableEq Q] [DecidableEq N] in
/-- A life change that starts with a request. -/
theorem LifeChanged.of_add {p p' : Prop}
    (hchanged : LifeChanged C own (threadAddLifeChangeRequest s t) s' t p) (hp : p' → p) :
    LifeChanged C own s s' t p' where
  invariant := hchanged.invariant
  lifeIsChanging u := by
    rw [hchanged.lifeIsChanging]
    split
    · rfl
    · rename_i hu
      rw [threadAddLifeChangeRequest, s.modifyThread_of_ne _ hu]
  queued hq hu := hchanged.queued ((h.addLifeChangeRequest t).2 hq) (hp hu)

/-- Deleting a thread. -/
theorem threadCancel_spec (t executing : T) :
    ∃ s', Returns (fun n => threadCancel C n s t executing) s' ∧
      LifeChanged C own s s' t
        (C.isLifeChangeAllowed t = true → Undisturbed (threadAddLifeChangeRequest s t) t) := by
  have hadd := (h.addLifeChangeRequest t).1
  cases hallowed : C.isLifeChangeAllowed t with
  | true =>
    obtain ⟨s', hret, hchanged⟩ := threadFinalizeLifeChange_spec hadd t (s.priority executing)
    exact ⟨s', by simpa [threadCancel, hallowed] using hret, .of_add h hchanged fun hu => hu rfl⟩
  | false =>
    obtain ⟨s', hret, hchanged⟩ := hadd.raised t (s.priority executing)
    exact ⟨s', by simpa [threadCancel, hallowed] using hret,
      .of_add h hchanged fun _ => trivial⟩

/-- Restarting a thread. -/
theorem threadRestartOther_spec (halive : Alive s) (t : T) :
    ∃ s', Returns (fun n => threadRestartOther C n s t) s' ∧
      LifeChanged C own s s' t
        (C.isLifeChangeAllowed t = true → Undisturbed (threadAddLifeChangeRequest s t) t) := by
  cases hallowed : C.isLifeChangeAllowed t with
  | true =>
    have hadd := (h.addLifeChangeRequest t).1
    obtain ⟨s', hret, hchanged⟩ := threadFinalizeLifeChange_spec hadd t (C.initialPriority t)
    exact ⟨s', by simpa [threadRestartOther, hallowed] using hret,
      .of_add h hchanged fun hu => hu rfl⟩
  | false =>
    refine ⟨s, ⟨0, fun n _ => by simp [threadRestartOther, hallowed]⟩, h, fun u => ?_,
      fun hq _ => hq⟩
    split
    · exact halive u
    · rfl

end

end LifeChange

end Rtems.ThreadQueue
