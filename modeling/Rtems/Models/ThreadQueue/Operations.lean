import Rtems.Models.ThreadQueue.Inheritance

/-!
# The operations of a priority inheritance queue

Enqueue and extract change the tree of one queue and leave at most one action pending,
for the owner of the queue. After each operation every tree is right again.
-/

namespace Rtems.ThreadQueue

variable {T Q N : Type*} {own : T → N → Prop} {away away' : T → Prop} {s s' : State T Q N}
  {t o : T} {q : Q}

/-- No thread is on the way in or out. -/
def nobody (_ : T) : Prop := False

section Requeued

/-- A thread that wants the node of a changed queue neither before nor after is not
concerned. -/
theorem ThreadOk.elsewhere (h : ThreadOk own s t)
    (hsame : (s'.thread t).waitPriority = (s.thread t).waitPriority)
    (hnode : s'.nodePriority = s.nodePriority) (hqueue : ∀ r, r ≠ q → s'.queue r = s.queue r)
    (hbefore : ¬ Wanted own s t (.queue q)) (hafter : ¬ Wanted own s' t (.queue q)) :
    ThreadOk own s' t := by
  refine h.congr hsame ?_ ?_
  · intro c
    cases c with
    | own node => exact .rfl
    | queue r =>
      by_cases hr : r = q
      · subst hr
        exact iff_of_false hafter hbefore
      · simp only [Wanted, State.owner, State.waiters, hqueue r hr]
  · intro c hc
    cases c with
    | own node => exact congrFun hnode node
    | queue r =>
      have hr : r ≠ q := fun heq => hbefore (heq ▸ hc)
      simp only [State.nodeKey, hqueue r hr]

/-- Only the tree of one queue differs, and who registered it. -/
structure Requeued (s s' : State T Q N) (q : Q) : Prop where
  thread : s'.thread = s.thread
  nodePriority : s'.nodePriority = s.nodePriority
  owner : s'.owner = s.owner
  queue : ∀ r, r ≠ q → s'.queue r = s.queue r

section

variable (h : Requeued s s' q)
include h

theorem Requeued.frame : Frame s s' where
  waits := funext fun t => by rw [State.waits, h.thread]; rfl
  __ := h
  returnCode t := by rw [h.thread]
  currentPriority t := by rw [h.thread]
  waitingForMutex t := by rw [h.thread]
  lifeIsChanging t := by rw [h.thread]

theorem Requeued.priority : s'.priority = s.priority :=
  funext fun t => by rw [State.priority, h.thread]; rfl

theorem Requeued.nodeKey {c : Contributor N Q} (hc : c ≠ .queue q) :
    s'.nodeKey c = s.nodeKey c := by
  cases c with
  | own node => exact congrFun h.nodePriority node
  | queue r =>
    have hr : r ≠ q := fun heq => hc (heq ▸ rfl)
    rw [State.nodeKey, h.queue r hr]
    rfl

theorem Requeued.wanted {c : Contributor N Q} (hc : c ≠ .queue q) :
    Wanted own s' t c ↔ Wanted own s t c := by
  cases c with
  | own node => exact .rfl
  | queue r =>
    have hr : r ≠ q := fun heq => hc (heq ▸ rfl)
    rw [Wanted, Wanted, h.owner, State.waiters, h.queue r hr]
    rfl

theorem Requeued.threadOk (ht : s.owner q ≠ some t) (hok : ThreadOk own s t) : ThreadOk own s' t :=
  hok.elsewhere (by rw [h.thread]) h.nodePriority h.queue (fun hw => ht hw.1)
    fun hw => ht (by rw [← h.owner]; exact hw.1)

/-- The owner is not concerned either if the queue has waiters as before and keeps its
priority. -/
theorem Requeued.threadOk_owner (hok : ThreadOk own s t)
    (hwaiters : (∃ u, u ∈ s'.waiters q) ↔ ∃ u, u ∈ s.waiters q)
    (hpriority : (s'.queue q).heads.priority = (s.queue q).heads.priority) :
    ThreadOk own s' t := by
  refine hok.congr (by rw [h.thread]) ?_ ?_
  · intro c
    by_cases hc : c = .queue q
    · subst hc
      simp only [Wanted, h.owner, hwaiters]
    · exact h.wanted hc
  · intro c _
    by_cases hc : c = .queue q
    · subst hc
      exact hpriority
    · exact h.nodeKey hc

/-- The queues are right if the new tree is. -/
theorem Requeued.queues (hqueues : ∀ r, QueueOk away s r) (hok : (s'.queue q).heads.Ok s.priority)
    (hmem : ∀ u, u ∈ s'.waiters q ↔ s.waits u = some q ∧ ¬ away' u)
    (howner : ∀ u ∈ s'.waiters q, ∃ o, s.owner q = some o ∧ (s'.queue q).schedulerNode = some o)
    (haway : ∀ u, s.waits u ≠ some q → (away' u ↔ away u)) (r : Q) : QueueOk away' s' r := by
  by_cases hr : r = q
  · subst hr
    refine ⟨by rw [h.priority]; exact hok, ?_, ?_⟩
    · rw [h.frame.waits]
      exact hmem
    · rw [h.owner]
      exact howner
  · obtain ⟨hok', hmem', howner'⟩ := hqueues r
    refine ⟨by rw [h.queue r hr, h.priority]; exact hok', ?_, ?_⟩
    · intro u
      rw [State.waiters, h.queue r hr, h.frame.waits]
      refine (hmem' u).trans (and_congr_right fun hu => ?_)
      rw [haway u]
      rw [hu]
      exact fun heq => hr (Option.some.inj heq)
    · rw [State.waiters, h.queue r hr, h.owner]
      exact howner'

end

end Requeued

section Awaits

variable [DecidableEq Q] [DecidableEq N]

section

variable (h : Requeued s s' q) (hok : ThreadOk own s o) (howner : s.owner q = some o)
include h hok howner

/-- The first waiter makes the owner want the queue's node. -/
theorem Requeued.awaits_add (hown : ∃ node, own o node)
    (hbefore : ∀ u, u ∉ s.waiters q) (hafter : ∃ u, u ∈ s'.waiters q) :
    Awaits own s' o (.queue q) .add := by
  have hnot : .queue q ∉ (s.thread o).waitPriority.contributors := by
    rw [hok.mem]
    rintro ⟨-, u, hu⟩
    exact hbefore u hu
  rw [Awaits, h.thread]
  refine ⟨hok.ok.congr fun c hc => (h.nodeKey ?_).symm, ?_, hnot, ?_⟩
  · rintro rfl
    exact hnot hc
  · obtain ⟨node, hnode⟩ := hown
    exact List.ne_nil_of_mem ((hok.mem (.own node)).mpr hnode)
  · intro c
    by_cases hc : c = .queue q
    · subst hc
      simp only [Wanted, h.owner, howner, hafter, and_self, true_or]
    · rw [h.wanted hc, hok.mem]
      simp [hc]

/-- A new priority of the queue moves its node in the owner's tree. -/
theorem Requeued.awaits_change (hbefore : ∃ u, u ∈ s.waiters q)
    (hafter : ∃ u, u ∈ s'.waiters q) : Awaits own s' o (.queue q) .change := by
  rw [Awaits, h.thread]
  refine ⟨hok.ok.nodup, ?_, (hok.mem _).mpr ⟨howner, hbefore⟩, ?_⟩
  · refine (hok.ok.sorted.erase _).congr fun c hc => (h.nodeKey ?_).symm
    exact (hok.ok.nodup.mem_erase_iff.mp hc).1
  · intro c
    rw [hok.mem]
    by_cases hc : c = .queue q
    · subst hc
      simp only [Wanted, h.owner, hbefore, hafter]
    · exact h.wanted hc

/-- After the last waiter the owner does not want the queue's node any more. -/
theorem Requeued.awaits_remove (hown : ∃ node, own o node)
    (hbefore : ∃ u, u ∈ s.waiters q) (hafter : ∀ u, u ∉ s'.waiters q)
    (hpriority : (s'.queue q).heads.priority = (s.queue q).heads.priority) :
    Awaits own s' o (.queue q) .remove := by
  rw [Awaits, h.thread]
  refine ⟨hok.ok.congr fun c _ => ?_, (hok.mem _).mpr ⟨howner, hbefore⟩, ?_, ?_⟩
  · by_cases hc : c = .queue q
    · subst hc
      exact hpriority.symm
    · exact (h.nodeKey hc).symm
  · obtain ⟨node, hnode⟩ := hown
    refine List.ne_nil_of_mem ((List.mem_erase_of_ne ?_).mpr ((hok.mem (.own node)).mpr hnode))
    simp
  · intro c
    by_cases hc : c = .queue q
    · subst hc
      simp [Wanted, hafter]
    · rw [h.wanted hc, hok.mem]
      simp [hc]

end

end Awaits

section Walks

variable [DecidableEq T] [DecidableEq Q] [DecidableEq N] {node : Contributor N Q}
  {type : ActionType}

omit [DecidableEq T] [DecidableEq N] in
theorem requeued_setHeads (s : State T Q N) (q : Q) (a : Aggregation T) :
    Requeued s (s.setHeads q a) q := by
  refine ⟨rfl, rfl, ?_, fun r hr => setHeads_of_ne a hr⟩
  funext r
  by_cases hr : r = q
  · subst hr
    simp [State.owner, State.setHeads, State.modifyQueue]
  · rw [State.owner, setHeads_of_ne a hr]
    rfl

omit [DecidableEq T] [DecidableEq Q] [DecidableEq N] in
/-- The effect of a walk after the change of a tree. -/
theorem Requeued.walked (h : Requeued s s' q) {s'' : State T Q N} {updates updates' : List T}
    (hwalked : Walked s' s'' updates updates') : Walked s s'' updates updates' where
  frame := h.frame.trans hwalked.frame
  told htold := hwalked.told fun t => by
    rw [h.thread, h.priority]
    exact htold t
  changed u := by
    rw [← h.priority, ← h.frame.waits]
    exact hwalked.changed u
  grows := hwalked.grows

omit [DecidableEq T] [DecidableEq Q] [DecidableEq N] in
/-- The effect of the change of a tree alone. -/
theorem Requeued.walked_nil (h : Requeued s s' q) : Walked s s' [] [] :=
  h.walked ⟨.refl s', id, fun _ => .inl rfl, fun _ hu => hu⟩

/-- A walk that starts at the owner of the queue whose tree changed. -/
theorem Requeued.performActions (h : Requeued s s' q) (hacyclic : Acyclic s.waits s.owner)
    (haway : ∀ u, Relation.ReflTransGen (WaitsFor s.waits s.owner) o u → ¬ away u)
    (hpending : Pending own away s' o node type) :
    ∃ n, ∀ fuel, n ≤ fuel → ∃ s'' updates,
      performActions fuel s' o node type [] = some (s'', updates) ∧
      Walked s s'' [] updates ∧ Settled own away s'' := by
  rw [← h.frame.waits, ← h.frame.owner] at hacyclic haway
  obtain ⟨n, hn⟩ := performActions_spec hacyclic haway hpending
  refine ⟨n, fun fuel hfuel => ?_⟩
  obtain ⟨s'', updates, hres, hwalked, hsettled⟩ := hn fuel hfuel []
  exact ⟨s'', updates, hres, h.walked hwalked, hsettled⟩

omit [DecidableEq T] [DecidableEq Q] [DecidableEq N] in
/-- The threads other than the owner are right after the change of a tree. -/
theorem Requeued.others (h : Requeued s s' q) (hsettled : Settled own away s)
    (ho : s.owner q = some o) (u : T) (hu : u ≠ o) : ThreadOk own s' u := by
  refine h.threadOk ?_ (hsettled.threads u)
  rw [ho]
  exact fun heq => hu (Option.some.inj heq).symm

omit [DecidableEq T] [DecidableEq Q] [DecidableEq N] in
/-- Being on the way only matters for the queue the thread waits on. -/
theorem nobody_iff_eq (ht : s.waits t = some q) (u : T) (hu : s.waits u ≠ some q) :
    nobody u ↔ u = t := by
  refine ⟨False.elim, ?_⟩
  rintro rfl
  exact hu ht

section

variable (hacyclic : Acyclic s.waits s.owner) (h : Settled own (· = t) s)
include hacyclic h

/-- The first thread enters the queue. -/
theorem inheritDoInitialize_spec (hown : ∃ node, own o node) (ht : s.waits t = some q)
    (ho : s.owner q = some o) (hwaiters : s.waiters q = []) :
    ∃ n, ∀ fuel, n ≤ fuel → ∃ s' updates,
      inheritDoInitialize fuel s q t o = some (s', updates) ∧
      Walked s s' [] updates ∧ Settled own nobody s' := by
  let s₁ := s.modifyQueue q fun d =>
    { d with schedulerNode := some o, heads := .initializedOne s.priority t }
  have hre : Requeued s s₁ q := by
    refine ⟨rfl, rfl, funext fun r => ?_, fun r hr => ?_⟩
    · by_cases hr : r = q
      · subst hr
        simp [s₁, State.owner, State.modifyQueue]
      · simp [s₁, State.owner, State.modifyQueue, hr]
    · simp [s₁, State.modifyQueue, hr]
  have hheads : (s₁.queue q).heads = .initializedOne s.priority t := by
    simp [s₁, State.modifyQueue]
  have hmem : ∀ u, u ∈ s₁.waiters q ↔ u = t := by
    intro u
    rw [State.waiters, hheads, Aggregation.initializedOne, List.mem_singleton]
  have honly : ∀ u, s.waits u = some q → u = t := by
    intro u hu
    by_contra hne
    have := ((h.queues q).mem u).mpr ⟨hu, hne⟩
    rw [hwaiters] at this
    exact List.not_mem_nil this
  have hqueues : ∀ r, QueueOk nobody s₁ r := by
    refine hre.queues h.queues ?_ ?_ ?_ (nobody_iff_eq ht)
    · rw [hheads]
      exact Aggregation.ok_initializedOne t
    · intro u
      rw [hmem]
      exact ⟨fun hu => ⟨hu ▸ ht, id⟩, fun hu => honly u hu.1⟩
    · intro _ _
      exact ⟨o, ho, by simp [s₁, State.modifyQueue]⟩
  refine hre.performActions hacyclic (fun _ _ => id) ⟨hre.others h ho, hqueues, ?_⟩
  refine hre.awaits_add (h.threads o) ho hown ?_ ⟨t, (hmem t).mpr rfl⟩
  rw [hwaiters]
  exact fun u => List.not_mem_nil

/-- A further thread enters the queue. -/
theorem inheritDoEnqueue_spec
    (ht : s.waits t = some q) (ho : s.owner q = some o) (hne : s.waiters q ≠ []) :
    ∃ n, ∀ fuel, n ≤ fuel → ∃ s' updates,
      inheritDoEnqueue fuel s q t o = some (s', updates) ∧
      Walked s s' [] updates ∧ Settled own nobody s' := by
  have hnot : t ∉ (s.queue q).heads.contributors := fun hmem =>
    (((h.queues q).mem t).mp hmem).2 rfl
  obtain ⟨hok, hmem, hpriority⟩ := Aggregation.nonEmptyInsert_spec (h.queues q).ok hnot hne
  obtain ⟨v, hv⟩ := List.exists_mem_of_ne_nil _ hne
  cases hinsert : (s.queue q).heads.nonEmptyInsert s.priority t with
  | mk a reported =>
  rw [hinsert] at hok hmem hpriority
  have hre := requeued_setHeads s q a
  have hmem' : ∀ u, u ∈ (s.setHeads q a).waiters q ↔ u = t ∨ u ∈ s.waiters q := by
    intro u
    rw [State.waiters, setHeads_self]
    exact hmem u
  have hqueues : ∀ r, QueueOk nobody (s.setHeads q a) r := by
    refine hre.queues h.queues (by rw [setHeads_self]; exact hok) ?_ ?_ (nobody_iff_eq ht)
    · intro u
      rw [hmem', (h.queues q).mem]
      by_cases hu : u = t
      · subst hu
        simp [ht, nobody]
      · simp [hu, nobody]
    · intro _ _
      obtain ⟨o', ho', hnode⟩ := (h.queues q).owner v hv
      exact ⟨o', ho', by simpa [State.setHeads, State.modifyQueue] using hnode⟩
  have hbefore : ∃ u, u ∈ s.waiters q := ⟨v, hv⟩
  have hafter : ∃ u, u ∈ (s.setHeads q a).waiters q := ⟨t, (hmem' t).mpr (.inl rfl)⟩
  cases reported with
  | false =>
    refine ⟨0, fun fuel _ => ⟨s.setHeads q a, [], ?_, hre.walked_nil, ⟨?_, hqueues⟩⟩⟩
    · simp [inheritDoEnqueue, hinsert]
    · intro u
      refine hre.threadOk_owner (h.threads u) (iff_of_true hafter hbefore) ?_
      rw [setHeads_self]
      exact hpriority rfl
  | true =>
    simp only [inheritDoEnqueue, hinsert, if_true]
    exact hre.performActions hacyclic (fun _ _ => id)
      ⟨hre.others h ho, hqueues, hre.awaits_change (h.threads o) ho hbefore hafter⟩

/-- A thread that has announced its wait enters the queue. -/
theorem inheritEnqueue_spec
    (hown : ∀ u, ∃ node, own u node) (ht : s.waits t = some q) (ho : s.owner q = some o) :
    ∃ n, ∀ fuel, n ≤ fuel → ∃ s' updates, inheritEnqueue fuel s q t = some (s', updates) ∧
      Walked s s' [] updates ∧ Settled own nobody s' := by
  have ho' : (s.queue q).owner = some o := ho
  by_cases hempty : (s.queue q).heads.isEmpty
  · simp only [inheritEnqueue, ho', hempty, if_true]
    exact inheritDoInitialize_spec hacyclic h (hown o) ht ho (List.isEmpty_iff.mp hempty)
  · simp only [inheritEnqueue, ho', hempty, Bool.false_eq_true, if_false]
    exact inheritDoEnqueue_spec hacyclic h ht ho fun hnil => hempty (List.isEmpty_iff.mpr hnil)

end

/-- A waiting thread leaves the queue; its wait is still announced. -/
theorem inheritExtract_spec (hacyclic : Acyclic s.waits s.owner) (h : Settled own nobody s)
    (hown : ∀ u, ∃ node, own u node) (ht : s.waits t = some q) :
    ∃ n, ∀ fuel, n ≤ fuel → ∃ s' updates, inheritExtract fuel s q t = some (s', updates) ∧
      Walked s s' [] updates ∧ Settled own (· = t) s' := by
  have htmem : t ∈ s.waiters q := ((h.queues q).mem t).mpr ⟨ht, id⟩
  obtain ⟨o, ho, hnode⟩ := (h.queues q).owner t htmem
  have ho' : (s.queue q).owner = some o := ho
  have haway : ∀ u, Relation.ReflTransGen (WaitsFor s.waits s.owner) o u → ¬ u = t := by
    rintro u hpath rfl
    exact hacyclic.not_reaches ht (reaches_iff.mpr ⟨o, ho, hpath⟩)
  obtain ⟨hok, herase, hremoved, hpriority⟩ := Aggregation.extract_spec (h.queues q).ok htmem
  cases hextract : (s.queue q).heads.extract s.priority t with
  | mk a extracted =>
  rw [hextract] at hok herase hremoved hpriority
  have hre := requeued_setHeads s q a
  have hwaiters : (s.setHeads q a).waiters q = (s.waiters q).erase t := by
    rw [State.waiters, setHeads_self]
    exact herase
  have hqueues : ∀ r, QueueOk (· = t) (s.setHeads q a) r := by
    refine hre.queues h.queues (by rw [setHeads_self]; exact hok) ?_ ?_
      fun u hu => (nobody_iff_eq ht u hu).symm
    · intro u
      have hnodup : (s.waiters q).Nodup := (h.queues q).ok.nodup
      rw [hwaiters, hnodup.mem_erase_iff, (h.queues q).mem]
      exact ⟨fun hu => ⟨hu.2.1, hu.1⟩, fun hu => ⟨hu.2, hu.1, id⟩⟩
    · intro _ _
      exact ⟨o, ho, by simpa [State.setHeads, State.modifyQueue] using hnode⟩
  have hbefore : ∃ u, u ∈ s.waiters q := ⟨t, htmem⟩
  have hafter : extracted ≠ .removed → ∃ u, u ∈ (s.setHeads q a).waiters q := by
    intro hne
    rw [hwaiters]
    exact List.exists_mem_of_ne_nil _ fun hnil => hne (hremoved.mpr hnil)
  simp only [inheritExtract, ho', hextract]
  cases extracted with
  | nothing =>
    refine ⟨0, fun fuel _ => ⟨s.setHeads q a, [], rfl, hre.walked_nil, ⟨?_, hqueues⟩⟩⟩
    intro u
    refine hre.threadOk_owner (h.threads u) (iff_of_true (hafter (by simp)) hbefore) ?_
    rw [setHeads_self]
    exact hpriority (by simp)
  | removed =>
    refine hre.performActions hacyclic haway ⟨hre.others h ho, hqueues, ?_⟩
    refine hre.awaits_remove (h.threads o) ho (hown o) hbefore ?_ ?_
    · rw [hwaiters, State.waiters, hremoved.mp rfl]
      exact fun u => List.not_mem_nil
    · rw [setHeads_self]
      exact hpriority (by simp)
  | changed =>
    exact hre.performActions hacyclic haway ⟨hre.others h ho, hqueues,
      hre.awaits_change (h.threads o) ho hbefore (hafter (by simp))⟩

end Walks

section Wait

variable [DecidableEq T]

/-- The trees stay right if a thread changes anything but its priorities and if its wait
fits its place. -/
theorem Settled.modifyThread (h : Settled own away s) {f : Thread N Q → Thread N Q}
    (hf : (f (s.thread t)).waitPriority = (s.thread t).waitPriority)
    (haway : ∀ u, u ≠ t → (away' u ↔ away u))
    (hq : ∀ r, t ∈ s.waiters r ↔ (f (s.thread t)).waitQueue = some r ∧ ¬ away' t) :
    Settled own away' (s.modifyThread t f) := by
  have hwait : ∀ u, ((s.modifyThread t f).thread u).waitPriority =
      (s.thread u).waitPriority := by
    intro u
    by_cases hu : u = t
    · subst hu
      rw [State.modifyThread_self, hf]
    · rw [s.modifyThread_of_ne f hu]
  have hpriority : (s.modifyThread t f).priority = s.priority :=
    funext fun u => congrArg Aggregation.priority (hwait u)
  refine ⟨fun u => (h.threads u).congr (hwait u) (fun _ => .rfl) fun _ _ => rfl, fun r => ?_⟩
  obtain ⟨hok, hmem, howner⟩ := h.queues r
  refine ⟨by rw [hpriority]; exact hok, fun u => ?_, howner⟩
  by_cases hu : u = t
  · subst hu
    rw [State.waits, State.modifyThread_self]
    exact hq r
  · rw [State.waits, s.modifyThread_of_ne f hu, haway u hu]
    exact hmem u

theorem Settled.claim (h : Settled own nobody s) (ht : s.waits t = none) (q : Q) :
    Settled own (· = t) (threadWaitClaim s t q) := by
  refine h.modifyThread rfl (fun u hu => ⟨hu, False.elim⟩) fun r => ?_
  rw [(h.queues r).mem, ht]
  simp

theorem Settled.restoreDefault (h : Settled own (· = t) s) :
    Settled own nobody (threadWaitRestoreDefault s t) := by
  refine h.modifyThread rfl (fun u hu => ⟨False.elim, hu⟩) fun r => ?_
  rw [(h.queues r).mem]
  simp

end Wait

end Rtems.ThreadQueue
