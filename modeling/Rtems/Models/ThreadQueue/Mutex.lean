import Rtems.Models.ThreadQueue.Scheduled

/-!
# The operations on mutexes and threads keep the invariant

Each operation returns, given enough steps for its walks, and leaves every tree right,
the wait graph acyclic, and the scheduler nodes told. Operations that pass on the
registered updates also leave every ready thread queued under its effective priority.
-/

namespace Rtems.ThreadQueue

variable {T Q N : Type*}

/-- What holds between two operations. -/
structure Invariant (C : Config T N) (own : T → N → Prop) (s : State T Q N) : Prop where
  settled : Settled own nobody s
  acyclic : Acyclic s.waits s.owner
  real : ∀ t, own t (C.realPriority t)
  disjoint : ∀ t u node, own t node → own u node → t = u
  told : Told s
  blocked : ∀ t, (s.thread t).waitingForMutex = (s.waits t).isSome
  finite : {t | s.waits t ≠ none}.Finite

/-- The operation keeps the invariant, the pending life changes and, if it passes on the
registered updates, the priorities in the scheduler. -/
structure Outcome (C : Config T N) (own : T → N → Prop) (s s' : State T Q N) : Prop where
  invariant : Invariant C own s'
  lifeIsChanging : ∀ t, (s'.thread t).lifeIsChanging = (s.thread t).lifeIsChanging
  queued : Queued s → Queued s'

section Path

variable [DecidableEq T] {s : State T Q N} {t : T} {q : Q}

theorem waits_claim (s : State T Q N) (t : T) (q : Q) :
    (threadWaitClaim s t q).waits = Function.update s.waits t (some q) := by
  funext u
  by_cases hu : u = t
  · subst hu
    simp [State.waits, threadWaitClaim]
  · simp [State.waits, threadWaitClaim, hu, State.modifyThread_of_ne]

theorem waits_restoreDefault (s : State T Q N) (t : T) :
    (threadWaitRestoreDefault s t).waits = Function.update s.waits t none := by
  funext u
  by_cases hu : u = t
  · subst hu
    simp [State.waits, threadWaitRestoreDefault]
  · simp [State.waits, threadWaitRestoreDefault, hu, State.modifyThread_of_ne]

/-- The result of the walk is exact, given enough steps. The wait that the thread has
announced is never looked at. -/
def PathExact (s : State T Q N) (q₀ : Q) (t : T) (q : Q) : Prop :=
  ∃ n, ∀ fuel, n ≤ fuel → ∃ free,
    pathAcquireCritical fuel (threadWaitClaim s t q₀) q t = some free ∧
    (free = false ↔ Reaches s.waits s.owner q t)

theorem pathExact_of_forall {q₀ : Q} (free : Bool)
    (h : ∀ fuel, pathAcquireCritical (fuel + 1) (threadWaitClaim s t q₀) q t = some free)
    (hfree : free = false ↔ Reaches s.waits s.owner q t) : PathExact s q₀ t q := by
  refine ⟨1, fun fuel hfuel => ⟨free, ?_, hfree⟩⟩
  obtain ⟨k, rfl⟩ : ∃ k, fuel = k + 1 := ⟨fuel - 1, by omega⟩
  exact h k

theorem pathExact_of_free {q₀ : Q} (ho : s.owner q = none) : PathExact s q₀ t q := by
  have ho' : ((threadWaitClaim s t q₀).queue q).owner = none := ho
  refine pathExact_of_forall true (fun fuel => by simp [pathAcquireCritical, ho']) ?_
  exact iff_of_false (by simp) (not_reaches_of_free ho)

/-- The walk goes on with the queue that the owner waits on. -/
theorem pathExact_of_next {q₀ r : Q} {u : T} (ho : s.owner q = some u) (hu : u ≠ t)
    (hw : s.waits u = some r) (h : PathExact s q₀ t r) : PathExact s q₀ t q := by
  have ho' : ((threadWaitClaim s t q₀).queue q).owner = some u := ho
  have hw' : ((threadWaitClaim s t q₀).thread u).waitQueue = some r := by
    have := congrFun (waits_claim s t q₀) u
    rw [Function.update_of_ne hu, hw] at this
    exact this
  obtain ⟨n, hn⟩ := h
  refine ⟨n + 1, fun fuel hfuel => ?_⟩
  obtain ⟨k, rfl⟩ : ∃ k, fuel = k + 1 := ⟨fuel - 1, by omega⟩
  obtain ⟨free, hres, hfree⟩ := hn k (by omega)
  refine ⟨free, by simp [pathAcquireCritical, ho', hu, hw', hres], ?_⟩
  rw [hfree, reaches_iff_of_ne ho hu]
  simp [hw]

/-- The walk from a queue ends; it is refused exactly if it meets the thread. -/
theorem pathAcquireCritical_spec (hacyclic : Acyclic s.waits s.owner) (t : T) (q q₀ : Q) :
    PathExact s q₀ t q := by
  cases ho : s.owner q with
  | none => exact pathExact_of_free ho
  | some u =>
    induction hacyclic.apply u generalizing q with
    | intro u _ ih =>
      have ho' : ((threadWaitClaim s t q₀).queue q).owner = some u := ho
      by_cases hut : u = t
      · subst hut
        exact pathExact_of_forall false
          (fun fuel => by simp [pathAcquireCritical, ho']) (iff_of_true rfl (.holder ho))
      · cases hw : s.waits u with
        | none =>
          have hw' : ((threadWaitClaim s t q₀).thread u).waitQueue = none := by
            have := congrFun (waits_claim s t q₀) u
            rw [Function.update_of_ne hut, hw] at this
            exact this
          refine pathExact_of_forall true
            (fun fuel => by simp [pathAcquireCritical, ho', hut, hw']) ?_
          rw [reaches_iff_of_ne ho hut]
          simp [hw]
        | some r =>
          refine pathExact_of_next ho hut hw ?_
          cases hr : s.owner r with
          | none => exact pathExact_of_free hr
          | some v => exact ih v ⟨r, hw, hr⟩ r hr

end Path

section Updates

variable [DecidableEq T] {own : T → N → Prop} {s s' : State T Q N} {t u : T}
  {updates : List T}

theorem threadPriorityUpdate_states (s : State T Q N) (updates : List T) (u : T) :
    ((threadPriorityUpdate s updates).thread u).waitingForMutex = (s.thread u).waitingForMutex ∧
      ((threadPriorityUpdate s updates).thread u).lifeIsChanging =
        (s.thread u).lifeIsChanging ∧
      ((threadPriorityUpdate s updates).thread u).returnCode = (s.thread u).returnCode := by
  rw [thread_threadPriorityUpdate]
  split <;> simp

theorem threadUnblock_states (s : State T Q N) (t u : T) :
    ((threadUnblock s t).thread u).waitingForMutex =
        (if u = t then false else (s.thread u).waitingForMutex) ∧
      ((threadUnblock s t).thread u).lifeIsChanging = (s.thread u).lifeIsChanging ∧
      ((threadUnblock s t).thread u).returnCode = (s.thread u).returnCode := by
  rw [threadUnblock, thread_threadClearState]
  by_cases hu : u = t
  · subst hu
    by_cases hset : (s.thread u).waitingForMutex = true
    · rw [if_pos ⟨rfl, hset⟩]
      split <;> simp
    · simp [hset]
  · simp [hu]

/-- A change that keeps the priorities keeps what the scheduler nodes were told. -/
theorem Told.modifyThread (h : Told s) {f : Thread N Q → Thread N Q}
    (hpriority : (f (s.thread t)).waitPriority = (s.thread t).waitPriority)
    (hvalue : (f (s.thread t)).value = (s.thread t).value) : Told (s.modifyThread t f) := by
  intro u
  by_cases hu : u = t
  · subst hu
    rw [State.priority, State.modifyThread_self, hpriority, hvalue]
    exact h u
  · rw [State.priority, s.modifyThread_of_ne f hu]
    exact h u

/-- Passing on the updates moves every ready thread whose priority changed. -/
theorem Queued.update (h : Queued s) (htold : Told s')
    (hready : ∀ u, (s'.thread u).isReady = true → (s.thread u).isReady = true ∧
      (s'.thread u).currentPriority = (s.thread u).currentPriority ∧
      (s'.priority u = s.priority u ∨ u ∈ updates)) :
    Queued (threadPriorityUpdate s' updates) := by
  refine queued_threadPriorityUpdate htold fun u hu => ?_
  obtain ⟨hu, hcurrent, hsame | hmem⟩ := hready u hu
  · exact .inr (by rw [hcurrent, hsame, h u hu])
  · exact .inl hmem

omit [DecidableEq T] in
/-- A ready thread whose priority a walk changes is registered. -/
theorem Walked.ready (h : Walked s s' [] updates) (hready : (s'.thread u).isReady = true)
    (hblocked : (s.waits u).isSome = true → (s.thread u).waitingForMutex = true) :
    (s.thread u).isReady = true ∧
      (s'.thread u).currentPriority = (s.thread u).currentPriority ∧
      (s'.priority u = s.priority u ∨ u ∈ updates) := by
  have hready' : (s.thread u).isReady = true := by
    rw [Thread.isReady, ← h.frame.waitingForMutex, ← h.frame.lifeIsChanging]
    exact hready
  refine ⟨hready', h.frame.currentPriority u, ?_⟩
  rcases h.changed u with hsame | hmem | hwait
  · exact .inl hsame
  · exact .inr hmem
  · have hset := hblocked (Option.isSome_iff_ne_none.mpr hwait)
    simp [Thread.isReady, hset] at hready'

end Updates

section Enqueue

variable [DecidableEq T] [DecidableEq Q] [DecidableEq N] {C : Config T N} {own : T → N → Prop}
  {s : State T Q N} {t o : T} {q : Q}

omit [DecidableEq T] [DecidableEq Q] [DecidableEq N] in
theorem Invariant.hasOwn (h : Invariant C own s) (t : T) : ∃ node, own t node := ⟨_, h.real t⟩

omit [DecidableEq Q] [DecidableEq N] in
/-- A refused wait leaves nothing but the status behind. -/
theorem restoreDefault_claim (ht : s.waits t = none) (q : Q) :
    threadWaitRestoreDefault (threadWaitClaim s t q) t = s := by
  have hself : ({ s.thread t with waitQueue := none } : Thread N Q) = s.thread t := by
    rw [← ht]
    rfl
  simp [threadWaitRestoreDefault, threadWaitClaim, State.modifyThread, hself]

omit [DecidableEq Q] [DecidableEq N] in
/-- The thread that has entered the queue blocks, and the updates are passed on. -/
theorem Invariant.blocked_outcome (h : Invariant C own s) (ht : s.waits t = none)
    {s₁ : State T Q N} {updates : List T}
    (hwalked : Walked (threadWaitClaim s t q) s₁ [] updates) (hsettled : Settled own nobody s₁)
    (hacyclic : Acyclic (threadWaitClaim s t q).waits (threadWaitClaim s t q).owner) :
    let s' := threadPriorityUpdate (setWaitingForMutex (setReturnCode s₁ t .successful) t) updates
    Outcome C own s s' ∧ s'.waits = Function.update s.waits t (some q) ∧
      s'.owner = s.owner ∧ (s'.thread t).returnCode = .successful := by
  intro s'
  let s₂ := setWaitingForMutex (setReturnCode s₁ t .successful) t
  have hsame₂ : Same s₁ s₂ :=
    (same_modifyThread rfl rfl rfl).trans (same_modifyThread rfl rfl rfl)
  have hsame : Same s₁ s' := hsame₂.trans (same_threadPriorityUpdate s₂ updates)
  have hother : ∀ u, u ≠ t → s₂.thread u = s₁.thread u := by
    intro u hu
    simp [s₂, setWaitingForMutex, setReturnCode, State.modifyThread_of_ne, hu]
  have hclaim : ∀ u, u ≠ t → (threadWaitClaim s t q).thread u = s.thread u :=
    fun u hu => s.modifyThread_of_ne _ hu
  have hwaits : s'.waits = Function.update s.waits t (some q) := by
    rw [hsame.waits, hwalked.frame.waits, waits_claim]
  have howner : s'.owner = s.owner := hsame.owner.trans hwalked.frame.owner
  have htold : Told s₁ := hwalked.told (h.told.modifyThread rfl rfl)
  refine ⟨⟨⟨hsame.settled hsettled, ?_, h.real, h.disjoint, hsame.told htold, ?_, ?_⟩, ?_, ?_⟩,
    hwaits, howner, ?_⟩
  · rw [hsame.waits, hsame.owner, hwalked.frame.waits, hwalked.frame.owner]
    exact hacyclic
  · intro u
    rw [hwaits, (threadPriorityUpdate_states s₂ updates u).1]
    by_cases hu : u = t
    · subst hu
      simp [s₂, setWaitingForMutex]
    · rw [hother u hu, hwalked.frame.waitingForMutex, hclaim u hu, Function.update_of_ne hu]
      exact h.blocked u
  · rw [hwaits]
    exact finite_update_waits h.finite t (some q)
  · intro u
    rw [(threadPriorityUpdate_states s₂ updates u).2.1]
    by_cases hu : u = t
    · subst hu
      have := hwalked.frame.lifeIsChanging u
      simpa [s₂, setWaitingForMutex, setReturnCode, threadWaitClaim] using this
    · rw [hother u hu, hwalked.frame.lifeIsChanging, hclaim u hu]
  · intro hqueued
    refine hqueued.update (hsame₂.told htold) fun u hready => ?_
    have hu : u ≠ t := by
      rintro rfl
      simp [setWaitingForMutex, Thread.isReady] at hready
    rw [hother u hu] at hready ⊢
    have hclaimed := hwalked.ready hready (by
      rw [waits_claim, Function.update_of_ne hu, hclaim u hu, h.blocked u]
      exact id)
    rw [hclaim u hu] at hclaimed
    rw [hsame₂.priority]
    have hpriority : (threadWaitClaim s t q).priority u = s.priority u := by
      rw [State.priority, hclaim u hu]
      rfl
    rwa [hpriority] at hclaimed
  · rw [(threadPriorityUpdate_states s₂ updates t).2.2]
    simp [s₂, setWaitingForMutex, setReturnCode]

/-- An enqueue is refused exactly if it would close a cycle; otherwise the thread waits. -/
theorem threadQueueEnqueue_spec (h : Invariant C own s) (ht : s.waits t = none)
    (ho : s.owner q = some o) :
    ∃ n, ∀ fuel, n ≤ fuel →
      (Reaches s.waits s.owner q t →
        threadQueueEnqueue fuel s q t = some (setReturnCode s t .deadlock)) ∧
      (¬ Reaches s.waits s.owner q t → ∃ s', threadQueueEnqueue fuel s q t = some s' ∧
        Outcome C own s s' ∧ s'.waits = Function.update s.waits t (some q) ∧
        s'.owner = s.owner ∧ (s'.thread t).returnCode = .successful) := by
  obtain ⟨n, hn⟩ := pathAcquireCritical_spec h.acyclic t q q
  by_cases hreach : Reaches s.waits s.owner q t
  · refine ⟨n, fun fuel hfuel => ⟨fun _ => ?_, fun hnot => absurd hreach hnot⟩⟩
    obtain ⟨free, hpath, hfree⟩ := hn fuel hfuel
    rw [hfree.mpr hreach] at hpath
    simp only [threadQueueEnqueue, hpath, restoreDefault_claim ht]
  · have hacyclic : Acyclic (threadWaitClaim s t q).waits (threadWaitClaim s t q).owner := by
      rw [waits_claim]
      exact h.acyclic.wait hreach
    have hwait : (threadWaitClaim s t q).waits t = some q := by
      rw [waits_claim, Function.update_self]
    obtain ⟨m, hm⟩ :=
      inheritEnqueue_spec hacyclic (h.settled.claim ht q) (fun u => h.hasOwn u) hwait ho
    refine ⟨max n m, fun fuel hfuel => ⟨fun hyes => absurd hyes hreach, fun _ => ?_⟩⟩
    obtain ⟨free, hpath, hfree⟩ := hn fuel (by omega)
    obtain ⟨s₁, updates, hres, hwalked, hsettled⟩ := hm fuel (by omega)
    have htrue : free = true := by
      cases free with
      | false => exact absurd (hfree.mp rfl) hreach
      | true => rfl
    rw [htrue] at hpath
    refine ⟨threadPriorityUpdate (setWaitingForMutex (setReturnCode s₁ t .successful) t) updates,
      by simp [threadQueueEnqueue, hpath, hres], ?_⟩
    exact h.blocked_outcome ht hwalked hsettled hacyclic

end Enqueue

section Leave

variable [DecidableEq T] {C : Config T N} {own : T → N → Prop} {s s₁ s' : State T Q N} {t u : T}
  {q : Q} {updates : List T}

/-- A thread that has left its queue and is unblocked. -/
theorem Invariant.left (h : Invariant C own s) (hwalked : Walked s s₁ [] updates)
    (hsettled : Settled own (· = t) s₁) (hsame : Same (threadWaitRestoreDefault s₁ t) s')
    (hblocked : ∀ u, (s'.thread u).waitingForMutex =
      if u = t then false else (s.thread u).waitingForMutex) :
    Invariant C own s' ∧ s'.waits = Function.update s.waits t none ∧ s'.owner = s.owner := by
  have hwaits : s'.waits = Function.update s.waits t none := by
    rw [hsame.waits, waits_restoreDefault, hwalked.frame.waits]
  have howner : s'.owner = s.owner := hsame.owner.trans hwalked.frame.owner
  refine ⟨⟨hsame.settled hsettled.restoreDefault, ?_, h.real, h.disjoint,
    hsame.told ((hwalked.told h.told).modifyThread rfl rfl), ?_, ?_⟩, hwaits, howner⟩
  · rw [hwaits, howner]
    exact h.acyclic.stop t
  · intro u
    rw [hblocked, hwaits]
    by_cases hu : u = t
    · subst hu
      simp
    · rw [if_neg hu, Function.update_of_ne hu]
      exact h.blocked u
  · rw [hwaits]
    exact finite_update_waits h.finite t none

theorem restoreDefault_states (s : State T Q N) (t u : T) :
    ((threadWaitRestoreDefault s t).thread u).waitingForMutex = (s.thread u).waitingForMutex ∧
      ((threadWaitRestoreDefault s t).thread u).lifeIsChanging = (s.thread u).lifeIsChanging ∧
      ((threadWaitRestoreDefault s t).thread u).currentPriority =
        (s.thread u).currentPriority := by
  by_cases hu : u = t
  · subst hu
    simp [threadWaitRestoreDefault]
  · simp [threadWaitRestoreDefault, State.modifyThread_of_ne, hu]

theorem priority_restoreDefault (s : State T Q N) (t u : T) :
    (threadWaitRestoreDefault s t).priority u = s.priority u := by
  by_cases hu : u = t
  · subst hu
    simp [State.priority, threadWaitRestoreDefault]
  · simp [State.priority, threadWaitRestoreDefault, State.modifyThread_of_ne, hu]

/-- A blocked thread that gets ready is queued under its priority. -/
theorem queued_threadUnblock (htold : Told s) (hset : (s.thread t).waitingForMutex = true)
    (hready : ((threadUnblock s t).thread t).isReady = true) :
    ((threadUnblock s t).thread t).currentPriority = (threadUnblock s t).priority t := by
  rw [(same_threadUnblock s t).priority]
  rw [threadUnblock, thread_threadClearState, if_pos ⟨rfl, hset⟩] at hready ⊢
  split
  · exact htold t
  · rename_i hnot
    rw [if_neg hnot] at hready
    exact absurd hready hnot

theorem setReturnCode_states (s : State T Q N) (t : T) (status : Status) (u : T) :
    ((setReturnCode s t status).thread u).waitingForMutex = (s.thread u).waitingForMutex ∧
      ((setReturnCode s t status).thread u).lifeIsChanging = (s.thread u).lifeIsChanging ∧
      ((setReturnCode s t status).thread u).currentPriority = (s.thread u).currentPriority := by
  by_cases hu : u = t
  · subst hu
    simp [setReturnCode]
  · simp [setReturnCode, State.modifyThread_of_ne, hu]

/-- A status concerns nothing else. -/
theorem Invariant.withReturnCode (h : Invariant C own s) (t : T) (status : Status) :
    Outcome C own s (setReturnCode s t status) := by
  have hsame : Same s (setReturnCode s t status) := same_modifyThread rfl rfl rfl
  have hstates := setReturnCode_states s t status
  refine ⟨⟨hsame.settled h.settled, ?_, h.real, h.disjoint, hsame.told h.told, ?_, ?_⟩,
    fun u => (hstates u).2.1, ?_⟩
  · rw [hsame.waits, hsame.owner]
    exact h.acyclic
  · intro u
    rw [(hstates u).1, hsame.waits]
    exact h.blocked u
  · rw [hsame.waits]
    exact h.finite
  · intro hqueued u hready
    rw [Thread.isReady, (hstates u).1, (hstates u).2.1] at hready
    rw [(hstates u).2.2, hsame.priority]
    exact hqueued u hready

variable [DecidableEq Q] [DecidableEq N]

/-- A timeout ends the wait and passes the updates on. -/
theorem threadContinue_spec (h : Invariant C own s) (t : T) (status : Status) :
    ∃ n, ∀ fuel, n ≤ fuel → ∃ s', threadContinue fuel s t status = some s' ∧
      Outcome C own s s' := by
  cases hq : s.waits t with
  | none =>
    have hq' : (s.thread t).waitQueue = none := hq
    exact ⟨0, fun fuel _ => ⟨s, by simp [threadContinue, hq'], h, fun _ => rfl, id⟩⟩
  | some q =>
    have hq' : (s.thread t).waitQueue = some q := hq
    obtain ⟨n, hn⟩ := inheritExtract_spec h.acyclic h.settled (fun u => h.hasOwn u) hq
    refine ⟨n, fun fuel hfuel => ?_⟩
    obtain ⟨s₁, updates, hres, hwalked, hsettled⟩ := hn fuel hfuel
    let s₂ := setReturnCode (threadWaitRestoreDefault s₁ t) t status
    have hsame₂ : Same (threadWaitRestoreDefault s₁ t) s₂ := same_modifyThread rfl rfl rfl
    have htold : Told s₂ := hsame₂.told ((hwalked.told h.told).modifyThread rfl rfl)
    have hstates : ∀ u, (s₂.thread u).waitingForMutex = (s.thread u).waitingForMutex ∧
        (s₂.thread u).lifeIsChanging = (s.thread u).lifeIsChanging ∧
        (s₂.thread u).currentPriority = (s₁.thread u).currentPriority := by
      intro u
      obtain ⟨hm, hl, hc⟩ := setReturnCode_states (threadWaitRestoreDefault s₁ t) t status u
      obtain ⟨hm', hl', hc'⟩ := restoreDefault_states s₁ t u
      exact ⟨(hm.trans hm').trans (hwalked.frame.waitingForMutex u),
        (hl.trans hl').trans (hwalked.frame.lifeIsChanging u), hc.trans hc'⟩
    have hsame : Same (threadWaitRestoreDefault s₁ t)
        (threadUnblock (threadPriorityUpdate s₂ updates) t) :=
      (hsame₂.trans (same_threadPriorityUpdate s₂ updates)).trans (same_threadUnblock _ t)
    refine ⟨threadUnblock (threadPriorityUpdate s₂ updates) t,
      by simp [threadContinue, hq', hres, s₂], (h.left hwalked hsettled hsame ?_).1, ?_, ?_⟩
    · intro u
      rw [(threadUnblock_states _ t u).1, (threadPriorityUpdate_states s₂ updates u).1,
        (hstates u).1]
    · intro u
      rw [(threadUnblock_states _ t u).2.1, (threadPriorityUpdate_states s₂ updates u).2.1,
        (hstates u).2.1]
    · intro hqueued
      refine Queued.threadClearState ?_ ((same_threadPriorityUpdate s₂ updates).told htold)
        rfl rfl rfl
      refine hqueued.update htold fun u hready => ?_
      have hready₁ : (s₁.thread u).isReady = true := by
        rw [Thread.isReady, hwalked.frame.waitingForMutex, hwalked.frame.lifeIsChanging,
          ← (hstates u).1, ← (hstates u).2.1]
        exact hready
      have hwalk := hwalked.ready hready₁ (by rw [h.blocked u]; exact id)
      rw [(hstates u).2.2, hsame₂.priority]
      refine ⟨hwalk.1, hwalk.2.1, ?_⟩
      rw [priority_restoreDefault]
      exact hwalk.2.2

/-- An extract ends the wait; who changed is not told to the scheduler. -/
theorem threadQueueExtract_spec (h : Invariant C own s) (t : T) :
    ∃ n, ∀ fuel, n ≤ fuel → ∃ s', threadQueueExtract fuel s t = some s' ∧ Invariant C own s' ∧
      (∀ u, (s'.thread u).lifeIsChanging = (s.thread u).lifeIsChanging) ∧
      s'.waits = Function.update s.waits t none ∧ s'.owner = s.owner ∧
      s'.nodePriority = s.nodePriority ∧
      (Queued s → (∀ u, u ≠ t → (s.thread u).isReady = true → s'.priority u = s.priority u) →
        Queued s') := by
  cases hq : s.waits t with
  | none =>
    have hq' : (s.thread t).waitQueue = none := hq
    refine ⟨0, fun fuel _ => ⟨s, by simp [threadQueueExtract, hq'], h, fun _ => rfl, ?_, rfl, rfl,
      fun hqueued _ => hqueued⟩⟩
    rw [← hq, Function.update_eq_self]
  | some q =>
    have hq' : (s.thread t).waitQueue = some q := hq
    obtain ⟨n, hn⟩ := inheritExtract_spec h.acyclic h.settled (fun u => h.hasOwn u) hq
    refine ⟨n, fun fuel hfuel => ?_⟩
    obtain ⟨s₁, updates, hres, hwalked, hsettled⟩ := hn fuel hfuel
    have hsame := same_threadUnblock (threadWaitRestoreDefault s₁ t) t
    have hthread : ∀ u, u ≠ t →
        (threadUnblock (threadWaitRestoreDefault s₁ t) t).thread u = s₁.thread u := by
      intro u hu
      rw [threadUnblock, thread_threadClearState, if_neg fun hset => hu hset.1]
      exact s₁.modifyThread_of_ne _ hu
    obtain ⟨hinvariant, hwaits, howner⟩ := h.left hwalked hsettled hsame (by
      intro u
      rw [(threadUnblock_states _ t u).1, (restoreDefault_states s₁ t u).1,
        hwalked.frame.waitingForMutex])
    refine ⟨threadUnblock (threadWaitRestoreDefault s₁ t) t,
      by simp [threadQueueExtract, hq', hres], hinvariant, ?_, hwaits, howner,
      hsame.nodePriority.trans hwalked.frame.nodePriority, ?_⟩
    · intro u
      rw [(threadUnblock_states _ t u).2.1, (restoreDefault_states s₁ t u).2.1,
        hwalked.frame.lifeIsChanging]
    · intro hqueued hkept u hready
      by_cases hu : u = t
      · subst hu
        exact queued_threadUnblock ((hwalked.told h.told).modifyThread rfl rfl) (by
          rw [(restoreDefault_states s₁ u u).1, hwalked.frame.waitingForMutex, h.blocked, hq]
          rfl) hready
      · rw [hthread u hu] at hready ⊢
        have hready' : (s.thread u).isReady = true := by
          rw [Thread.isReady, ← hwalked.frame.waitingForMutex, ← hwalked.frame.lifeIsChanging]
          exact hready
        rw [hwalked.frame.currentPriority, hkept u hu hready', hqueued u hready']

end Leave

section Own

variable [DecidableEq Q] {C : Config T N} {own : T → N → Prop} {s : State T Q N} {t : T} {q : Q}

theorem owner_modifyQueue (s : State T Q N) (q : Q) (x : Option T) :
    (s.modifyQueue q fun d => { d with owner := x }).owner = Function.update s.owner q x := by
  funext r
  by_cases hr : r = q
  · subst hr
    simp [State.owner]
  · simp [State.owner, s.modifyQueue_of_ne _ hr, hr]

/-- The nest level concerns nothing else. -/
theorem Invariant.setNestLevel (h : Invariant C own s) (f : Nat → Nat) :
    Outcome C own s (s.modifyQueue q fun d => { d with nestLevel := f d.nestLevel }) := by
  have hre : Requeued s (s.modifyQueue q fun d => { d with nestLevel := f d.nestLevel }) q :=
    ⟨rfl, rfl, (frame_modifyQueue (by simp)).owner, fun r hr => s.modifyQueue_of_ne _ hr⟩
  have hwaiters : (s.modifyQueue q fun d => { d with nestLevel := f d.nestLevel }).waiters q =
      s.waiters q := waiters_modifyQueue _ (by simp) q
  have hq := h.settled.queues q
  refine ⟨⟨⟨fun u => hre.threadOk_owner (h.settled.threads u) (by rw [hwaiters]) ?_,
    hre.queues h.settled.queues ?_ (by rw [hwaiters]; exact hq.mem) ?_ fun _ _ => .rfl⟩,
    ?_, h.real, h.disjoint, h.told, h.blocked, h.finite⟩, fun _ => rfl, id⟩
  · rw [State.modifyQueue_self]
  · rw [State.modifyQueue_self]
    exact hq.ok
  · rw [hwaiters, State.modifyQueue_self]
    exact hq.owner
  · rw [hre.frame.waits, hre.owner]
    exact h.acyclic

/-- A queue without waiters may get a new owner that does not wait, or none. -/
theorem Invariant.setOwner (h : Invariant C own s) (hempty : s.waiters q = []) {x : Option T}
    (hx : ∀ t, x = some t → s.waits t = none) :
    Outcome C own s (s.modifyQueue q fun d => { d with owner := x }) := by
  have hwaiters : ∀ r, (s.modifyQueue q fun d => { d with owner := x }).waiters r = s.waiters r :=
    waiters_modifyQueue _ (by simp)
  refine ⟨⟨⟨fun u => ?_, fun r => ?_⟩, ?_, h.real, h.disjoint, h.told, h.blocked, h.finite⟩,
    fun _ => rfl, id⟩
  · refine (h.settled.threads u).elsewhere rfl rfl (fun r hr => s.modifyQueue_of_ne _ hr) ?_ ?_
    · rintro ⟨-, v, hv⟩
      rw [hempty] at hv
      exact List.not_mem_nil hv
    · rintro ⟨-, v, hv⟩
      rw [hwaiters, hempty] at hv
      exact List.not_mem_nil hv
  · obtain ⟨hok, hmem, howner⟩ := h.settled.queues r
    refine ⟨?_, fun u => by rw [hwaiters]; exact hmem u, ?_⟩
    · by_cases hr : r = q
      · subst hr
        rw [State.modifyQueue_self]
        exact hok
      · rw [s.modifyQueue_of_ne _ hr]
        exact hok
    · rw [hwaiters]
      intro u hu
      have hr : r ≠ q := by
        rintro rfl
        rw [hempty] at hu
        exact List.not_mem_nil hu
      rw [owner_modifyQueue, Function.update_of_ne hr, s.modifyQueue_of_ne _ hr]
      exact howner u hu
  · rw [owner_modifyQueue]
    cases x with
    | none => exact h.acyclic.release q
    | some t => exact h.acyclic.take (hx t rfl) q

end Own

section Surrender

variable [DecidableEq T] [DecidableEq Q] [DecidableEq N] {C : Config T N} {own : T → N → Prop}
  {s : State T Q N} {t : T} {q : Q}

/-- The hand-over to the first waiter. -/
theorem threadQueueSurrender_spec (h : Invariant C own s) (ho : s.owner q = some t)
    (ht : s.waits t = none) (hne : ∃ u, u ∈ s.waiters q) :
    ∃ s', threadQueueSurrender (s.modifyQueue q fun d => { d with owner := none }) q t = some s' ∧
      Outcome C own s s' := by
  obtain ⟨s₁, first, updates, hres, hfirst, hsettled, hframe, hchanged, htold⟩ :=
    inheritSurrender_spec h.settled (fun u => h.hasOwn u) ho ht hne
  let s₂ := threadWaitRestoreDefault (s₁.modifyQueue q fun d => { d with owner := some first }) first
  have htold₂ : Told s₂ := (htold h.told).modifyThread rfl rfl
  have hsame := (same_threadPriorityUpdate s₂ updates).trans (same_threadUnblock _ first)
  have hwaits : s₂.waits = Function.update s.waits first none := by
    rw [waits_restoreDefault, hframe.waits]
    rfl
  have howner : s₂.owner = Function.update s.owner q (some first) :=
    hframe.owner.trans (owner_modifyQueue s q (some first))
  have hstates : ∀ u, (s₂.thread u).waitingForMutex = (s.thread u).waitingForMutex ∧
      (s₂.thread u).lifeIsChanging = (s.thread u).lifeIsChanging ∧
      (s₂.thread u).currentPriority = (s.thread u).currentPriority := by
    intro u
    obtain ⟨hm, hl, hc⟩ := restoreDefault_states
      (s₁.modifyQueue q fun d => { d with owner := some first }) first u
    exact ⟨hm.trans (hframe.waitingForMutex u), hl.trans (hframe.lifeIsChanging u),
      hc.trans (hframe.currentPriority u)⟩
  refine ⟨threadUnblock (threadPriorityUpdate s₂ updates) first,
    by simp [threadQueueSurrender, hres, s₂], ⟨hsame.settled hsettled.restoreDefault, ?_, h.real,
      h.disjoint, hsame.told htold₂, ?_, ?_⟩, ?_, ?_⟩
  · rw [hsame.waits, hsame.owner, hwaits, howner]
    exact (h.acyclic.stop first).take (Function.update_self ..) q
  · intro u
    rw [(threadUnblock_states _ first u).1, (threadPriorityUpdate_states s₂ updates u).1,
      (hstates u).1, hsame.waits, hwaits]
    by_cases hu : u = first
    · subst hu
      simp
    · rw [if_neg hu, Function.update_of_ne hu]
      exact h.blocked u
  · rw [hsame.waits, hwaits]
    exact finite_update_waits h.finite first none
  · intro u
    rw [(threadUnblock_states _ first u).2.1, (threadPriorityUpdate_states s₂ updates u).2.1,
      (hstates u).2.1]
  · intro hqueued
    refine Queued.threadClearState ?_ ((same_threadPriorityUpdate s₂ updates).told htold₂)
      rfl rfl rfl
    refine hqueued.update htold₂ fun u hready => ⟨?_, (hstates u).2.2, ?_⟩
    · rw [Thread.isReady, ← (hstates u).1, ← (hstates u).2.1]
      exact hready
    · rw [priority_restoreDefault]
      exact hchanged u

/-- A surrender always returns. -/
theorem recursiveMutexSurrender_spec (h : Invariant C own s) (ht : s.waits t = none) (q : Q) :
    ∃ s' status, recursiveMutexSurrender s q t = some (s', status) ∧ Outcome C own s s' := by
  by_cases ho : (s.queue q).owner = some t
  · by_cases hnest : 0 < (s.queue q).nestLevel
    · exact ⟨_, .successful, by simp [recursiveMutexSurrender, ho, hnest],
        h.setNestLevel (q := q) fun level => level - 1⟩
    · by_cases hempty : s.waiters q = []
      · refine ⟨_, .successful, ?_, h.setOwner hempty (x := none) (by simp)⟩
        have : (s.queue q).heads.isEmpty = true := List.isEmpty_iff.mpr hempty
        simp [recursiveMutexSurrender, ho, hnest, this]
      · obtain ⟨s', hres, houtcome⟩ :=
          threadQueueSurrender_spec h ho ht (List.exists_mem_of_ne_nil _ hempty)
        refine ⟨s', .successful, ?_, houtcome⟩
        have : ¬ (s.queue q).heads.isEmpty = true := fun hnil => hempty (List.isEmpty_iff.mp hnil)
        simp [recursiveMutexSurrender, ho, hnest, this, hres]
  · exact ⟨s, .notOwner, by simp [recursiveMutexSurrender, ho], h, fun _ => rfl, id⟩

/-- A seize always returns or blocks the caller, given enough steps for its walks. -/
theorem recursiveMutexSeize_spec (h : Invariant C own s) (ht : s.waits t = none) (q : Q)
    (wait : Bool) :
    ∃ n, ∀ fuel, n ≤ fuel → ∃ s' status,
      recursiveMutexSeize fuel s q t wait = some (s', status) ∧ Outcome C own s s' := by
  cases ho : (s.queue q).owner with
  | none =>
    have hempty : s.waiters q = [] := by
      rw [List.eq_nil_iff_forall_not_mem]
      intro u hu
      obtain ⟨o, ho', -⟩ := (h.settled.queues q).owner u hu
      rw [State.owner, ho] at ho'
      cases ho'
    refine ⟨0, fun fuel _ => ⟨_, some .successful, by rw [recursiveMutexSeize, ho],
      h.setOwner hempty (x := some t) ?_⟩⟩
    rintro u hu
    cases hu
    exact ht
  | some o =>
    by_cases hot : o = t
    · subst hot
      exact ⟨0, fun fuel _ => ⟨_, some .successful, by simp [recursiveMutexSeize, ho],
        h.setNestLevel (q := q) fun level => (level + 1) % 2 ^ 32⟩⟩
    · cases wait with
      | false =>
        exact ⟨0, fun fuel _ => ⟨s, some .unavailable, by simp [recursiveMutexSeize, ho, hot], h,
          fun _ => rfl, id⟩⟩
      | true =>
        obtain ⟨n, hn⟩ := threadQueueEnqueue_spec h ht ho
        refine ⟨n, fun fuel hfuel => ?_⟩
        obtain ⟨hrefused, hwaiting⟩ := hn fuel hfuel
        have hseize : recursiveMutexSeize fuel s q t true =
            (threadQueueEnqueue fuel s q t).map fun s =>
              (s, if (s.thread t).isReady then some (s.thread t).returnCode else none) := by
          simp only [recursiveMutexSeize, ho, if_neg hot, if_true]
        by_cases hreach : Reaches s.waits s.owner q t
        · rw [hseize, hrefused hreach]
          exact ⟨_, _, rfl, h.withReturnCode t .deadlock⟩
        · obtain ⟨s', hres, houtcome, -⟩ := hwaiting hreach
          rw [hseize, hres]
          exact ⟨_, _, rfl, houtcome⟩

end Surrender

end Rtems.ThreadQueue
