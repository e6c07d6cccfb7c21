import Rtems.Models.ThreadQueue.Exact

/-!
# When the scheduler learns of a priority change

Seize, surrender, timeouts and priority changes pass the registered updates on to the
scheduler. The extract of a life change drops them. It does no harm exactly if each ready
thread that the extracted thread waits for has another reason to be as urgent.
-/

namespace Rtems.ThreadQueue

variable {T Q N : Type*} {C : Config T N} {own : T → N → Prop} {s : State T Q N} {t u w : T}

/-- Each ready thread that the given one waits for has itself, or through a thread that does
not wait for the given one, an own priority that is at least as urgent. -/
def Covered (s : State T Q N) (w : T) : Prop :=
  ∀ u, (s.thread u).isReady = true → WaitsThrough s w u →
    ∃ v node, Relation.ReflTransGen (WaitsFor s.waits s.owner) v u ∧
      ¬ Relation.ReflTransGen (WaitsFor s.waits s.owner) v w ∧
      .own node ∈ (s.thread v).waitPriority.contributors ∧ s.nodePriority node ≤ s.priority w

/-- The operation takes no thread out of a queue without telling the scheduler, or the
thread is covered. -/
def Safe (C : Config T N) (s : State T Q N) : Op T Q N → Prop
  | .extract t => Covered s t
  | .cancel t _ => C.isLifeChangeAllowed t = true → Covered s t
  | .restart t => C.isLifeChangeAllowed t = true → Covered s t
  | _ => True

/-- The operation passes the registered updates on to the scheduler. -/
def passesOn : Op T Q N → Bool
  | .extract _ => false
  | .cancel _ _ => false
  | .restart _ => false
  | _ => true

theorem safe_of_passesOn {op : Op T Q N} (h : passesOn op = true) : Safe C s op := by
  cases op with
  | extract t => cases h
  | cancel t executing => cases h
  | restart t => cases h
  | _ => trivial

variable [DecidableEq T]

/-- Taking a covered thread out of its queue changes no ready thread's priority. -/
theorem Invariant.priority_stop (h : Invariant C own s) {s' : State T Q N}
    (h' : Invariant C own s') (hwaits : s'.waits = Function.update s.waits w none)
    (howner : s'.owner = s.owner) (hnode : s'.nodePriority = s.nodePriority)
    (hcovered : Covered s w) (hne : u ≠ w) (hready : (s.thread u).isReady = true) :
    s'.priority u = s.priority u := by
  have hleast := h.isLeast_nodesThrough
  have hleast' := h'.isLeast_nodesThrough
  simp only [nodesThrough, hwaits, howner, hnode] at hleast'
  apply le_antisymm
  · obtain ⟨v, node, hpath, hown, hpriority⟩ := (hleast u).1
    by_cases hw : Relation.ReflTransGen (WaitsFor s.waits s.owner) v w
    · have hend : s.waits u = none := by
        have := h.blocked u
        simp only [Thread.isReady, this, Bool.and_eq_true, Bool.not_eq_true'] at hready
        simpa using hready.1
      obtain ⟨v', node', hpath', hnot, hmem, hle⟩ :=
        hcovered u hready (transGen_of_paths hw hpath hend hne)
      calc s'.priority u ≤ s.nodePriority node' :=
            (hleast' u).2 ⟨v', node', path_stop hpath' hnot,
              (h.own_iff v' node').mp hmem, rfl⟩
        _ ≤ s.priority w := hle
        _ ≤ s.nodePriority node := (hleast w).2 ⟨v, node, hw, hown, rfl⟩
        _ = s.priority u := hpriority
    · rw [← hpriority]
      exact (hleast' u).2 ⟨v, node, path_stop hpath hw, hown, rfl⟩
  · obtain ⟨v, node, hpath, hown, hpriority⟩ := (hleast' u).1
    rw [← hpriority]
    exact (hleast u).2 ⟨v, node, path_of_stop hpath, hown, rfl⟩

/-- A covered thread stays covered when its life change begins. -/
theorem Covered.add (h : Covered s w) (hacyclic : Acyclic s.waits s.owner) :
    Covered (threadAddLifeChangeRequest s w) w := by
  have hsame : Same s (threadAddLifeChangeRequest s w) := same_modifyThread rfl rfl rfl
  intro u hready hwait
  rw [WaitsThrough, hsame.waits, hsame.owner] at hwait
  have hu : u ≠ w := by
    rintro rfl
    exact hacyclic.irrefl u hwait
  rw [threadAddLifeChangeRequest, s.modifyThread_of_ne _ hu] at hready
  rw [hsame.waits, hsame.owner, hsame.nodePriority, hsame.priority]
  simp only [hsame.waitPriority]
  exact h u hready hwait

variable [DecidableEq Q] [DecidableEq N]

theorem Invariant.undisturbed (h : Invariant C own s) (hcovered : Covered s w) :
    Undisturbed s w := by
  intro fuel s₁ hres u hu hready
  obtain ⟨s', hret, hinvariant, -, hwaits, howner, hnode, -⟩ :=
    (steady_threadQueueExtract s w).exists_returns (threadQueueExtract_spec h w)
  cases hret.eq_of_steady (steady_threadQueueExtract s w) hres
  exact h.priority_stop hinvariant hwaits howner hnode hcovered hu hready

/-- A safe operation is not silent. -/
theorem Invariant.not_silent (h : Invariant C own s) {op : Op T Q N} (hsafe : Safe C s op) :
    ¬ Silent C s op := by
  cases op with
  | extract t => exact fun hsilent => hsilent (h.undisturbed hsafe)
  | cancel t executing =>
    rintro ⟨hallowed, hsilent⟩
    exact hsilent ((h.addLifeChangeRequest t).1.undisturbed ((hsafe hallowed).add h.acyclic))
  | restart t =>
    rintro ⟨hallowed, hsilent⟩
    exact hsilent ((h.addLifeChangeRequest t).1.undisturbed ((hsafe hallowed).add h.acyclic))
  | _ => exact id

/-- A run of safe operations leaves every ready thread queued rightly. -/
theorem queued_of_run {start : State T Q N} {actions : List (Nat × Op T Q N)}
    (hstart : Initialized C start)
    (hrun : Run (step C) (fun s action => Legal C s action.2 ∧ Safe C s action.2) start actions
      s) : Queued s := by
  induction hrun with
  | nil => exact hstart.queued
  | snoc hbefore hguard hstep ih =>
    rename_i actions s s' action
    obtain ⟨fuel, op⟩ := action
    obtain ⟨hinvariant, halive⟩ :=
      invariant_of_run hstart (hbefore.mono fun _ _ hguard => hguard.1)
    obtain ⟨s'', hret, hstepped⟩ := step_spec hinvariant halive hguard.1
    cases hret.eq_of_steady (steady_step C s op) hstep
    exact hstepped.queued ih (hinvariant.not_silent hguard.2)

/-- In every run of safe operations every ready thread is queued under its effective
priority in every state reached, and every legal operation completes. -/
theorem scheduler_told_of_safe {start : State T Q N} {actions : List (Nat × Op T Q N)}
    (hstart : Initialized C start)
    (hrun : Run (step C) (fun s action => Legal C s action.2 ∧ Safe C s action.2) start actions
      s) :
    (∀ t, (s.thread t).isReady = true → (s.thread t).currentPriority = s.priority t) ∧
      ∀ op, Legal C s op → ∃ s', Returns (fun fuel => step C s (fuel, op)) s' := by
  refine ⟨queued_of_run hstart hrun, fun op hlegal => ?_⟩
  obtain ⟨hinvariant, halive⟩ :=
    invariant_of_run hstart (hrun.mono fun _ _ hguard => hguard.1)
  obtain ⟨s', hret, -⟩ := step_spec hinvariant halive hlegal
  exact ⟨s', hret⟩

/-- The second thread waits like the more urgent third one, so its deletion is safe. -/
theorem scheduler_told_of_safe_cancel :
    ∃ fuel s, Run (step threeThreads)
        (fun s action => Legal threeThreads s action.2 ∧ Safe threeThreads s action.2) atRest
        [(9, .seize 0 0 true), (9, .seize 0 1 true), (9, .seize 0 2 true), (fuel, .cancel 1 0)] s ∧
      Queued s := by
  have hexec : (exec (step threeThreads)
      (fun s action => Legal threeThreads s action.2 ∧ passesOn action.2 = true) atRest
      [(9, .seize 0 0 true), (9, .seize 0 1 true), (9, .seize 0 2 true)]).map
        (fun s => (s.owner 0, [s.waits 0, s.waits 1, s.waits 2], s.priority 1, s.nodePriority 2,
          (s.thread 2).waitPriority.contributors)) =
      some (some 0, [none, some 0, some 0], 20, 10, [.own 2]) := rfl
  obtain ⟨s, hs, hstate⟩ := Option.map_eq_some_iff.mp hexec
  simp only [Prod.mk.injEq, List.cons.injEq, and_true] at hstate
  obtain ⟨howner, ⟨hwait₀, hwait₁, hwait₂⟩, hpriority, hnode, hmem⟩ := hstate
  have hbefore : Run (step threeThreads)
      (fun s action => Legal threeThreads s action.2 ∧ Safe threeThreads s action.2) atRest _ s :=
    (Run.of_exec hs).mono fun _ _ hguard => ⟨hguard.1, safe_of_passesOn hguard.2⟩
  have hend : ∀ v u, WaitsFor s.waits s.owner v u → v ≠ 0 ∧ u = 0 := by
    rintro v u ⟨q, hq, ho⟩
    have hv : v = 0 ∨ v = 1 ∨ v = 2 := by omega
    rcases hv with rfl | rfl | rfl
    · cases hwait₀.symm.trans hq
    · cases hwait₁.symm.trans hq
      exact ⟨by decide, Option.some.inj (ho.symm.trans howner)⟩
    · cases hwait₂.symm.trans hq
      exact ⟨by decide, Option.some.inj (ho.symm.trans howner)⟩
  have hcovered : Covered s 1 := by
    intro u _ hwait
    have hu : u = 0 := by
      cases hwait with
      | single hedge => exact (hend _ _ hedge).2
      | tail _ hedge => exact (hend _ _ hedge).2
    subst hu
    refine ⟨2, 2, .single ⟨0, hwait₂, howner⟩, fun hpath => ?_, by simp [hmem],
      by rw [hnode, hpriority]; decide⟩
    rcases Relation.ReflTransGen.cases_head hpath with heq | ⟨v, hedge, hrest⟩
    · exact absurd heq (by decide)
    · rw [(hend _ _ hedge).2] at hrest
      rcases Relation.ReflTransGen.cases_head hrest with heq | ⟨v', hedge', -⟩
      · exact absurd heq (by decide)
      · exact (hend _ _ hedge').1 rfl
  have hlegal : Legal threeThreads s (.cancel 1 0) := show (1 : Fin 3) ≠ 0 by decide
  obtain ⟨hinvariant, halive⟩ :=
    invariant_of_run initialized_atRest (hbefore.mono fun _ _ hguard => hguard.1)
  obtain ⟨s', ⟨n, hn⟩, -⟩ := step_spec hinvariant halive hlegal
  have hsafe : Safe threeThreads s (.cancel 1 0) := fun _ => hcovered
  have hrun := hbefore.snoc (a := (n, .cancel 1 0)) ⟨hlegal, hsafe⟩ (hn n le_rfl)
  exact ⟨n, s', hrun, (scheduler_told_of_safe initialized_atRest hrun).1⟩

/-- The first thread owns a queue and inherits the priority of the third one. When the
third one is deleted, the scheduler keeps the first one at the inherited priority. -/
theorem scheduler_not_told_of_cancel :
    Initialized threeThreads atRest ∧
    ∃ s, Run (step threeThreads) (fun s action => Legal threeThreads s action.2) atRest
        [(9, .seize 0 0 true), (9, .seize 0 2 true), (9, .cancel 2 0)] s ∧
      (s.thread 0).isReady = true ∧ (s.thread 0).currentPriority = 10 ∧ s.priority 0 = 30 := by
  refine ⟨initialized_atRest, Run.exists_of_map_exec
    (fun s => ((s.thread 0).isReady, (s.thread 0).currentPriority, s.priority 0)) (true, 10, 30)
    (by decide) ?_⟩
  intro s _ hstate
  simpa only [Prod.mk.injEq] using hstate

end Rtems.ThreadQueue
