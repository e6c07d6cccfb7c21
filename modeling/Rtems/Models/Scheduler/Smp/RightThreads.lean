import Rtems.Models.Scheduler.Smp.Preservation
import Rtems.Models.Scheduler.Smp.Priority
import Rtems.Models.Scheduler.Smp.Simple

/-!
# The right threads are scheduled

In every state that an instance of the simple or of the deterministic priority SMP
scheduler reaches, the scheduled nodes are as many as the processors, are ordered, and
have the best priorities, and the heirs are their users.
-/

namespace Rtems.Scheduler.Smp

variable {T C R : Type*} [DecidableEq T] [DecidableEq C]

/-- `_Scheduler_SMP_Is_processor_owned_by_us`. -/
def Instance.isOwned (I : Instance T C) (cpu : C) : Bool := decide (cpu ∈ I.cpus)

/-- The scheduled nodes are the right ones, with `inReady` the members of the ready set. -/
structure RightThreads (I : Instance T C) (inReady : T → Prop) (s : State T C R) : Prop where
  length_scheduled : s.scheduled.length = I.cpus.length
  scheduled_nodup : s.scheduled.Nodup
  sorted : SortedBy s.priority s.scheduled
  le_ready : ∀ r, inReady r → ∀ u ∈ s.scheduled, s.priority u ≤ s.priority r
  mem_scheduled : ∀ u, u ∈ s.scheduled ↔ (s.node u).state = .scheduled
  mem_ready : ∀ u, inReady u ↔ (s.node u).state = .ready
  heirs_nodup : (I.cpus.map s.heir).Nodup
  mem_heirs : ∀ t, t ∈ I.cpus.map s.heir ↔ ∃ n ∈ s.scheduled, (s.node n).user = t

section Runs

variable {cb : Callbacks T C R} {rep : Represents T R} {I : Instance T C} {s : State T C R}

omit [DecidableEq T] [DecidableEq C] in
/-- The invariant says that the right threads are scheduled. -/
theorem Invariant.rightThreads (h : Invariant I (totalOrder rep).queues nobody nobody s)
    {inReady : T → Prop}
    (hready : ∀ u, inReady u ↔ (s.node u).state = .ready) : RightThreads I inReady s := by
  have hmem : ∀ u, u ∈ s.scheduled ↔ (s.node u).state = .scheduled := by
    intro u
    rw [h.mem_iff]
    simp [nobody]
  have hheirs : Assignment (· ∈ I.cpus) s.cpu s.heir (· ∈ s.scheduled) :=
    h.heirs.congr (fun u => by simp [hmem, nobody]) fun _ _ => rfl
  refine ⟨hheirs.length_eq I.cpus_nodup h.nodup, h.nodup, h.sorted, ?_, hmem, hready, ?_, ?_⟩
  · intro r hr
    exact h.queues.2 r ⟨(hready r).mp hr, id⟩
  · refine I.cpus_nodup.map_on ?_
    intro c hc d hd he
    rw [← hheirs.slot_holder c hc, he, hheirs.slot_holder d hd]
  · intro t
    rw [List.mem_map]
    constructor
    · rintro ⟨c, hc, rfl⟩
      exact ⟨s.heir c, hheirs.holder_mem c hc, h.user _⟩
    · rintro ⟨n, hn, rfl⟩
      rw [h.user]
      exact ⟨s.cpu n, hheirs.slot_mem n hn, hheirs.holder_slot n hn⟩

/-- The invariant holds after every run, and every legal event is defined. -/
theorem Run.smpInvariant (hcb : ReadyLaws cb I.isOwned I.maximumPriority rep) {s₀ : State T C R}
    (h₀ : Initialized I s₀) (hrep : rep s₀.priority s₀.context fun _ => False) {fuel : Nat}
    {actions : List (Op T)}
    (hrun : Run (step cb (fuel + 1)) (Legal I) (createIdle cb I s₀) actions s) :
    Invariant I (totalOrder rep).queues nobody nobody s ∧
      ∀ op, Legal I s op → (step cb (fuel + 1) s op).isSome = true := by
  have howned : ∀ c, I.isOwned c = true ↔ c ∈ I.cpus := fun c => by simp [Instance.isOwned]
  have hlaws := hcb.laws howned
  have hvacates : ∀ (s : State T C R) (op : Op T), Vacates (totalOrder rep) s op := by
    intro s op
    cases op <;> simp [Vacates, totalOrder]
  have hinv : Invariant I (totalOrder rep).queues nobody nobody s := by
    refine hrun.invariant _ (h₀.createIdle (fun r _ _ => r) hcb.registerIdle ?_) ?_
    · intro heir _
      refine ⟨?_, fun _ => False.elim⟩
      rw [List.foldl_fixed]
      exact hrep
    intro s op t h hlegal hs
    obtain ⟨s', hs', hinv⟩ := h.step hlaws hlegal (hvacates s op) fuel
    rw [hs'] at hs
    cases hs
    exact hinv
  refine ⟨hinv, ?_⟩
  intro op hlegal
  obtain ⟨s', hs', -⟩ := hinv.step hlaws hlegal (hvacates s op) fuel
  rw [hs']
  rfl

end Runs

/-- From the creation of the idle threads on, the simple and the deterministic priority
SMP scheduler have the right threads scheduled after every run, the ready set has no
node twice, and no legal event gets stuck. -/
theorem smp_schedulers_pick_right_threads (I : Instance T C) (fuel : Nat) :
    (∀ s₀ : State T C (List T), Initialized I s₀ → s₀.context = [] →
      ∀ actions s, Run (step (Simple.callbacks I.isOwned) (fuel + 1)) (Legal I)
          (createIdle (Simple.callbacks I.isOwned) I s₀) actions s →
        RightThreads I (· ∈ s.context) s ∧ s.context.Nodup ∧
        ∀ op, Legal I s op →
          (step (Simple.callbacks I.isOwned) (fuel + 1) s op).isSome = true) ∧
    (I.maximumPriority ≤ 255 → ∀ s₀ : State T C (Priority.Context T), Initialized I s₀ →
      s₀.context = Priority.initialized s₀.priority →
      ∀ actions s, Run (step (Priority.callbacks I.isOwned) (fuel + 1)) (Legal I)
          (createIdle (Priority.callbacks I.isOwned) I s₀) actions s →
        RightThreads I (fun u => ∃ p, u ∈ s.context.queues.ready p) s ∧
        (∀ p, (s.context.queues.ready p).Nodup ∧
          ∀ u ∈ s.context.queues.ready p, s.priority u = p) ∧
        ∀ op, Legal I s op →
          (step (Priority.callbacks I.isOwned) (fuel + 1) s op).isSome = true) := by
  constructor
  · intro s₀ h₀ hcontext actions s hrun
    have hrep : Simple.Rep s₀.priority s₀.context fun _ => False := by
      rw [hcontext]
      exact ⟨List.nodup_nil, by simp, sortedBy_nil⟩
    obtain ⟨hinv, hsome⟩ := Run.smpInvariant (Simple.laws _ _) h₀ hrep hrun
    refine ⟨hinv.rightThreads ?_, hinv.queues.1.nodup, hsome⟩
    intro u
    rw [hinv.queues.1.mem_iff]
    simp [nobody]
  · intro hmax s₀ h₀ hcontext actions s hrun
    have hrep : Priority.Rep s₀.priority s₀.context fun _ => False := by
      rw [hcontext]
      refine ⟨fun _ => rfl, ?_, ReadyQueues.holds_initialized, ?_, fun _ => List.nodup_nil⟩
      · intro u
        have := h₀.priority_le u
        omega
      · simp [Priority.initialized, ReadyQueues.initialized]
    obtain ⟨hinv, hsome⟩ := Run.smpInvariant (Priority.laws _ hmax) h₀ hrep hrun
    refine ⟨hinv.rightThreads ?_, ?_, hsome⟩
    · intro u
      constructor
      · rintro ⟨p, hp⟩
        exact ((hinv.queues.1.mem_iff p u).mp hp).1.1
      · intro hu
        exact ⟨s.priority u, (hinv.queues.1.mem_iff _ u).mpr ⟨⟨hu, id⟩, rfl⟩⟩
    · intro p
      exact ⟨hinv.queues.1.nodup p, fun u hu => ((hinv.queues.1.mem_iff p u).mp hu).2⟩

section Instances

local instance neZeroTwo : NeZero 2 := ⟨by decide⟩

local instance neZeroFive : NeZero 5 := ⟨by decide⟩

/-- Two processors, the idle threads 0 and 1, and the threads 2, 3 and 4. -/
def twoProcessors : Instance (Fin 5) (Fin 2) where
  cpus := [0, 1]
  idles := [0, 1]
  maximumPriority := 255
  cpus_nodup := by decide
  idles_nodup := by decide
  cpus_ne_nil := by decide
  length_eq := rfl

/-- All threads blocked; the threads have the priorities 2, 3 and 4. -/
def fiveThreads {R : Type*} (context : R) : State (Fin 5) (Fin 2) R where
  node n := ⟨.blocked, if n.val < 2 then 255 else n.val, if n.val < 2 then 255 else n.val, false,
    0, n, none⟩
  thread _ := ⟨.blocked, 0, false, false⟩
  heir _ := 0
  scheduled := []
  idleThreads := []
  context := context

/-- Three threads start, the best one yields and blocks, another one changes priority. -/
def threeStart : List (Op (Fin 5)) :=
  [.unblock 4, .setExecuting 4 true, .unblock 3, .unblock 2, .yield 2, .updatePriority 4 1 true,
    .block 2]

theorem smp_schedulers_pick_right_threads_twoProcessors :
    (∃ s, Run (step (Simple.callbacks twoProcessors.isOwned) 1) (Legal twoProcessors)
        (createIdle (Simple.callbacks twoProcessors.isOwned) twoProcessors (fiveThreads []))
        threeStart s ∧ RightThreads twoProcessors (· ∈ s.context) s ∧ s.scheduled = [4, 3]) ∧
    ∃ s, Run (step (Priority.callbacks twoProcessors.isOwned) 1) (Legal twoProcessors)
        (createIdle (Priority.callbacks twoProcessors.isOwned) twoProcessors
          (fiveThreads (Priority.initialized (fiveThreads ()).priority)))
        threeStart s ∧
      RightThreads twoProcessors (fun u => ∃ p, u ∈ s.context.queues.ready p) s ∧
      s.scheduled = [4, 3] := by
  have h : ∀ {R : Type} (context : R), Initialized twoProcessors (fiveThreads context) := by
    intro R context
    have hp : ∀ n : Fin 5, (if n.val < 2 then 255 else n.val) ≤ 255 := by decide
    refine ⟨fun _ => rfl, hp, hp, fun _ => ⟨rfl, rfl⟩, rfl, ?_⟩
    have hidle : ∀ i ∈ twoProcessors.idles, (fiveThreads context).priority i = 255 := by
      intro i hi
      exact if_pos ((by decide : ∀ i ∈ [(0 : Fin 5), 1], i.val < 2) i hi)
    intro i hi j hj
    rw [hidle i hi, hidle j hj]
  have hp := smp_schedulers_pick_right_threads twoProcessors 0
  constructor
  · refine Run.exists_of_map_exec State.scheduled [4, 3] rfl ?_
    intro s hrun hscheduled
    exact ⟨(hp.1 _ (h []) rfl _ _ hrun).1, hscheduled⟩
  · refine Run.exists_of_map_exec State.scheduled [4, 3] rfl ?_
    intro s hrun hscheduled
    exact ⟨(hp.2 (le_refl 255) _ (h _) rfl _ _ hrun).1, hscheduled⟩

end Instances

end Rtems.Scheduler.Smp
