import Rtems.Models.Scheduler.Smp.Edf.Laws
import Rtems.Models.Scheduler.Smp.Preservation

/-!
# Work conservation of the EDF SMP scheduler

In every state that an instance reaches by steps in which no queue is forgotten, no ready
node is better than a scheduled node that it could displace. A queue is forgotten when a
node with an affinity leaves its processor to a node without, while other nodes wait for
that processor alone.
-/

namespace Rtems.Scheduler.Smp.Edf

open Function

variable {T : Type*} [DecidableEq T]

/-- The events that reach the scheduler. -/
inductive Op (T : Type*)
  | base (op : Smp.Op T)
  /-- `_Scheduler_EDF_SMP_Set_affinity`. -/
  | setAffinity (t : T) (affinity : List Nat)

/-- One event, with a bound on the iterations of the loops. -/
def step (processorCount : Nat) (I : Instance T Nat) (fuel : Nat)
    (s : State T Nat (Context T)) : Op T → Option (State T Nat (Context T))
  | .base op => Smp.step callbacks fuel s op
  | .setAffinity t affinity => setAffinity processorCount I.cpus fuel s t affinity

/-- What the callers promise. -/
def Legal (I : Instance T Nat) (s : State T Nat (Context T)) : Op T → Prop
  | .base op => Smp.Legal I s op
  | .setAffinity t _ => t ∉ I.idles

instance (I : Instance T Nat) (s : State T Nat (Context T)) (op : Op T) :
    Decidable (Legal I s op) := by
  cases op <;> unfold Legal <;> infer_instance

/-- The event forgets no queue: a scheduled thread that blocks, or that gets another
affinity, may leave its processor. -/
def Remembers (processorCount : Nat) (I : Instance T Nat) (s : State T Nat (Context T)) :
    Op T → Prop
  | .base op => Vacates (policy I) s op
  | .setAffinity t affinity =>
    ∀ rqi ∈ affinityIndex processorCount I.cpus affinity,
      (s.node t).state = .scheduled → rqi ≠ s.context.readyQueueIndex t →
      s.context.Vacates s.priority t

instance (processorCount : Nat) (I : Instance T Nat) (s : State T Nat (Context T)) (op : Op T) :
    Decidable (Remembers processorCount I s op) :=
  match op with
  | .base (.block t) => inferInstanceAs
      (Decidable ((s.node t).state = .scheduled → s.context.Vacates s.priority t))
  | .base (.unblock _) | .base (.updatePriority ..) | .base (.yield _)
  | .base (.setExecuting ..) => instDecidableTrue
  | .setAffinity t affinity =>
    inferInstanceAs (Decidable (∀ rqi ∈ affinityIndex processorCount I.cpus affinity,
      (s.node t).state = .scheduled → rqi ≠ s.context.readyQueueIndex t →
      s.context.Vacates s.priority t))

section Affinity

variable {I : Instance T Nat} {priority : T → Nat} {heir : Nat → T} {r : Context T}
  {P S : T → Prop} {n : T}

omit [DecidableEq T] in
/-- The last processor of a mask that is not empty. -/
theorem findLastSet_spec {mask : List Nat} (h : mask ≠ []) :
    findLastSet mask ≠ 0 ∧ findLastSet mask - 1 ∈ mask := by
  induction mask with
  | nil => exact absurd rfl h
  | cons cpu rest ih =>
    have hcons : findLastSet (cpu :: rest) = max (cpu + 1) (findLastSet rest) := rfl
    rw [hcons]
    by_cases hle : findLastSet rest ≤ cpu + 1
    · rw [max_eq_left hle]
      exact ⟨by omega, by simp⟩
    · have hrest : rest ≠ [] := by
        rintro rfl
        exact hle (Nat.zero_le _)
      rw [max_eq_right (by omega)]
      exact ⟨(ih hrest).1, List.mem_cons_of_mem _ (ih hrest).2⟩

/-- An affinity selects a processor of the instance, or all of them. -/
theorem affinityIndex_mem {processorCount : Nat} {processors affinity : List Nat} {rqi : Nat}
    (h : affinityIndex processorCount processors affinity = some rqi) (hz : rqi ≠ 0) :
    rqi - 1 ∈ processors := by
  unfold affinityIndex at h
  dsimp only at h
  split at h
  · cases h
  · next hne =>
    split at h
    · cases h
      exact absurd rfl hz
    · cases h
      have hmask := (findLastSet_spec fun hnil => hne (List.length_eq_zero_iff.mpr hnil)).2
      exact List.mem_of_mem_filter hmask

/-- A node off all queues and without a processor gets another affinity. -/
theorem Holds.setAffinity (h : Holds I (fun _ => False) priority heir r P S) (hP : ¬P n)
    (hheir : ∀ c ∈ I.cpus, heir c ≠ n) (hidle : n ∉ I.idles) {rqi : Nat}
    (hrqi : rqi ≠ 0 → rqi - 1 ∈ I.cpus) :
    Holds I (fun _ => False) priority heir
      { r with readyQueueIndex := update r.readyQueueIndex n rqi } P S := by
  have hother : ∀ u, u ≠ n → update r.readyQueueIndex n rqi u = r.readyQueueIndex u :=
    fun u hu => update_of_ne hu _ _
  have hready : ∀ u, P u → u ≠ n := by
    rintro u hu rfl
    exact hP hu
  have hscheduled : ∀ c ∈ I.cpus, r.scheduled (c + 1) ≠ n := by
    intro c hc
    rw [h.scheduled_eq c hc]
    exact hheir c hc
  have hqueue : ∀ i, i ≠ 0 → r.queue i ≠ [] → r.scheduled i ≠ n := by
    intro i hz hne
    obtain ⟨u, hu⟩ := List.exists_mem_of_ne_nil _ hne
    have hu' := ((h.mem_queue i u).mp hu).2
    obtain ⟨c, hc, he⟩ := h.exists_cpu (hu' ▸ hz)
    rw [← hu', he]
    exact hscheduled c hc
  refine ⟨?_, ?_, h.scheduled_eq, ?_, h.nodup, ?_, h.sorted, h.affine_nodup, ?_, ?_, ?_⟩
  · intro u hu
    by_cases hun : u = n
    · subst hun
      simp only [update_self] at hu ⊢
      exact hrqi hu
    · simp only [hother u hun] at hu ⊢
      exact h.index_mem u hu
  · intro i hi
    have hin : i ≠ n := by
      rintro rfl
      exact hidle hi
    exact (hother i hin).trans (h.idle i hi)
  · intro c hc
    simp only [hother _ (hheir c hc)]
    exact h.placed c hc
  · intro i u
    rw [h.mem_queue]
    refine and_congr_right ?_
    intro hu
    simp only [hother u (hready u hu)]
  · intro i hi
    obtain ⟨hz, hne, hs⟩ := h.affine_sound i hi
    exact ⟨hz, hne, (hother _ (hqueue i hz hne)).trans hs⟩
  · intro i hi hz hne hs
    exact h.affine_complete i hi hz hne ((hother _ (hqueue i hz hne)).symm.trans hs)
  · intro u hu v hv hcase
    have hun := hother u (hready u hu)
    refine h.bounded u hu v hv ?_
    by_cases hz : r.readyQueueIndex u = 0
    · exact .inl (.inl hz)
    · have hs := hqueue _ hz (h.queue_ne_nil hu)
      rcases hcase with (hz' | hs') | hvs
      · exact absurd (hun.symm.trans hz') hz
      · simp only [hun, hother _ hs] at hs'
        exact .inl (.inr hs')
      · simp only [hun] at hvs
        exact .inr hvs

end Affinity

section Steps

variable {I : Instance T Nat} {s : State T Nat (Context T)} {n : T} {processorCount : Nat}

/-- A ready node off all queues gets another affinity and is enqueued. -/
theorem enqueue_doSetAffinity (h : Invariant I (policy I).queues (· = n) nobody s)
    (hn : (s.node n).state = .ready) (hidle : n ∉ I.idles) {rqi : Nat}
    (hrqi : rqi ≠ 0 → rqi - 1 ∈ I.cpus) :
    ∃ s', (enqueueFifo callbacks (doSetAffinity rqi s n) n).map Prod.fst = some s' ∧
      Invariant I (policy I).queues nobody nobody s' := by
  have hheir : ∀ c ∈ I.cpus, s.heir c ≠ n := by
    rintro c hc rfl
    have hs := h.heirs.holder_mem c hc
    simp [hn, nobody] at hs
  have hset : Invariant I (policy I).queues (· = n) nobody (doSetAffinity rqi s n) :=
    { h with queues := h.queues.setAffinity (fun hP => hP.2 rfl) hheir hidle hrqi }
  obtain ⟨s', b, hs', hinv⟩ := hset.enqueueOrdered (enqueues I n) (discipline_fifo callbacks) hn
  exact ⟨s', by rw [enqueueFifo, hs', Option.map_some], hinv⟩

/-- A change of the affinity that forgets no queue keeps the invariant. -/
theorem setAffinity_invariant (h : Invariant I (policy I).queues nobody nobody s)
    (hidle : n ∉ I.idles) {affinity : List Nat}
    (hrem : Remembers processorCount I s (.setAffinity n affinity)) (fuel : Nat) :
    ∃ s', setAffinity processorCount I.cpus (fuel + 1) s n affinity = some s' ∧
      Invariant I (policy I).queues nobody nobody s' := by
  unfold setAffinity
  cases hindex : affinityIndex processorCount I.cpus affinity with
  | none => exact ⟨s, rfl, h⟩
  | some rqi =>
    have hrqi : rqi ≠ 0 → rqi - 1 ∈ I.cpus := affinityIndex_mem hindex
    dsimp only
    unfold Smp.setAffinity
    cases hs : (s.node n).state with
    | blocked =>
      refine ⟨_, rfl, { h with queues := ?_ }⟩
      refine h.queues.setAffinity (by simp [hs]) ?_ hidle hrqi
      rintro c hc rfl
      have hm := h.heirs.holder_mem c hc
      simp [hs, nobody] at hm
    | ready =>
      obtain ⟨r, hr, hex⟩ := h.extractFromReady (laws I) hs
      exact enqueue_doSetAffinity hex (by rw [hr]; exact hs) hidle hrqi
    | scheduled =>
      have hex := h.extractFromScheduled (laws I) hs
      by_cases heq : rqi = s.context.readyQueueIndex n
      · obtain ⟨s₁, hs₁, hinv₁, hready⟩ := hex.preemptAndScheduleHighestReady (laws I)
          (fills_missing I n rqi) hs hidle heq.symm fuel
        have hsame : doSetAffinity rqi s₁ n = s₁ := by
          simp [doSetAffinity, ← hinv₁.queues.2]
        have hmiss : Invariant I (missing I n) (· = n) nobody s₁ :=
          { hinv₁ with queues := hinv₁.queues.1 }
        obtain ⟨s', b, hs', hinv⟩ := hmiss.enqueueOrdered (enqueues_missing I n)
          (discipline_fifo callbacks) hready
        refine ⟨s', ?_, hinv⟩
        rw [hs₁, Option.bind_some, hsame, enqueueFifo, hs', Option.map_some]
      · obtain ⟨s₁, hs₁, hinv₁, hready⟩ := hex.preemptAndScheduleHighestReady (laws I)
          (fills I n) hs hidle (hrem rqi hindex hs heq) fuel
        obtain ⟨s', hs', hinv⟩ := enqueue_doSetAffinity hinv₁ hready hidle hrqi
        exact ⟨s', by rw [hs₁, Option.bind_some, hs'], hinv⟩

theorem step_invariant (h : Invariant I (policy I).queues nobody nobody s) {op : Op T}
    (hlegal : Legal I s op) (hrem : Remembers processorCount I s op) (fuel : Nat) :
    ∃ s', step processorCount I (fuel + 1) s op = some s' ∧
      Invariant I (policy I).queues nobody nobody s' := by
  cases op with
  | base op => exact h.step (laws I) hlegal hrem fuel
  | setAffinity t affinity => exact setAffinity_invariant h hlegal hrem fuel

end Steps

section Start

variable {I : Instance T Nat}

omit [DecidableEq T] in
/-- Registering the idle threads. -/
theorem foldl_setScheduled (r : Context T) (ps : List (Nat × T))
    (hps : (ps.map Prod.fst).Nodup) :
    ∃ f, ps.foldl (fun r p => r.setScheduled p.2 p.1) r = { r with scheduled := f } ∧
      ∀ p ∈ ps, f (p.1 + 1) = p.2 := by
  induction ps using List.reverseRecOn with
  | nil => exact ⟨r.scheduled, rfl, by simp⟩
  | append_singleton ps p ih =>
    rw [List.map_append, List.nodup_append] at hps
    obtain ⟨f, hf, hmem⟩ := ih hps.1
    refine ⟨update f (p.1 + 1) p.2, ?_, ?_⟩
    · rw [List.foldl_append, hf]
      rfl
    · intro q hq
      rcases List.mem_append.mp hq with hq | hq
      · have hne : q.1 ≠ p.1 := hps.2.2 _ (List.mem_map_of_mem hq) p.1 (by simp)
        rw [update_of_ne (by omega)]
        exact hmem q hq
      · rw [List.mem_singleton.mp hq, update_self]

omit [DecidableEq T] in
/-- The queues once all idle threads are registered. -/
theorem holds_initialized {priority : T → Nat} {heir : Nat → T}
    (hheir : ∀ p ∈ I.cpus.zip I.idles, heir p.1 = p.2) (f : Nat → T) :
    Holds I (fun _ => False) priority heir
      ((I.cpus.zip I.idles).foldl (fun r p => r.setScheduled p.2 p.1) (.initialized f))
      (fun _ => False) (· ∈ I.idles) := by
  obtain ⟨g, hg, hmem⟩ := foldl_setScheduled (.initialized f) (I.cpus.zip I.idles)
    (by rw [I.map_fst_zip]; exact I.cpus_nodup)
  rw [hg]
  refine ⟨?_, fun _ _ => rfl, ?_, fun _ _ => .inl rfl, fun _ => List.nodup_nil, ?_,
    fun _ => sortedBy_nil, List.nodup_nil, ?_, ?_, fun _ => False.elim⟩
  · intro u hu
    exact absurd rfl hu
  · intro c hc
    rw [← I.map_fst_zip] at hc
    obtain ⟨p, hp, rfl⟩ := List.mem_map.mp hc
    change g (p.1 + 1) = heir p.1
    rw [hmem p hp, hheir p hp]
  · simp [Context.initialized]
  · simp [Context.initialized]
  · intro i _ _ hne
    exact absurd rfl hne

end Start

/-- No ready node is better than a scheduled node that it could displace, and the chain
of affine queues has the queues of the nodes that could displace every node. -/
structure WorkConserving (I : Instance T Nat) (s : State T Nat (Context T)) : Prop where
  heir_scheduled : ∀ c ∈ I.cpus, s.heir c ∈ s.scheduled ∧ s.cpu (s.heir c) = c ∧
    s.context.scheduled (c + 1) = s.heir c
  le_ready : ∀ n, (s.node n).state = .ready → s.context.readyQueueIndex n = 0 →
    ∀ u ∈ s.scheduled, s.priority u ≤ s.priority n
  le_affine : ∀ n, (s.node n).state = .ready → ∀ c, s.context.readyQueueIndex n = c + 1 →
    c ∈ I.cpus ∧ s.priority (s.heir c) ≤ s.priority n ∧
    (s.context.readyQueueIndex (s.heir c) = 0 →
      ∀ u ∈ s.scheduled, s.priority u ≤ s.priority n)
  idle_not_scheduled : ∀ n, (s.node n).state = .ready → ∀ c,
    s.context.readyQueueIndex n = c + 1 → s.context.readyQueueIndex (s.heir c) = 0 →
    ∀ i ∈ I.idles, s.priority n < s.priority i → i ∉ s.scheduled
  mem_affineQueues : ∀ rqi, rqi ∈ s.context.affineQueues ↔
    ∃ c ∈ I.cpus, rqi = c + 1 ∧ s.context.readyQueueIndex (s.heir c) = 0 ∧
      ∃ n, (s.node n).state = .ready ∧ s.context.readyQueueIndex n = rqi

omit [DecidableEq T] in
/-- The invariant says that the instance is work conserving. -/
theorem workConserving {I : Instance T Nat} {s : State T Nat (Context T)}
    (h : Invariant I (policy I).queues nobody nobody s) : WorkConserving I s := by
  have hq : Holds I (fun _ => False) s.priority s.heir s.context
      (fun u => (s.node u).state = .ready ∧ ¬nobody u) (· ∈ s.scheduled) := h.queues
  have hmem : ∀ c ∈ I.cpus, s.heir c ∈ s.scheduled := by
    intro c hc
    rw [h.mem_iff]
    exact ⟨(or_false _).mp (h.heirs.holder_mem c hc), id⟩
  have hcpu : ∀ n c, s.context.readyQueueIndex n = c + 1 →
      c ∈ I.cpus ∧ s.context.scheduled (s.context.readyQueueIndex n) = s.heir c := by
    intro n c hc
    have hm := hq.index_mem n (by omega)
    rw [hc, Nat.add_sub_cancel] at hm
    exact ⟨hm, by rw [hc, hq.scheduled_eq c hm]⟩
  have hall : ∀ n, (s.node n).state = .ready → ∀ c, s.context.readyQueueIndex n = c + 1 →
      s.context.readyQueueIndex (s.heir c) = 0 →
      ∀ u ∈ s.scheduled, s.priority u ≤ s.priority n := by
    intro n hn c hc hz u hu
    refine hq.bounded n ⟨hn, id⟩ u hu (.inl (.inr ?_))
    rw [(hcpu n c hc).2, hz]
  refine ⟨?_, ?_, ?_, ?_, ?_⟩
  · intro c hc
    exact ⟨hmem c hc, h.heirs.slot_holder c hc, hq.scheduled_eq c hc⟩
  · intro n hn hz u hu
    exact hq.bounded n ⟨hn, id⟩ u hu (.inl (.inl hz))
  · intro n hn c hc
    obtain ⟨hm, hs⟩ := hcpu n c hc
    exact ⟨hm, hq.bounded n ⟨hn, id⟩ _ (hmem c hm) (.inr hs.symm), hall n hn c hc⟩
  · intro n hn c hc hz i _ hlt hi
    have := hall n hn c hc hz i hi
    omega
  · intro rqi
    constructor
    · intro hr
      obtain ⟨hz, hne, hs⟩ := hq.affine_sound rqi hr
      obtain ⟨n, hn⟩ := List.exists_mem_of_ne_nil _ hne
      obtain ⟨⟨hready, -⟩, rfl⟩ := (hq.mem_queue rqi n).mp hn
      obtain ⟨c, hc, he⟩ := hq.exists_cpu hz
      rw [he, hq.scheduled_eq c hc] at hs
      exact ⟨c, hc, he, hs, n, hready, rfl⟩
    · rintro ⟨c, hc, rfl, hs, n, hready, he⟩
      refine hq.affine_complete _ id (by omega) ?_ ?_
      · exact List.ne_nil_of_mem ((hq.mem_queue _ n).mpr ⟨⟨hready, id⟩, he⟩)
      · rw [hq.scheduled_eq c hc, hs]

/-- From the creation of the idle threads on, the instance is work conserving after every
run whose events forget no queue, and no such event gets stuck. -/
theorem edf_smp_work_conserving (I : Instance T Nat) (processorCount fuel : Nat)
    {s₀ : State T Nat (Context T)} (h₀ : Initialized I s₀) {f : Nat → T}
    (hcontext : s₀.context = .initialized f) {actions : List (Op T)}
    {s : State T Nat (Context T)}
    (hrun : Run (step processorCount I (fuel + 1))
      (fun s op => Legal I s op ∧ Remembers processorCount I s op)
      (createIdle callbacks I s₀) actions s) :
    WorkConserving I s ∧
      ∀ op, Legal I s op → Remembers processorCount I s op →
        (step processorCount I (fuel + 1) s op).isSome = true := by
  have hinv : Invariant I (policy I).queues nobody nobody s := by
    refine hrun.invariant _ (h₀.createIdle (fun r i c => r.setScheduled i c)
      (fun _ _ _ => rfl) ?_) ?_
    · intro heir hheir
      rw [hcontext]
      exact holds_initialized hheir f
    · intro s op t h hop hs
      obtain ⟨s', hs', hinv⟩ := step_invariant h hop.1 hop.2 fuel
      rw [hs'] at hs
      cases hs
      exact hinv
  refine ⟨workConserving hinv, ?_⟩
  intro op hlegal hrem
  obtain ⟨s', hs', -⟩ := step_invariant hinv hlegal hrem fuel
  rw [hs']
  rfl

section Instances

/-- Two processors, the idle threads 0 and 1, and four more threads. -/
def twoProcessors : Instance (Fin 6) Nat where
  cpus := [0, 1]
  idles := [0, 1]
  maximumPriority := 255
  cpus_nodup := by decide
  idles_nodup := by decide
  cpus_ne_nil := by decide
  length_eq := rfl

/-- All threads blocked; the threads 2 to 5 have the priorities 1, 3, 1 and 2. -/
def sixThreads : State (Fin 6) Nat (Context (Fin 6)) where
  node n := ⟨.blocked, [255, 255, 1, 3, 1, 2].get n, [255, 255, 1, 3, 1, 2].get n, false, 0, n,
    none⟩
  thread _ := ⟨.blocked, 0, false, false⟩
  heir _ := 0
  scheduled := []
  idleThreads := []
  context := .initialized fun _ => 0

/-- Two threads are bound to processor 0, a third is not, and the first one blocks. -/
def twoBound : List (Op (Fin 6)) :=
  [.setAffinity 2 [0], .setAffinity 3 [0], .base (.unblock 2), .base (.unblock 3),
    .base (.unblock 4), .base (.block 2), .setAffinity 3 [0, 1], .base (.yield 4)]

theorem initialized_sixThreads : Initialized twoProcessors sixThreads where
  node _ := rfl
  priority_le := by decide
  value_le := by decide
  thread _ := ⟨rfl, rfl⟩
  scheduled := rfl
  idle_priority := by decide

theorem edf_smp_work_conserving_twoBound :
    ∃ s, Run (step 2 twoProcessors 1)
        (fun s op => Legal twoProcessors s op ∧ Remembers 2 twoProcessors s op)
        (createIdle callbacks twoProcessors sixThreads) twoBound s ∧
      WorkConserving twoProcessors s ∧ s.scheduled = [4, 3] := by
  refine Run.exists_of_map_exec State.scheduled [4, 3] rfl ?_
  intro s hrun hscheduled
  have hconserving := edf_smp_work_conserving twoProcessors 2 0 initialized_sixThreads rfl hrun
  exact ⟨hconserving.1, hscheduled⟩

/-- The first bound thread leaves its processor to a thread that is not bound, while the
second one waits for it. -/
def forgetful : List (Op (Fin 6)) :=
  [.setAffinity 2 [0], .setAffinity 3 [0], .base (.unblock 2), .base (.unblock 3),
    .base (.unblock 4), .base (.unblock 5), .base (.block 2), .base (.block 4)]

/-- Then an idle thread is scheduled although thread 3 is ready. -/
theorem edf_smp_not_work_conserving :
    ∃ s, Run (step 2 twoProcessors 1) (Legal twoProcessors)
        (createIdle callbacks twoProcessors sixThreads) forgetful s ∧
      (s.node 3).state = .ready ∧ s.context.readyQueueIndex 3 = 1 ∧
      s.context.readyQueueIndex (s.heir 0) = 0 ∧ 1 ∈ s.scheduled ∧
      s.priority 3 < s.priority 1 ∧ s.context.affineQueues = [] ∧
      ¬WorkConserving twoProcessors s := by
  refine Run.exists_of_map_exec (fun s => ((s.node 3).state, s.context.readyQueueIndex 3,
    s.context.readyQueueIndex (s.heir 0), s.scheduled, s.priority 3, s.priority 1,
    s.context.affineQueues)) (.ready, 1, 0, [5, 1], 3, 255, []) rfl ?_
  intro s _ hfields
  simp only [Prod.mk.injEq] at hfields
  obtain ⟨hready, hindex, hheir, hscheduled, hp, hp', haffine⟩ := hfields
  have hmem : 1 ∈ s.scheduled := by rw [hscheduled]; decide
  have hlt : s.priority 3 < s.priority 1 := by rw [hp, hp']; decide
  refine ⟨hready, hindex, hheir, hmem, hlt, haffine, ?_⟩
  intro h
  exact h.idle_not_scheduled 3 hready 0 hindex hheir 1 (by decide) hlt hmem

end Instances

end Rtems.Scheduler.Smp.Edf
