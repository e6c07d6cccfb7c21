import Rtems.Models.Scheduler.Smp.Edf.Queues

/-!
# Laws of the EDF SMP scheduler

What the functions of the scheduler do to an instance, and from it the laws that the
shared operations rely on. A node with an affinity may leave its processor without
becoming ready if its successor has the same affinity or nobody waits for the processor.
-/

namespace Rtems.Scheduler.Smp.Edf

open Function

variable {T : Type*} [DecidableEq T]

namespace Context

variable {r : Context T} {priority : T → Nat}

omit [DecidableEq T] in
/-- A challenge gives the better one of the highest ready node and the first of a queue. -/
theorem challengeHighestReady_spec {l : List T} (hl : SortedBy priority l) (hne : l ≠ [])
    (x : T) : ∃ q, r.challengeHighestReady priority x l = some q ∧ (q = x ∨ q ∈ l) ∧
      priority q ≤ priority x ∧ ∀ u ∈ l, priority q ≤ priority u := by
  obtain ⟨y, hy, hmem, hle⟩ := exists_head hl hne
  rw [challengeHighestReady, hy, Option.map_some]
  by_cases hless : r.overallLess priority y x = true
  · rw [if_pos hless]
    refine ⟨y, rfl, .inr hmem, ?_, hle⟩
    have := of_decide_eq_true hless
    omega
  · rw [if_neg hless]
    have hxy : priority x ≤ priority y := by
      have hnot : ¬(priority y < priority x ∨
          priority y = priority x ∧ r.generation y < r.generation x) :=
        fun hc => hless (decide_eq_true hc)
      omega
    exact ⟨x, rfl, .inl rfl, le_rfl, fun u hu => hxy.trans (hle u hu)⟩

omit [DecidableEq T] in
/-- The search through a chain of queues. -/
theorem foldlM_challenge_spec (hsorted : ∀ i, SortedBy priority (r.queue i)) :
    ∀ (l : List Nat), (∀ i ∈ l, r.queue i ≠ []) → ∀ x,
      ∃ q, l.foldlM (fun x i => r.challengeHighestReady priority x (r.queue i)) x = some q ∧
        (q = x ∨ ∃ i ∈ l, q ∈ r.queue i) ∧ priority q ≤ priority x ∧
        ∀ i ∈ l, ∀ u ∈ r.queue i, priority q ≤ priority u
  | [], _, x => ⟨x, rfl, .inl rfl, le_rfl, by simp⟩
  | j :: l, hne, x => by
    obtain ⟨y, hy, hycase, hyx, hyle⟩ :=
      challengeHighestReady_spec (r := r) (hsorted j) (hne j (by simp)) x
    obtain ⟨q, hq, hqcase, hqy, hqle⟩ :=
      foldlM_challenge_spec hsorted l (fun i hi => hne i (by simp [hi])) y
    refine ⟨q, ?_, ?_, hqy.trans hyx, ?_⟩
    · rw [List.foldlM_cons, hy]
      exact hq
    · rcases hqcase with rfl | ⟨i, hi, hqi⟩
      · exact hycase.imp id fun hyj => ⟨j, by simp, hyj⟩
      · exact .inr ⟨i, by simp [hi], hqi⟩
    · intro i hi u hu
      rcases List.mem_cons.mp hi with rfl | hi
      · exact hqy.trans (hyle u hu)
      · exact hqle i hi u hu

omit [DecidableEq T] in
/-- A node that no queue of a chain challenges stays the highest ready one. -/
theorem foldlM_challenge_eq {x : T} :
    ∀ (l : List Nat), (∀ i ∈ l, r.queue i ≠ []) →
      (∀ i ∈ l, ∀ y, (r.queue i).head? = some y → r.overallLess priority y x = false) →
      l.foldlM (fun x i => r.challengeHighestReady priority x (r.queue i)) x = some x
  | [], _, _ => rfl
  | j :: l, hne, hless => by
    cases hj : r.queue j with
    | nil => exact absurd hj (hne j (by simp))
    | cons y rest =>
      have hy := hless j (by simp) y (by simp [hj])
      have hstep : r.challengeHighestReady priority x (r.queue j) = some x := by
        simp [challengeHighestReady, hj, hy]
      rw [List.foldlM_cons, hstep]
      exact foldlM_challenge_eq l (fun i hi => hne i (by simp [hi]))
        fun i hi => hless i (by simp [hi])

/-- The node may leave its processor: nobody else waits for it alone, or the first that
does is also the first of all nodes that could take it. -/
def Vacates (r : Context T) (priority : T → Nat) (n : T) : Prop :=
  r.readyQueueIndex n ≠ 0 → ∀ x ∈ (r.queue (r.readyQueueIndex n)).head?,
    (∀ y ∈ (r.queue 0).head?, r.overallLess priority x y = true) ∧
    ∀ i ∈ r.affineQueues, ∀ y ∈ (r.queue i).head?, r.overallLess priority y x = false

instance (r : Context T) (priority : T → Nat) (n : T) : Decidable (r.Vacates priority n) := by
  unfold Vacates
  infer_instance

end Context

section Highest

variable {I : Instance T Nat} {exempt : Nat → Prop} {priority : T → Nat} {heir : Nat → T}
  {r : Context T} {P S : T → Prop} {n q : T}

omit [DecidableEq T] in
/-- The highest ready node, while a node without affinity is ready. -/
theorem Holds.getHighestReady (h : Holds I exempt priority heir r P S) {i : T}
    (hi : r.readyQueueIndex i = 0) (hP : P i) (n : T) :
    ∃ q, r.getHighestReady priority n = some q ∧ P q ∧ Highest priority r P n q := by
  have hne₀ : r.queue 0 ≠ [] := hi ▸ h.queue_ne_nil hP
  obtain ⟨x, hx, hxmem, hxle⟩ := exists_head (h.sorted 0) hne₀
  have hsecond : ∃ y, (if r.readyQueueIndex n ≠ 0 ∧ r.queue (r.readyQueueIndex n) ≠ [] then
        r.challengeHighestReady priority x (r.queue (r.readyQueueIndex n)) else some x) = some y ∧
      (y ∈ r.queue 0 ∨ y ∈ r.queue (r.readyQueueIndex n)) ∧ priority y ≤ priority x ∧
      ∀ u ∈ r.queue (r.readyQueueIndex n), priority y ≤ priority u := by
    by_cases hc : r.readyQueueIndex n ≠ 0 ∧ r.queue (r.readyQueueIndex n) ≠ []
    · rw [if_pos hc]
      obtain ⟨y, hy, hycase, hyx, hyle⟩ :=
        Context.challengeHighestReady_spec (r := r) (h.sorted _) hc.2 x
      refine ⟨y, hy, ?_, hyx, hyle⟩
      rcases hycase with rfl | hy
      · exact .inl hxmem
      · exact .inr hy
    · rw [if_neg hc]
      refine ⟨x, rfl, .inl hxmem, le_rfl, ?_⟩
      intro u hu
      by_cases hz : r.readyQueueIndex n = 0
      · rw [hz] at hu
        exact hxle u hu
      · exact absurd ⟨hz, List.ne_nil_of_mem hu⟩ hc
  obtain ⟨y, hy, hycase, hyx, hyle⟩ := hsecond
  obtain ⟨q, hq, hqcase, hqy, hqle⟩ := Context.foldlM_challenge_spec (r := r) h.sorted
    r.affineQueues (fun i hi => (h.affine_sound i hi).2.1) y
  have hget : r.getHighestReady priority n = some q := by
    rw [Context.getHighestReady, hx, Option.bind_some]
    dsimp only
    rw [hy, Option.bind_some, hq]
  have hmem : ∃ j, q ∈ r.queue j ∧ (j = 0 ∨ j = r.readyQueueIndex n ∨ j ∈ r.affineQueues) := by
    rcases hqcase with rfl | ⟨j, hj, hqj⟩
    · rcases hycase with hy | hy
      · exact ⟨0, hy, .inl rfl⟩
      · exact ⟨_, hy, .inr (.inl rfl)⟩
    · exact ⟨j, hqj, .inr (.inr hj)⟩
  obtain ⟨j, hqj, hj⟩ := hmem
  obtain ⟨hPq, rfl⟩ := (h.mem_queue j q).mp hqj
  refine ⟨q, hget, hPq, hget, hj, ?_⟩
  intro u hu hel
  have huq := (h.mem_queue (r.readyQueueIndex u) u).mpr ⟨hu, rfl⟩
  rcases hel with hz | hn | ha
  · rw [hz] at huq
    exact (hqy.trans hyx).trans (hxle u huq)
  · rw [hn] at huq
    exact hqy.trans (hyle u huq)
  · exact hqle _ ha u huq

omit [DecidableEq T] in
/-- The successor of a node that may leave has its affinity, if somebody waits for the
processor alone. -/
theorem Holds.index_successor (h : Holds I exempt priority heir r P S)
    (hvacates : r.Vacates priority n) (hget : r.getHighestReady priority n = some q)
    (hz : r.readyQueueIndex n ≠ 0) (hne : r.queue (r.readyQueueIndex n) ≠ []) :
    r.readyQueueIndex q = r.readyQueueIndex n := by
  obtain ⟨x, hx, hxmem, -⟩ := exists_head (h.sorted (r.readyQueueIndex n)) hne
  obtain ⟨hless₀, hlessA⟩ := hvacates hz x hx
  cases hy : (r.queue 0).head? with
  | none =>
    rw [Context.getHighestReady, hy] at hget
    cases hget
  | some y =>
    rw [Context.getHighestReady, hy, Option.bind_some] at hget
    dsimp only at hget
    have hstep : r.challengeHighestReady priority y (r.queue (r.readyQueueIndex n)) = some x := by
      rw [Context.challengeHighestReady, hx, Option.map_some, if_pos (hless₀ y hy)]
    rw [if_pos ⟨hz, hne⟩, hstep, Option.bind_some,
      Context.foldlM_challenge_eq _ (fun i hi => (h.affine_sound i hi).2.1) hlessA] at hget
    cases hget
    exact ((h.mem_queue _ q).mp hxmem).2

end Highest

section Allocation

variable {s : State T Nat (Context T)} (huser : ∀ u, (s.node u).user = u)

include huser

/-- Giving a processor to a node. -/
theorem setScheduledExact_spec (n : T) (c : Nat) :
    SameButProcessors s (setScheduledExact s n c) ∧
    (setScheduledExact s n c).context = s.context.setScheduled n c ∧
    (setScheduledExact s n c).heir = update s.heir c n ∧
    (setScheduledExact s n c).cpu = update s.cpu n c := by
  have hsame := allocateProcessorExact_same
    ({ s with context := s.context.setScheduled n c } : State T Nat (Context T)) n c
  refine ⟨{ hsame with }, rfl, ?_, ?_⟩
  · simp only [setScheduledExact, allocateProcessorExact, huser]
    rfl
  · simp only [setScheduledExact, allocateProcessorExact, huser]
    exact State.cpu_setCpu ..

/-- What an allocation does to an instance. -/
theorem allocateProcessor_spec {n w : T} {v : Nat} (hz : 0 ∉ s.context.affineQueues)
    (hs : s.context.scheduled (s.context.target n v + 1) = s.heir (s.context.target n v)) :
    SameButProcessors s (allocateProcessor s n w v) ∧
    (allocateProcessor s n w v).context = s.context.allocate n v ∧
    (allocateProcessor s n w v).heir = update
      (update s.heir v (s.heir (s.context.target n v))) (s.context.target n v) n ∧
    (allocateProcessor s n w v).cpu =
      if s.context.target n v = v then update s.cpu n v
      else update (update s.cpu (s.heir (s.context.target n v)) v) n
        (s.context.target n v) := by
  by_cases hi : s.context.readyQueueIndex n = 0
  · have ht := Context.target_of_eq_zero (v := v) hi
    have hresult : allocateProcessor s n w v = setScheduledExact s n v := by
      simp [allocateProcessor, hi]
    obtain ⟨hsame, hcontext, hheir, hcpu⟩ := setScheduledExact_spec huser n v
    rw [hresult, hcontext, hheir, hcpu, ht, if_pos rfl]
    refine ⟨hsame, ?_, by simp, rfl⟩
    simp [Context.allocate, Context.setScheduled, hi, ht, List.erase_of_not_mem hz]
  · have ht := Context.target_add_one (v := v) hi
    let s₁ := extractAffineQueue s (s.context.readyQueueIndex n)
    have hsame₁ : SameButProcessors s s₁ := ⟨rfl, rfl, rfl, fun _ => rfl, fun _ => rfl⟩
    by_cases hv : v = s.context.readyQueueIndex n - 1
    · have htv : s.context.target n v = v := by omega
      have hresult : allocateProcessor s n w v = setScheduledExact s₁ n v := by
        simp [allocateProcessor, hi, ← hv, s₁]
      obtain ⟨hsame, hcontext, hheir, hcpu⟩ := setScheduledExact_spec (s := s₁) huser n v
      rw [hresult, hcontext, hheir, hcpu, htv, if_pos rfl]
      refine ⟨hsame₁.trans hsame, ?_, by simp [s₁, extractAffineQueue], rfl⟩
      simp [s₁, extractAffineQueue, Context.allocate, Context.setScheduled, htv]
    · have htv : s.context.target n v ≠ v := by omega
      let m := s.heir (s.context.target n v)
      let s₂ := setScheduledExact s₁ m v
      obtain ⟨hsame₂, hcontext₂, hheir₂, hcpu₂⟩ := setScheduledExact_spec (s := s₁) huser m v
      have huser₂ : ∀ u, (s₂.node u).user = u := by
        intro u
        exact huser u
      obtain ⟨hsame₃, hcontext₃, hheir₃, hcpu₃⟩ :=
        setScheduledExact_spec huser₂ n (s.context.target n v)
      have hresult : allocateProcessor s n w v =
          setScheduledExact s₂ n (s.context.target n v) := by
        have htr : s.context.readyQueueIndex n - 1 = s.context.target n v := by omega
        have hnode : s₁.context.scheduled (s.context.readyQueueIndex n) = m := by
          rw [← ht]
          exact hs
        simp only [allocateProcessor]
        rw [if_pos hi, if_pos hv, htr]
        rw [hnode]
      rw [hresult, hcontext₃, hheir₃, hcpu₃, hcontext₂, hheir₂, hcpu₂, if_neg htv]
      refine ⟨(hsame₁.trans hsame₂).trans hsame₃, ?_, rfl, rfl⟩
      simp [s₁, m, extractAffineQueue, Context.allocate, Context.setScheduled, hs]

end Allocation

/-- The policy of the scheduler. -/
def policy (I : Instance T Nat) : Policy T Nat (Context T) where
  queues := Holds I fun _ => False
  lowest := Lowest
  highest := Highest
  vacates priority r n := r.Vacates priority n

section Laws

variable {I : Instance T Nat} {exempt : Nat → Prop} {s : State T Nat (Context T)}
  {P S A : T → Prop} {n w q : T}

omit [DecidableEq T] in
theorem readyQueueIndex_of_allocate {r r' : Context T} {v : Nat} (h : r' = r.allocate n v) (u : T) :
    r.readyQueueIndex u = r'.readyQueueIndex u := by
  rw [h]
  rfl

/-- The allocation gives the node a processor in the place of the victim. -/
theorem allocated (h : Holds I exempt s.priority s.heir s.context P S)
    (huser : ∀ u, (s.node u).user = u) (hheirs : Assignment (· ∈ I.cpus) s.cpu s.heir A)
    (hw : A w) :
    Allocated I s (allocateProcessor s n w (s.cpu w)) n w ∧
    (allocateProcessor s n w (s.cpu w)).context = s.context.allocate n (s.cpu w) ∧
    (allocateProcessor s n w (s.cpu w)).heir = update
      (update s.heir (s.cpu w) (s.heir (s.context.target n (s.cpu w))))
      (s.context.target n (s.cpu w)) n := by
  have hmem : s.context.target n (s.cpu w) ∈ I.cpus := h.target_mem (hheirs.slot_mem w hw)
  obtain ⟨hsame, hcontext, hheir, hcpu⟩ := allocateProcessor_spec huser (n := n) (w := w)
    (v := s.cpu w) (fun hz => (h.affine_sound 0 hz).1 rfl) (h.scheduled_eq _ hmem)
  refine ⟨⟨hsame, ?_⟩, hcontext, hheir⟩
  intro B B' hB hBw hBn hB'
  rw [hheir, hcpu]
  by_cases ht : s.context.target n (s.cpu w) = s.cpu w
  · rw [if_pos ht, ht, update_idem]
    refine hB.replace hBw hBn hB' (by simp) ?_
    intro u hu
    rw [update_of_ne hu]
  · rw [if_neg ht, update_comm (Ne.symm ht)]
    have hheirw : s.heir (s.context.target n (s.cpu w)) ≠ w := by
      intro he
      exact ht (by rw [← hB.slot_holder _ hmem, he])
    have hheirn : s.heir (s.context.target n (s.cpu w)) ≠ n := by
      intro he
      exact hBn (he ▸ hB.holder_mem _ hmem)
    refine hB.exchange hBw hBn hmem hheirw hB' (by simp) ?_ ?_
    · rw [update_of_ne hheirn, update_self]
    · intro u hu hu'
      rw [update_of_ne hu, update_of_ne hu']

theorem insertReady_eq {f : State T Nat (Context T) → T → State T Nat (Context T)}
    (hf : (callbacks : Callbacks T Nat (Context T)).InsertsReady f) :
    ∃ g before, f = insertReady g before ∧ ∀ {priority : T → Nat} {n : T} {l : List T},
      SortedBy priority l →
        SortedBy priority (insertBefore (fun u => before (priority n) (priority u)) n l) := by
  rcases hf with rfl | rfl
  · exact ⟨0, lessOrEqual, rfl, fun hl => hl.insert_lifo⟩
  · exact ⟨1, less, rfl, fun hl => hl.insert_fifo⟩

/-- The queues while the queue of one node may be missing on the chain. -/
def missing (I : Instance T Nat) (n : T) : Queues T Nat (Context T) :=
  fun priority heir r ready scheduled =>
    Holds I (· = r.readyQueueIndex n) priority heir r ready scheduled

/-- A node enters the queues; its own queue may have been missing on the chain. -/
theorem enqueues_missing (I : Instance T Nat) (n : T) :
    Enqueues callbacks I (policy I) (missing I n) n where
  getLowestScheduled := by
    intro s P h hsorted hheirs
    by_cases hfree : s.context.Free n
    · obtain ⟨c, hc⟩ := List.exists_mem_of_ne_nil _ I.cpus_ne_nil
      obtain ⟨l, w, hl⟩ := List.eq_nil_or_concat s.scheduled |>.resolve_left
        (List.ne_nil_of_mem (hheirs.holder_mem c hc))
      rw [List.concat_eq_append] at hl
      have hlast : getLowestScheduled s n = some w := by
        rw [getLowestScheduled, if_neg, Smp.getLowestScheduled, hl]
        · simp
        · rintro ⟨hz, hpos⟩
          have := hfree.resolve_left hz
          omega
      refine ⟨w, by simp [hl], hlast, ?_, fun hn => absurd hfree hn⟩
      intro _ u hu
      rw [hl] at hsorted hu
      exact hsorted.le_last hu
    · have hz : s.context.readyQueueIndex n ≠ 0 := fun hz => hfree (.inl hz)
      have hs : s.context.readyQueueIndex
          (s.context.scheduled (s.context.readyQueueIndex n)) ≠ 0 := fun hs => hfree (.inr hs)
      obtain ⟨c, hc, he⟩ := h.exists_cpu hz
      refine ⟨s.context.scheduled (s.context.readyQueueIndex n), ?_, ?_,
        fun hn => absurd hn hfree, fun _ => rfl⟩
      · rw [he, h.scheduled_eq c hc]
        exact hheirs.holder_mem c hc
      · exact if_pos ⟨hz, Nat.pos_of_ne_zero hs⟩
  insertReady := by
    intro s P S w f hf h hP hS hlow hw hwn
    obtain ⟨g, before, rfl, hbefore⟩ := insertReady_eq hf
    refine ⟨_, rfl, h.insertReady (fun i => id) hP ?_ g before hbefore⟩
    intro v hv hcase
    by_cases hfree : s.context.Free n
    · exact (hlow.1 hfree v hv).trans hwn
    · rw [hcase.resolve_left hfree, ← hlow.2 hfree]
      exact hwn
  replace := by
    intro s P S w h huser hP hS hSw hPw hheirs hlow hle
    obtain ⟨halloc, hcontext, hheir⟩ := allocated (n := n) h huser hheirs hSw
    have hafter := h.allocate (fun i => id) (hheirs.slot_mem w hSw)
      (h.moved_replace hheirs hSw hlow) (h.bounded_replace hheirs hS hSw hlow hle)
    rw [hheirs.holder_slot w hSw, ← hcontext, ← hheir] at hafter
    have hvictim := h.bounded_victim hheirs hlow hle
    rw [← hcontext] at hvictim
    have hindex := readyQueueIndex_of_allocate hcontext w
    refine ⟨halloc, fun l => ⟨_, rfl, ?_⟩⟩
    have hfinal := hafter.insertReady (n := w) (fun i hi => hi.trans hindex) hPw hvictim 1
      less fun hl => hl.insert_fifo
    change Holds I _ _ _ ((allocateProcessor s n w (s.cpu w)).context.insertReady
      (allocateProcessor s n w (s.cpu w)).priority w 1 less) _ _
    rw [halloc.same.priority]
    exact hfinal

theorem enqueues (I : Instance T Nat) (n : T) :
    Enqueues callbacks I (policy I) (policy I).queues n where
  getLowestScheduled _ _ h := (enqueues_missing I n).getLowestScheduled
    (h.weaken fun _ => False.elim)
  insertReady _ _ _ _ _ hf h := (enqueues_missing I n).insertReady hf
    (h.weaken fun _ => False.elim)
  replace _ _ _ _ h := (enqueues_missing I n).replace (h.weaken fun _ => False.elim)

/-- The highest ready node takes a processor. -/
theorem succeed (h : Holds I (fun _ => False) s.priority s.heir s.context P S)
    (huser : ∀ u, (s.node u).user = u)
    (hheirs : Assignment (· ∈ I.cpus) s.cpu s.heir (fun u => u = n ∨ S u)) (hn : ¬P n)
    (hq : P q) (hqS : ¬S q) (hhigh : Highest s.priority s.context P n q) :
    Allocated I s (allocateProcessor s q n (s.cpu n)) q n ∧
    (allocateProcessor s q n (s.cpu n)).context = s.context.allocate q (s.cpu n) ∧
    Holds I (· = s.context.readyQueueIndex n) s.priority
      (allocateProcessor s q n (s.cpu n)).heir (allocateProcessor s q n (s.cpu n)).context P
      (fun x => x = q ∨ S x) := by
  have hqn : q ≠ n := by
    rintro rfl
    exact hn hq
  obtain ⟨halloc, hcontext, hheir⟩ := allocated (n := q) h huser hheirs (.inl rfl)
  have hafter := h.allocate (fun _ => False.elim) (hheirs.slot_mem n (.inl rfl))
    (h.moved_succeed hheirs hhigh) (h.bounded_succeed hheirs hq hqn hqS hhigh)
  rw [hheirs.holder_slot n (.inl rfl), ← hcontext, ← hheir] at hafter
  exact ⟨halloc, hcontext, hafter⟩

/-- A node leaves its processor; its queue may then be missing on the chain. -/
theorem fills_missing (I : Instance T Nat) (n : T) (rqi : Nat) :
    Fills callbacks I (policy I) (fun _ r => r.readyQueueIndex n = rqi)
      (fun priority heir r ready scheduled =>
        missing I n priority heir r ready scheduled ∧ r.readyQueueIndex n = rqi) n := by
  intro s P S q h huser hn _ hq hqS hheirs hhigh hrqi
  obtain ⟨halloc, hcontext, hafter⟩ := succeed h huser hheirs hn hq hqS hhigh
  have hindex := readyQueueIndex_of_allocate hcontext n
  refine ⟨halloc, _, rfl, ?_, hindex.symm.trans hrqi⟩
  rw [hindex] at hafter
  exact hafter.extractFromReady

/-- A node leaves its processor, and no other node waits for the processor alone. -/
theorem fills (I : Instance T Nat) (n : T) :
    Fills callbacks I (policy I) ((policy I).vacates · · n) (policy I).queues n := by
  intro s P S q h huser hn hnS hq hqS hheirs hhigh hvacates
  obtain ⟨halloc, r, hmove, hafter, -⟩ :=
    fills_missing I n _ h huser hn hnS hq hqS hheirs hhigh rfl
  have hr : r = (s.context.allocate q (s.cpu n)).extractFromReady q := by
    obtain ⟨-, hcontext, -⟩ := succeed h huser hheirs hn hq hqS hhigh
    have := congrArg State.context hmove
    change (allocateProcessor s q n (s.cpu n)).context.extractFromReady q = r at this
    rw [← this, hcontext]
  refine ⟨halloc, r, hmove, { hafter with affine_complete := ?_ }⟩
  intro i _ hz hne hs
  refine hafter.affine_complete i ?_ hz hne hs
  rintro rfl
  revert hs
  subst hr
  change s.context.readyQueueIndex
    ((s.context.allocate q (s.cpu n)).scheduled (s.context.readyQueueIndex n)) ≠ 0
  have hqueue : s.context.queue (s.context.readyQueueIndex n) ≠ [] := by
    obtain ⟨x, hx⟩ := List.exists_mem_of_ne_nil _ hne
    exact List.ne_nil_of_mem ((h.mem_queue _ x).mpr
      ⟨((hafter.mem_queue _ x).mp hx).1.2, ((hafter.mem_queue _ x).mp hx).2⟩)
  have hindex := h.index_successor hvacates hhigh.1 hz hqueue
  have hzq : s.context.readyQueueIndex q ≠ 0 := hindex ▸ hz
  rw [← hindex, ← Context.target_add_one (v := s.cpu n) hzq, Context.scheduled_allocate_target]
  exact hzq

/-- The laws of the shared operations. -/
theorem laws (I : Instance T Nat) : Laws callbacks I (policy I) where
  enqueues := enqueues I
  fills := fills I
  extractFromScheduled _ _ _ _ _ _ h hS := h.mono hS
  extractFromReady _ _ _ _ h _ := ⟨_, rfl, h.extractFromReady⟩
  doUpdate := by
    intro s P S n p h hP hS _
    refine ⟨s.context, rfl, { h with sorted := ?_, bounded := ?_ }⟩
    · intro i
      refine (h.sorted i).congr ?_
      intro u hu
      have hun : u ≠ n := by
        rintro rfl
        exact hP ((h.mem_queue i u).mp hu).1
      exact (s.priority_nodeUpdatePriority n hun p).symm
    · intro u hu v hv hcase
      rw [s.priority_nodeUpdatePriority n (u := v) (by rintro rfl; exact hS hv),
        s.priority_nodeUpdatePriority n (by rintro rfl; exact hP hu)]
      exact h.bounded u hu v hv hcase
  getHighestReady _ _ _ i n h hi hP := h.getHighestReady (h.idle i hi) hP n
  stays := by
    intro s P S n q h hheirs hhigh hle
    refine { h with bounded := ?_ }
    rintro u hu v (rfl | hv) hcase
    · refine hle.trans (hhigh.2.2 u hu ?_)
      by_cases hfree : s.context.Free u
      · exact h.eligible_of_free hu hfree v
      · have hz : s.context.readyQueueIndex u ≠ 0 := fun hz => hfree (.inl hz)
        obtain ⟨c, hc, he⟩ := h.exists_cpu hz
        have hvc := hcase.resolve_left hfree
        rw [he, h.scheduled_eq c hc] at hvc
        have hs : s.context.readyQueueIndex v ≠ 0 := by
          intro hs
          refine hfree (.inr ?_)
          rw [he, h.scheduled_eq c hc, ← hvc, hs]
        have hp := (h.placed c hc).resolve_left (hvc ▸ hs)
        exact .inr (.inl (by rw [he, hvc, hp]))
    · exact h.bounded u hu v hv hcase
  exchange := by
    intro s P S n q f hf h huser hn _ hq hqS hheirs hhigh hle
    obtain ⟨g, before, rfl, hbefore⟩ := insertReady_eq hf
    have hqn : q ≠ n := by
      rintro rfl
      exact hn hq
    obtain ⟨halloc, hcontext, hafter⟩ := succeed h huser hheirs hn hq hqS hhigh
    have hleaving := h.bounded_leaving hheirs hq hhigh hle
    rw [← hcontext] at hleaving
    have hindex := readyQueueIndex_of_allocate hcontext n
    have hinsert := hafter.insertReady (n := n) (fun i hi => hi.trans hindex) hn hleaving g
      before hbefore
    have hfinal := hinsert.extractFromReady (n := q)
    refine ⟨halloc, _, rfl, ?_⟩
    change Holds I _ _ _ (((allocateProcessor s q n (s.cpu n)).context.insertReady
      (allocateProcessor s q n (s.cpu n)).priority n g before).extractFromReady q) _ _
    rw [halloc.same.priority]
    refine queues_congr (Q := (policy I).queues) hfinal ?_ fun _ => Iff.rfl
    intro u
    by_cases hu : u = n
    · subst hu
      simp [Ne.symm hqn]
    · simp [hu]

end Laws

end Rtems.Scheduler.Smp.Edf
