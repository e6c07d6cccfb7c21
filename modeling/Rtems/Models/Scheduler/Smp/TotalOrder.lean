import Rtems.Models.Scheduler.Smp.Invariant

/-!
# Schedulers with one totally ordered ready set

The policy of the schedulers whose ready set is one queue ordered by priority and whose
threads may run on every processor of the instance. The laws of the shared operations
follow from laws about the ready set alone.
-/

namespace Rtems.Scheduler.Smp

variable {T C R : Type*} [DecidableEq T] [DecidableEq C]

/-- The ready set as a relation between the priorities, the context and the members. -/
abbrev Represents (T R : Type*) := (T → Nat) → R → (T → Prop) → Prop

/-- A function that inserts a node into the ready set. -/
def InsertsReady (rep : Represents T R) (insertReady : State T C R → T → State T C R) : Prop :=
  ∀ ⦃s P n⦄, rep s.priority s.context P → ¬P n →
    ∃ r, insertReady s n = { s with context := r } ∧
      ∀ P', (∀ u, P' u ↔ u = n ∨ P u) → rep s.priority r P'

/-- What the policy relies on. -/
structure ReadyLaws (cb : Callbacks T C R) (isOwned : C → Bool) (maximumPriority : Nat)
    (rep : Represents T R) : Prop where
  getHighestReady : ∀ ⦃s P⦄ (n : T), rep s.priority s.context P → (∃ u, P u) →
    ∃ h, cb.getHighestReady s n = some h ∧ P h ∧ ∀ u, P u → s.priority h ≤ s.priority u
  getLowestScheduled : ∀ s n, cb.getLowestScheduled s n = s.scheduled.getLast?
  extractFromReady : ∀ ⦃s P n⦄, rep s.priority s.context P → P n →
    ∃ r, cb.extractFromReady s n = { s with context := r } ∧
      ∀ P', (∀ u, P' u ↔ u ≠ n ∧ P u) → rep s.priority r P'
  insertReadyLifo : InsertsReady rep cb.insertReadyLifo
  insertReadyFifo : InsertsReady rep cb.insertReadyFifo
  moveFromScheduledToReady : ∀ ⦃s P n⦄, rep s.priority s.context P → ¬P n →
    ∃ r, cb.moveFromScheduledToReady s n =
        { s with scheduled := s.scheduled.erase n, context := r } ∧
      ∀ P', (∀ u, P' u ↔ u = n ∨ P u) → rep s.priority r P'
  moveFromReadyToScheduled : ∀ ⦃s P n⦄, rep s.priority s.context P → P n →
    ∃ r, cb.moveFromReadyToScheduled s n = insertScheduledFifo { s with context := r } n ∧
      ∀ P', (∀ u, P' u ↔ u ≠ n ∧ P u) → rep s.priority r P'
  doUpdate : ∀ ⦃s P n p⦄, rep s.priority s.context P → ¬P n → p ≤ maximumPriority →
    ∃ r, cb.doUpdate s n p = { s.nodeUpdatePriority n p with context := r } ∧
      rep (s.nodeUpdatePriority n p).priority r P
  allocateProcessor : cb.allocateProcessor = allocateProcessorLazy isOwned
  registerIdle : ∀ s idle cpu, cb.registerIdle s idle cpu = s

/-- No ready node is better than a scheduled one. -/
def totalOrder (rep : Represents T R) : Policy T C R where
  queues priority _ context ready scheduled :=
    rep priority context ready ∧
      ∀ q, ready q → ∀ u, scheduled u → priority u ≤ priority q
  lowest priority _ scheduled _ w := ∀ u, scheduled u → priority u ≤ priority w
  highest priority _ ready _ q := ∀ u, ready u → priority q ≤ priority u
  vacates _ _ _ := True

namespace ReadyLaws

variable {cb : Callbacks T C R} {isOwned : C → Bool} {rep : Represents T R} {I : Instance T C}

section

variable (h : ReadyLaws cb isOwned I.maximumPriority rep)
include h

theorem insertsReady
    {f : State T C R → T → State T C R} (hf : cb.InsertsReady f) : InsertsReady rep f := by
  rcases hf with rfl | rfl
  · exact h.insertReadyLifo
  · exact h.insertReadyFifo

section

variable (howned : ∀ c, isOwned c = true ↔ c ∈ I.cpus)
include howned

/-- The lazy allocation gives the node a processor in the place of the victim. -/
theorem allocated {s : State T C R} {P : T → Prop} {n w : T} (hne : n ≠ w)
    (huser : ∀ u, (s.node u).user = u) (hrep : rep s.priority s.context P) :
    Allocated I s (cb.allocateProcessor s n w (s.cpu w)) n w ∧
      rep (cb.allocateProcessor s n w (s.cpu w)).priority
        (cb.allocateProcessor s n w (s.cpu w)).context P := by
  rw [h.allocateProcessor]
  have hsame := allocateProcessorLazy_same isOwned huser hne (s.cpu w)
  rw [hsame.priority, allocateProcessorLazy_context isOwned huser hne]
  refine ⟨⟨hsame, ?_⟩, hrep⟩
  intro A A' hA hw hn hA'
  exact allocateProcessorLazy_heirs howned huser hA hw hn hA'

/-- A node enters the queues. -/
theorem enqueues (n : T) :
    Enqueues cb I (totalOrder rep) (totalOrder rep).queues n where
  getLowestScheduled := by
    rintro s P - hsorted hheirs
    obtain ⟨c, hc⟩ := List.exists_mem_of_ne_nil _ I.cpus_ne_nil
    obtain ⟨l, w, hl⟩ := List.eq_nil_or_concat s.scheduled |>.resolve_left
      (List.ne_nil_of_mem (hheirs.holder_mem c hc))
    rw [List.concat_eq_append] at hl
    refine ⟨w, by simp [hl], by simp [h.getLowestScheduled, hl], ?_⟩
    intro u hu
    rw [hl] at hsorted hu
    exact hsorted.le_last hu
  insertReady := by
    rintro s P S w f hf ⟨hrep, hle⟩ hPn - hlow - hwn
    obtain ⟨r, hs, hr⟩ := h.insertsReady hf hrep hPn
    refine ⟨r, hs, hr _ fun _ => Iff.rfl, ?_⟩
    rintro q (rfl | hq) u hu
    · exact (hlow u hu).trans hwn
    · exact hle q hq u hu
  replace := by
    rintro s P S w ⟨hrep, hle⟩ huser - hSn hSw hPw - hlow hnw
    have hne : n ≠ w := by
      rintro rfl
      exact hSn hSw
    obtain ⟨halloc, hrep₁⟩ := h.allocated howned hne huser hrep
    refine ⟨halloc, ?_⟩
    generalize cb.allocateProcessor s n w (s.cpu w) = s₁ at halloc hrep₁ ⊢
    intro l
    obtain ⟨r, hs, hr⟩ := h.moveFromScheduledToReady (s := { s₁ with scheduled := l }) hrep₁ hPw
    refine ⟨r, hs, halloc.same.priority ▸ hr _ fun _ => Iff.rfl, ?_⟩
    have hbound : ∀ u, u = n ∨ u ≠ w ∧ S u → s.priority u ≤ s.priority w := by
      rintro u (rfl | ⟨-, hu⟩)
      · exact hnw
      · exact hlow u hu
    rintro q (rfl | hq) u hu
    · exact hbound u hu
    · exact (hbound u hu).trans (hle q hq w hSw)

/-- The highest ready node takes a processor. -/
theorem fills (n : T) :
    Fills cb I (totalOrder rep) (fun _ _ => True) (totalOrder rep).queues n := by
  rintro s P S q ⟨hrep, hle⟩ huser hPn - hPq - - hhigh -
  have hne : q ≠ n := by
    rintro rfl
    exact hPn hPq
  obtain ⟨halloc, hrep₁⟩ := h.allocated howned hne huser hrep
  refine ⟨halloc, ?_⟩
  obtain ⟨r, hs, hr⟩ := h.moveFromReadyToScheduled hrep₁ hPq
  refine ⟨r, hs, halloc.same.priority ▸ hr _ fun _ => Iff.rfl, ?_⟩
  rintro v ⟨-, hv⟩ u (rfl | hu)
  · exact hhigh v hv
  · exact hle v hv u hu

/-- The laws of the shared operations. -/
theorem laws : Laws cb I (totalOrder rep) where
  enqueues := h.enqueues howned
  fills := h.fills howned
  extractFromScheduled := by
    rintro p - r P S S' ⟨hrep, hle⟩ hS
    exact ⟨hrep, fun q hq u hu => hle q hq u (hS u hu)⟩
  extractFromReady := by
    rintro s P S n ⟨hrep, hle⟩ hPn
    obtain ⟨r, hs, hr⟩ := h.extractFromReady hrep hPn
    exact ⟨r, hs, hr _ fun _ => Iff.rfl, fun q hq => hle q hq.2⟩
  doUpdate := by
    rintro s P S n p ⟨hrep, hle⟩ hPn hSn hp
    obtain ⟨r, hs, hr⟩ := h.doUpdate hrep hPn hp
    refine ⟨r, hs, hr, ?_⟩
    intro q hq u hu
    rw [s.priority_nodeUpdatePriority n (u := q) (by rintro rfl; exact hPn hq),
      s.priority_nodeUpdatePriority n (by rintro rfl; exact hSn hu)]
    exact hle q hq u hu
  getHighestReady := by
    rintro s P S i n ⟨hrep, -⟩ - hi
    exact h.getHighestReady n hrep ⟨i, hi⟩
  stays := by
    rintro s P S n q ⟨hrep, hle⟩ - hhigh hnq
    refine ⟨hrep, ?_⟩
    rintro v hv u (rfl | hu)
    · exact hnq.trans (hhigh v hv)
    · exact hle v hv u hu
  exchange := by
    rintro s P S n q f hf ⟨hrep, hle⟩ huser hPn - hPq - - hhigh hqn
    have hne : q ≠ n := by
      rintro rfl
      exact hPn hPq
    obtain ⟨halloc, hrep₁⟩ := h.allocated howned hne huser hrep
    refine ⟨halloc, ?_⟩
    generalize cb.allocateProcessor s q n (s.cpu n) = s₁ at halloc hrep₁ ⊢
    obtain ⟨r₁, hs₁, hr₁⟩ := h.insertsReady hf hrep₁ hPn
    obtain ⟨r₂, hs₂, hr₂⟩ := h.moveFromReadyToScheduled (s := { s₁ with context := r₁ })
      (hr₁ _ fun _ => Iff.rfl) (.inr hPq)
    have hmem : ∀ u, u = n ∨ u ≠ q ∧ P u ↔ u ≠ q ∧ (u = n ∨ P u) := by
      intro u
      by_cases hu : u = n
      · subst hu
        simp [Ne.symm hne]
      · simp [hu]
    refine ⟨r₂, by rw [hs₁, hs₂], halloc.same.priority ▸ hr₂ _ hmem, ?_⟩
    have hbound : ∀ v, v = n ∨ v ≠ q ∧ P v → s.priority q ≤ s.priority v := by
      rintro v (rfl | ⟨-, hv⟩)
      · exact hqn
      · exact hhigh v hv
    rintro v hv u (rfl | hu)
    · exact hbound v hv
    · exact (hle q hPq u hu).trans (hbound v hv)

end

end

end ReadyLaws

end Rtems.Scheduler.Smp
