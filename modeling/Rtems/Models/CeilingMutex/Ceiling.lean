import Rtems.Models.CeilingMutex.State

/-!
# The priority ceiling

In every run the ceiling contributes to the priority of the owner, and of nobody else. The
ceiling is compared with the priority of a thread that seizes a free mutex. A thread that waited
is not asked again, so the comparison has to hold while it waits.
-/

namespace Rtems.CeilingMutex

open Function ThreadQueue

variable {T N : Type*} {s s' : State T N} {t : T}
  {holder holder' : Option T}

/-- The priorities are in order, and the ceiling contributes to the holder only. -/
structure Held (s : State T N) (holder : Option T) : Prop where
  /-- The contributors of every thread are in order. -/
  ok : ∀ t, (s.waitPriority t).Ok (s.key t)
  /-- Every thread has a contributor of its own. -/
  own : ∀ t, ∃ node, .own node ∈ (s.waitPriority t).contributors
  /-- The ceiling contributes to the holder. -/
  ceiling : ∀ t, .ceiling ∈ (s.waitPriority t).contributors ↔ holder = some t
  /-- No thread waits twice. -/
  nodup : s.waitQueue.contributors.Nodup

/-- What holds between two operations. -/
structure Inv (s : State T N) : Prop where
  /-- The owner holds the ceiling. -/
  held : Held s s.owner
  /-- The owner does not wait. -/
  apart : ∀ t ∈ s.waitQueue.contributors, s.owner ≠ some t

/-- No contributor of the thread has a higher priority than the ceiling. -/
def Bounded (s : State T N) (t : T) : Prop :=
  ∀ node, .own node ∈ (s.waitPriority t).contributors → s.priorityCeiling ≤ s.nodePriority t node

/-- Two states that differ in the contributions of the ceiling and the order of the queue. -/
structure Alike (s s' : State T N) : Prop where
  /-- The owner is the same. -/
  owner : s'.owner = s.owner
  /-- The ceiling is the same. -/
  priorityCeiling : s'.priorityCeiling = s.priorityCeiling
  /-- The priorities of the nodes are the same. -/
  nodePriority : s'.nodePriority = s.nodePriority
  /-- The same threads wait. -/
  waiting : ∀ t, t ∈ s'.waitQueue.contributors ↔ t ∈ s.waitQueue.contributors
  /-- The other contributors are the same. -/
  own : ∀ t node, .own node ∈ (s'.waitPriority t).contributors ↔
    .own node ∈ (s.waitPriority t).contributors

/-- No waiting thread has a contributor with a higher priority than the ceiling. -/
def WaitersBounded (s : State T N) : Prop :=
  ∀ t ∈ s.waitQueue.contributors, Bounded s t

/-- What an operation does. -/
structure Outcome (s s' : State T N) : Prop where
  /-- The ceiling is where it belongs. -/
  inv : Inv s'
  /-- The threads that wait are bounded by the ceiling. -/
  waiters : WaitersBounded s'
  /-- A new owner is bounded by the ceiling. -/
  entered : ∀ t, s'.owner = some t → s.owner ≠ some t → Bounded s' t

theorem Alike.bounded (h : Alike s s') (t : T) : Bounded s' t ↔ Bounded s t := by
  unfold Bounded
  simp only [h.own, h.priorityCeiling, h.nodePriority]

theorem Held.bounded (h : Held s holder) (hle : s.priorityCeiling ≤ s.priority t) :
    Bounded s t := by
  intro node hnode
  have hleast := (h.ok t).isLeast (List.ne_nil_of_mem hnode)
  exact le_trans hle (hleast.2 ⟨.own node, hnode, rfl⟩)

theorem Outcome.of_sublist {queue : Aggregation T} (h : Inv s) (hwaiters : WaitersBounded s)
    (hsub : queue.contributors.Sublist s.waitQueue.contributors) (nestLevel : Nat) :
    Outcome s { s with waitQueue := queue, nestLevel := nestLevel } where
  inv := ⟨⟨h.held.ok, h.held.own, h.held.ceiling, h.held.nodup.sublist hsub⟩,
    fun t ht => h.apart t (hsub.mem ht)⟩
  waiters t ht := hwaiters t (hsub.mem ht)
  entered _ ht hne := absurd ht hne

/-- The ceiling of a fresh mutex contributes to nobody. -/
theorem Fresh.inv (h : Fresh s) : Inv s where
  held := by
    refine ⟨h.ok, h.own, ?_, by rw [h.waitQueue]; exact List.nodup_nil⟩
    intro t
    rw [h.owner]
    exact iff_of_false (h.ceiling t) (fun hc => (nomatch hc))
  apart := by
    intro t ht
    rw [h.waitQueue] at ht
    exact absurd ht List.not_mem_nil

variable [DecidableEq T]

theorem applyPriority_waitPriority (s : State T N) (t : T)
    (result : Aggregation (Node N) × Bool) :
    (s.applyPriority t result).waitPriority = update s.waitPriority t result.1 := by
  unfold State.applyPriority
  simp only
  split_ifs <;> rfl

variable {result : Aggregation (Node N) × Bool} {node : N}

/-- New contributors that differ in the ceiling only. -/
theorem applyPriority_alike (hown : ∀ node, .own node ∈ result.1.contributors ↔
      .own node ∈ (s.waitPriority t).contributors) :
    Alike s (s.applyPriority t result) where
  owner := by unfold State.applyPriority; simp only; split_ifs <;> rfl
  priorityCeiling := by unfold State.applyPriority; simp only; split_ifs <;> rfl
  nodePriority := by unfold State.applyPriority; simp only; split_ifs <;> rfl
  waiting u := by
    unfold State.applyPriority
    simp only
    split_ifs with hchanged
    · exact Aggregation.mem_plainChanged _ hchanged.2 u
    · rfl
  own := by
    intro u node
    rw [applyPriority_waitPriority]
    by_cases hu : u = t
    · subst hu
      rw [update_self]
      exact hown node
    · rw [update_of_ne hu]

/-- New contributors in order give the ceiling to the new holder. The priorities of the thread's
nodes may be new. -/
theorem Held.applyPriority {s₀ : State T N}
    (h : Held s₀ holder) (hpriority : s.waitPriority = s₀.waitPriority)
    (hqueue : s.waitQueue = s₀.waitQueue) (hkeys : ∀ u, u ≠ t → s.key u = s₀.key u)
    (hok : result.1.Ok (s.key t))
    (hown : ∀ node, .own node ∈ result.1.contributors ↔
      .own node ∈ (s.waitPriority t).contributors)
    (hceiling : .ceiling ∈ result.1.contributors ↔ holder' = some t)
    (hothers : ∀ u, u ≠ t → (holder = some u ↔ holder' = some u)) :
    Held (s.applyPriority t result) holder' where
  ok := by
    intro u
    have hkey : (s.applyPriority t result).key u = s.key u := by
      have halike := applyPriority_alike hown
      ext node
      cases node with
      | own node => exact congrFun (congrFun halike.nodePriority u) node
      | ceiling => exact halike.priorityCeiling
    rw [hkey, applyPriority_waitPriority]
    by_cases hu : u = t
    · subst hu
      rwa [update_self]
    · rw [update_of_ne hu, hpriority, hkeys u hu]
      exact h.ok u
  own := by
    intro u
    obtain ⟨node, hnode⟩ := hpriority ▸ h.own u
    exact ⟨node, ((applyPriority_alike hown).own u node).mpr hnode⟩
  ceiling := by
    intro u
    rw [applyPriority_waitPriority]
    by_cases hu : u = t
    · subst hu
      rwa [update_self]
    · rw [update_of_ne hu, hpriority, h.ceiling u]
      exact hothers u hu
  nodup := by
    unfold State.applyPriority
    simp only
    split_ifs
    · exact Aggregation.nodup_plainChanged (hqueue ▸ h.nodup)
    · exact hqueue ▸ h.nodup

/-- A ceiling that nobody holds is given to a thread. -/
theorem Held.threadPriorityAdd (h : Held s none) (t : T) :
    Held (s.threadPriorityAdd t) (some t) ∧ Alike s (s.threadPriorityAdd t) := by
  obtain ⟨node, hnode⟩ := h.own t
  have habsent : .ceiling ∉ (s.waitPriority t).contributors := by
    rw [h.ceiling]
    exact fun hc => (nomatch hc)
  obtain ⟨hok, hmem, _⟩ :=
    Aggregation.nonEmptyInsert_spec (h.ok t) habsent (List.ne_nil_of_mem hnode)
  have hown : ∀ node, Node.own node ∈ (Aggregation.nonEmptyInsert (s.key t) (s.waitPriority t)
      .ceiling).1.contributors ↔ .own node ∈ (s.waitPriority t).contributors := by
    intro node
    rw [hmem]
    simp
  constructor
  · refine h.applyPriority rfl rfl (fun _ _ => rfl) hok hown ?_ ?_
    · simp [hmem]
    · intro u hu
      simp [Ne.symm hu]
  · exact applyPriority_alike hown

/-- A bounded thread that does not wait takes a mutex that nobody holds. -/
theorem Outcome.of_add (h : Held s none) (hwaiters : WaitersBounded s) (hbounded : Bounded s t)
    (hwaits : t ∉ s.waitQueue.contributors) :
    Outcome s ({ s with owner := some t }.threadPriorityAdd t) := by
  have hgiven : Held { s with owner := some t } none := { h with }
  obtain ⟨hheld, halike⟩ := hgiven.threadPriorityAdd t
  refine ⟨⟨?_, ?_⟩, ?_, ?_⟩
  · rw [halike.owner]
    exact hheld
  · intro u hu howner
    rw [halike.owner] at howner
    cases howner
    exact hwaits ((halike.waiting t).mp hu)
  · intro u hu
    exact (halike.bounded u).mpr (hwaiters u ((halike.waiting u).mp hu))
  · intro u howner _
    rw [halike.owner] at howner
    cases howner
    exact (halike.bounded t).mpr hbounded

/-- A seize keeps the ceiling where it belongs. -/
theorem seize_outcome {wait recursive : Bool} (h : Inv s) (hwaiters : WaitersBounded s)
    (hallowed : Allowed s (.seize t wait recursive : Op T N))
    (hbelow : BelowCeiling s (.seize t wait recursive : Op T N)) :
    Outcome s (s.seize t wait recursive).1 := by
  unfold State.seize
  cases howner : s.owner with
  | none =>
    simp only [State.setOwner]
    split_ifs with hviolated
    · exact .of_sublist h hwaiters (List.Sublist.refl _) s.nestLevel
    · have hheld : Held s none := howner ▸ h.held
      exact .of_add hheld hwaiters (hheld.bounded (not_lt.mp hviolated)) hallowed
  | some owner =>
    simp only
    split_ifs with hnested
    · unfold State.seizeNested
      split_ifs
      · exact .of_sublist h hwaiters (List.Sublist.refl _) _
      · exact .of_sublist h hwaiters (List.Sublist.refl _) s.nestLevel
    · have hother : s.owner ≠ some t := by
        rw [howner]
        exact fun he => hnested (Option.some.inj he)
      unfold State.seizeSlow
      split_ifs with hwait
      · -- The thread joins the queue; nobody compares its priority later.
        have hbounded : Bounded s t :=
          h.held.bounded (hbelow hwait (by rw [howner]; exact fun hc => (nomatch hc)) hother)
        constructor
        · constructor
          · exact ⟨h.held.ok, h.held.own, h.held.ceiling, nodup_insertBefore hallowed h.held.nodup⟩
          · intro u hu
            rcases mem_insertBefore.mp hu with rfl | hu
            · exact hother
            · exact h.apart u hu
        · intro u hu
          rcases mem_insertBefore.mp hu with rfl | hu
          · exact hbounded
          · exact hwaiters u hu
        · intro u hu hne
          exact absurd hu hne
      · exact .of_sublist h hwaiters (List.Sublist.refl _) s.nestLevel

/-- The first waiting thread takes a mutex that nobody holds. -/
theorem handOver_outcome (h : Held s none) (hwaiters : WaitersBounded s) :
    Inv s.handOver ∧ WaitersBounded s.handOver ∧
      ∀ t, s.handOver.owner = some t → Bounded s.handOver t := by
  unfold State.handOver
  cases hfirst : s.waitQueue.minimum with
  | none =>
    refine ⟨⟨{ h with }, fun t _ hc => (nomatch hc)⟩, hwaiters, ?_⟩
    intro t ht
    exact nomatch ht
  | some newOwner =>
    have hwaits : newOwner ∈ s.waitQueue.contributors := List.mem_of_mem_head? hfirst
    have hgiven : Held { s with owner := some newOwner } none :=
      { h with }
    obtain ⟨hheld, halike⟩ := hgiven.threadPriorityAdd newOwner
    simp only
    generalize { s with owner := some newOwner }.threadPriorityAdd newOwner = s₂ at *
    have howner : s₂.owner = some newOwner := halike.owner
    have hbounded : ∀ t ∈ s.waitQueue.contributors, Bounded s₂ t :=
      fun t ht => (halike.bounded t).mpr (hwaiters t ht)
    refine ⟨⟨⟨hheld.ok, hheld.own, ?_, hheld.nodup.erase newOwner⟩, ?_⟩, ?_, ?_⟩
    · simp only [howner]
      exact hheld.ceiling
    · intro t ht hc
      have hsame : newOwner = t := Option.some.inj (howner.symm.trans hc)
      subst hsame
      exact hheld.nodup.not_mem_erase ht
    · intro t ht
      exact hbounded t ((halike.waiting t).mp (List.mem_of_mem_erase ht))
    · intro t ht
      have hsame : newOwner = t := Option.some.inj (howner.symm.trans ht)
      subst hsame
      exact hbounded newOwner hwaits

variable [DecidableEq N]

/-- The holder gives the ceiling back. -/
theorem Held.threadPriorityRemove (h : Held s (some t)) :
    ∃ s', s.threadPriorityRemove t = some s' ∧ Held s' none ∧ Alike s s' := by
  obtain ⟨node, hnode⟩ := h.own t
  have hholds : .ceiling ∈ (s.waitPriority t).contributors := (h.ceiling t).mpr rfl
  have hrest : (s.waitPriority t).contributors.erase .ceiling ≠ [] :=
    List.ne_nil_of_mem ((List.mem_erase_of_ne (by simp)).mpr hnode)
  obtain ⟨hok, hcontributors, _⟩ := Aggregation.extract_spec (h.ok t) hholds
  have hown : ∀ node, Node.own node ∈ (Aggregation.extract (s.key t) (s.waitPriority t)
      .ceiling).1.contributors ↔ .own node ∈ (s.waitPriority t).contributors := by
    intro node
    rw [hcontributors]
    exact List.mem_erase_of_ne (by simp)
  refine ⟨_, by rw [State.threadPriorityRemove, Aggregation.extractNonEmpty_eq hrest,
    Option.map_some], h.applyPriority rfl rfl (fun _ _ => rfl) hok hown ?_ ?_,
    applyPriority_alike hown⟩
  · rw [hcontributors]
    exact iff_of_false (h.ok t).nodup.not_mem_erase (fun hc => (nomatch hc))
  · intro u hu
    simp [Ne.symm hu]

/-- Another contributor of a thread gets a new priority. -/
theorem Held.threadPriorityChange (h : Held s holder) (priority : Nat)
    (hnode : .own node ∈ (s.waitPriority t).contributors) :
    ∃ s', s.threadPriorityChange t node priority = some s' ∧ Held s' holder ∧
      Alike (s.setNodePriority t node priority) s' := by
  have hothers : ∀ c, c ≠ .own node → (s.setNodePriority t node priority).key t c = s.key t c := by
    intro c hc
    cases c with
    | own other =>
      simp only [State.key, State.setNodePriority, update_self]
      exact update_of_ne (fun he => hc (congrArg Node.own he)) _ _
    | ceiling => rfl
  have hsorted : SortedBy ((s.setNodePriority t node priority).key t)
      ((s.waitPriority t).contributors.erase (.own node)) := by
    refine ((h.ok t).sorted.erase (.own node)).congr fun c hc => (hothers c ?_).symm
    rintro rfl
    exact (h.ok t).nodup.not_mem_erase hc
  obtain ⟨a, reported, ha, hok, hmem, _⟩ :=
    Aggregation.changed_spec (h.ok t).nodup hsorted hnode
  have hresult : s.threadPriorityChange t node priority =
      some ((s.setNodePriority t node priority).applyPriority t (a, reported)) := by
    unfold State.threadPriorityChange
    exact congrArg (Option.map _) ha
  have hkeys : ∀ u, u ≠ t → (s.setNodePriority t node priority).key u = s.key u := by
    intro u hu
    ext c
    cases c with
    | own other =>
      simp only [State.key, State.setNodePriority, update_of_ne hu]
    | ceiling => rfl
  have hceiling : .ceiling ∈ a.contributors ↔ holder = some t := by
    rw [hmem]
    exact h.ceiling t
  exact ⟨_, hresult, h.applyPriority rfl rfl hkeys hok (fun _ => hmem _) hceiling
    fun _ _ => Iff.rfl, applyPriority_alike fun _ => hmem _⟩

section

variable (h : Inv s) (hwaiters : WaitersBounded s)
include h hwaiters

/-- A surrender returns and keeps the ceiling where it belongs. -/
theorem surrender_outcome (t : T) :
    ∃ result, s.surrender t = some result ∧ Outcome s result.1 := by
  unfold State.surrender
  split_ifs with howner hnested
  · exact ⟨_, rfl, .of_sublist h hwaiters (List.Sublist.refl _) s.nestLevel⟩
  · exact ⟨_, rfl, .of_sublist h hwaiters (List.Sublist.refl _) _⟩
  · have hheld : Held s (some t) := not_not.mp howner ▸ h.held
    obtain ⟨s₁, hs₁, hfree, halike⟩ := hheld.threadPriorityRemove
    have hwaiters₁ : WaitersBounded s₁ :=
      fun u hu => (halike.bounded u).mpr (hwaiters u ((halike.waiting u).mp hu))
    obtain ⟨hinv, hbounded, hentered⟩ := handOver_outcome hfree hwaiters₁
    rw [hs₁]
    exact ⟨_, rfl, hinv, hbounded, fun u hu _ => hentered u hu⟩

/-- A change of another priority returns and leaves the mutex alone. -/
theorem changePriority_outcome {priority : Nat}
    (hallowed : Allowed s (.changePriority t node priority))
    (hbelow : BelowCeiling s (.changePriority t node priority)) :
    ∃ s', s.threadPriorityChange t node priority = some s' ∧ Outcome s s' := by
  obtain ⟨s', hs', hheld, halike⟩ := h.held.threadPriorityChange priority hallowed
  have howner : s'.owner = s.owner := halike.owner
  refine ⟨s', hs', ⟨howner ▸ hheld, ?_⟩, ?_, ?_⟩
  · intro u hu
    rw [howner]
    exact h.apart u ((halike.waiting u).mp hu)
  · intro u hu
    have hwaits : u ∈ s.waitQueue.contributors := (halike.waiting u).mp hu
    rw [halike.bounded]
    intro other hother
    have hold := hwaiters u hwaits other hother
    simp only [State.setNodePriority]
    by_cases hu : u = t
    · subst hu
      rw [update_self]
      by_cases hnode : other = node
      · rw [hnode, update_self]
        exact hbelow hwaits
      · rwa [update_of_ne hnode]
    · rwa [update_of_ne hu]
  · intro u hu hne
    rw [howner] at hu
    exact absurd hu hne

/-- Every operation returns and keeps the ceiling where it belongs. -/
theorem step_outcome {op : Op T N}
    (hallowed : Allowed s op) (hbelow : BelowCeiling s op) :
    ∃ s', step s op = some s' ∧ Outcome s s' := by
  cases op with
  | seize t wait recursive => exact ⟨_, rfl, seize_outcome h hwaiters hallowed hbelow⟩
  | surrender t =>
    obtain ⟨result, hresult, houtcome⟩ := surrender_outcome h hwaiters t
    exact ⟨result.1, by simp [step, call, hresult], houtcome⟩
  | timeout t =>
    refine ⟨_, rfl, ?_⟩
    simp only [State.timeout]
    split_ifs
    · exact .of_sublist h hwaiters List.erase_sublist s.nestLevel
    · exact .of_sublist h hwaiters (List.Sublist.refl _) s.nestLevel
  | changePriority t node priority =>
    obtain ⟨s', hs', houtcome⟩ := changePriority_outcome h hwaiters hallowed hbelow
    exact ⟨s', by simp [step, call, hs'], houtcome⟩

end

theorem Inv.count_ceiling (h : Inv s) (t : T) :
    (s.waitPriority t).contributors.count .ceiling = if s.owner = some t then 1 else 0 := by
  split_ifs with howner
  · exact List.count_eq_one_of_mem (h.held.ok t).nodup ((h.held.ceiling t).mpr howner)
  · exact List.count_eq_zero.mpr fun hc => howner ((h.held.ceiling t).mp hc)

/-- What holds between two operations in a run in which no thread waits with a priority higher
than the ceiling. -/
theorem run_inv {start : State T N} {actions : List (Op T N)} (h : Fresh start)
    (hrun : Run step (fun s op => Allowed s op ∧ BelowCeiling s op) start actions s) :
    Inv s ∧ WaitersBounded s := by
  refine hrun.invariant (fun s => Inv s ∧ WaitersBounded s) ⟨h.inv, ?_⟩ ?_
  · intro t ht
    rw [h.waitQueue] at ht
    exact absurd ht List.not_mem_nil
  · intro s op s' hs hguard hstep
    obtain ⟨s₁, hs₁, houtcome⟩ := step_outcome hs.1 hs.2 hguard.1 hguard.2
    cases hs₁.symm.trans hstep
    exact ⟨houtcome.inv, houtcome.waiters⟩

/-- In a run in which no thread waits with a priority higher than the ceiling, the ceiling
contributes exactly once to the owner and to nobody else, no thread with a higher priority
becomes the owner, and one that seizes the free mutex is told so. -/
theorem ceiling_enforced {start : State T N} {actions : List (Op T N)} (h : Fresh start)
    (hrun : Run step (fun s op => Allowed s op ∧ BelowCeiling s op) start actions s) :
    (∀ t, (s.waitPriority t).contributors.count .ceiling = if s.owner = some t then 1 else 0) ∧
    (∀ op, Allowed s op → BelowCeiling s op → ∃ s', step s op = some s' ∧
      ∀ t, s'.owner = some t → s.owner ≠ some t → Bounded s' t) ∧
    (∀ t wait recursive, s.owner = none → s.priority t < s.priorityCeiling →
      s.seize t wait recursive = (s, some .mutexCeilingViolated)) := by
  obtain ⟨hinv, hwaiters⟩ := run_inv h hrun
  refine ⟨hinv.count_ceiling, ?_, ?_⟩
  · intro op hallowed hbelow
    obtain ⟨s', hs', houtcome⟩ := step_outcome hinv hwaiters hallowed hbelow
    exact ⟨s', hs', houtcome.entered⟩
  · intro t wait recursive howner hviolated
    simp only [State.seize, howner, State.setOwner, if_pos hviolated]

/-- A mutex with the ceiling 5 and two threads, of priority 10 and of the given priority. -/
def twoThreads (priority : Nat) : State Bool Unit where
  owner := none
  nestLevel := 0
  priorityCeiling := 5
  waitQueue := ⟨[], 0⟩
  waitPriority t := ⟨[.own ()], if t then priority else 10⟩
  nodePriority t _ := if t then priority else 10

/-- Its threads have their own priorities only. -/
theorem fresh_twoThreads (priority : Nat) : Fresh (twoThreads priority) where
  owner := rfl
  waitQueue := rfl
  ok t := by
    constructor
    · exact List.nodup_singleton _
    · exact List.pairwise_singleton _ _
    · intro min hmin
      cases hmin
      rfl
  own _ := ⟨(), List.mem_singleton_self _⟩
  ceiling _ := by simp [twoThreads]

/-- A thread of priority 7 waits for the mutex and gets it. -/
theorem ceiling_enforced_twoThreads : ∃ s s' : State Bool Unit, s.owner = some false ∧
    step s (.surrender false) = some s' ∧ s'.owner = some true ∧ Bounded s' true := by
  obtain ⟨s, s', hexec, howner, hstep, howner', hallowed⟩ : ∃ s s' : State Bool Unit,
      exec step (fun s op => Allowed s op ∧ BelowCeiling s op) (twoThreads 7)
        [.seize false true true, .seize true true true] = some s ∧ s.owner = some false ∧
      step s (.surrender false) = some s' ∧ s'.owner = some true ∧
      Allowed s (.surrender false : Op Bool Unit) :=
    ⟨_, _, rfl, rfl, rfl, rfl, by decide⟩
  obtain ⟨s₁, hs₁, hentered⟩ := (ceiling_enforced (fresh_twoThreads 7) (Run.of_exec hexec)).2.1
    (.surrender false) hallowed trivial
  cases hs₁.symm.trans hstep
  exact ⟨s, _, howner, hstep, howner', hentered true howner' (by rw [howner]; decide)⟩

/-- A thread of priority 3 waits for the mutex and gets it, with a status of success. -/
theorem handOver_exceeds_ceiling : Fresh (twoThreads 3) ∧ ∃ s s' : State Bool Unit,
    Run step Allowed (twoThreads 3) [.seize false true true, .seize true true true] s ∧
      call s (.surrender false) = some (s', some .successful) ∧
      s'.owner = some true ∧ ¬ Bounded s' true := by
  refine ⟨fresh_twoThreads 3, _, _, .of_exec rfl, rfl, rfl, ?_⟩
  intro hbounded
  exact absurd (hbounded () (by decide)) (by decide)

end Rtems.CeilingMutex
