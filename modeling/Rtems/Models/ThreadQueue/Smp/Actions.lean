import Rtems.Models.ThreadQueue.Smp.Operations

/-!
# Priority actions of waiting threads and whole runs

A thread may gain or lose a scheduler node while it waits. The report of the thread
then asks the thread queue to put it into a priority queue or to take it out of one. In
every run of safe operations the chain is exact, so the first thread exists and no
operation links or unlinks wrongly; without the condition on the plain priority
operations the chain goes wrong.
-/

namespace Rtems.ThreadQueue.Smp

variable {T S : Type} [DecidableEq T] [DecidableEq S] {ops : Operations} {s s' : State T S}
  {t o : T} {heads : Directory T S}

open Function Directory

/-- What a legal action list does to the scheduler nodes of a thread. -/
structure Acted (s : State T S) (t : T) (changes : List (Change S)) (d : Directory Source S)
    (reported : List (S × ActionType)) : Prop where
  performed : PerformedAll Prod.fst Prod.snd (s.threads t) d (changedNodes changes)
  reported : ReportedAll (s.threads t) d (changes.map Prod.fst) reported

variable {changes : List (Change S)}

/-- A legal action list returns. -/
theorem doPerformActions_acted (h : Exact ops s)
    (hlegal : Legal ops s (.actions t changes)) (given : T → S → Source → Nat) :
    ∃ d reported, doPerformActions { s with given } t (changedNodes changes) =
        some (State.setThread { s with given } t d, reported) ∧ Acted s t changes d reported := by
  obtain ⟨hnodup, hchange⟩ := hlegal
  have hindex : (changedNodes changes).map Prod.fst = changes.map Prod.fst := by
    simp [changedNodes, Function.comp_def]
  obtain ⟨d, reported, hres, hperformed, hreported⟩ := doPerformActions_spec
    (s := { s with given }) (h.threads t) (changedNodes changes) (hindex ▸ hnodup) (by
      intro action haction
      obtain ⟨change, hmem, rfl⟩ := List.mem_map.mp haction
      exact (hchange change hmem).1)
  exact ⟨d, reported, hres, hperformed, hindex ▸ hreported⟩

section

variable {d : Directory Source S} {reported : List (S × ActionType)}

/-- The real and the inherited nodes are where they were. -/
theorem Acted.carries (h : Exact ops s) (ha : Acted s t changes d reported)
    (hlegal : Legal ops s (.actions t changes)) :
    Carries s (update s.threads t d) := by
  have hsame (source : Source) (hsource : ∀ change ∈ changes, change.2.2.1 = source →
      change.2.1 = .change) (i : S) : source ∈ d.nodes i ↔ source ∈ (s.threads t).nodes i := by
    by_cases hi : i ∈ (changedNodes changes).map Prod.fst
    · obtain ⟨action, haction, rfl⟩ := List.mem_map.mp hi
      by_cases hne : source = action.2.2
      · obtain ⟨change, hmem, rfl⟩ := List.mem_map.mp haction
        have htype : change.2.1 = .change := hsource change hmem hne.symm
        rw [hne, ha.performed.mem _ haction]
        refine iff_of_true ?_ ((hlegal.2 change hmem).1.mpr ?_) <;> simp [htype]
      · exact ha.performed.same action haction source hne
    · rw [nodes, nodes, ha.performed.other i hi]
  refine ⟨fun u => ?_, fun u => ?_, fun u i => ?_⟩
  · by_cases hu : u = t
    · simpa [hu] using ha.performed.ok
    · simpa [hu] using h.threads u
  · obtain ⟨i, hi⟩ := h.real u
    refine ⟨i, ?_⟩
    by_cases hu : u = t
    · subst hu
      have hreal := hsame .real fun change hmem => (hlegal.2 change hmem).2.2
      simpa using (hreal i).mpr hi
    · simpa [hu] using hi
  · by_cases hu : u = t
    · subst hu
      simpa using hsame .inherited
        (fun change hmem he => absurd he (hlegal.2 change hmem).2.1) i
    · simp [hu]

omit [DecidableEq T] in
/-- A scheduler without a report keeps its place on the chain of the thread. -/
theorem Acted.mem_chain (ha : Acted s t changes d reported) {i : S}
    (hi : i ∉ reported.map Prod.fst) : i ∈ d.chain ↔ i ∈ (s.threads t).chain := by
  have hadd : (i, ActionType.add) ∉ reported := fun hm => hi (List.mem_map_of_mem hm)
  have hremove : (i, ActionType.remove) ∉ reported := fun hm => hi (List.mem_map_of_mem hm)
  rw [ha.reported.add] at hadd
  rw [ha.reported.remove] at hremove
  tauto

section

variable (h : Exact ops s) (ht : t ∈ s.waiting) (ha : Acted s t changes d reported)
include h ht ha

/-- The reported actions bring the priority queues in line with the thread. -/
theorem Acted.mem_heads
    (hp : PerformedAll Prod.fst (fun a : S × ActionType => (a.2, t)) s.heads heads reported)
    (u : T) (i : S) :
    u ∈ heads.nodes i ↔ u ∈ s.waiting ∧ i ∈ (update s.threads t d u).chain := by
  by_cases hi : i ∈ reported.map Prod.fst
  · obtain ⟨⟨i, type⟩, hmem, rfl⟩ := List.mem_map.mp hi
    by_cases hu : u = t
    · subst hu
      rw [update_self, hp.mem _ hmem]
      cases type with
      | add => exact iff_of_true (by simp) ⟨ht, ((ha.reported.add i).mp hmem).2⟩
      | change => exact iff_of_true (by simp) ⟨ht, (ha.reported.change i hmem).2⟩
      | remove =>
        exact iff_of_false (by simp) fun hm => ((ha.reported.remove i).mp hmem).2 hm.2
    · rw [hp.same _ hmem u hu, h.mem_heads, update_of_ne hu]
  · rw [nodes, hp.other i hi, ← nodes, h.mem_heads]
    by_cases hu : u = t
    · subst hu
      rw [update_self, ha.mem_chain hi]
    · rw [update_of_ne hu]

omit [DecidableEq T] [DecidableEq S] in
/-- The reported actions fit the priority queues. -/
theorem Acted.fits {action : S × ActionType} (hmem : action ∈ reported) :
    t ∈ s.heads.nodes action.1 ↔ action.2 ≠ .add := by
  obtain ⟨i, type⟩ := action
  rw [h.mem_heads]
  cases type with
  | add => exact iff_of_false (fun hm => ((ha.reported.add i).mp hmem).1 hm.2) (by simp)
  | change => exact iff_of_true ⟨ht, (ha.reported.change i hmem).1⟩ (by simp)
  | remove => exact iff_of_true ⟨ht, ((ha.reported.remove i).mp hmem).1⟩ (by simp)

omit [DecidableEq T] [DecidableEq S] in
/-- A covered action list asks for no change of the chain. -/
theorem Acted.covered
    (hlegal : Legal ops s (.actions t changes)) (hcovered : Covered s (.actions t changes))
    {action : S × ActionType} (hmem : action ∈ reported) :
    (action.2 = .add → s.heads.nodes action.1 ≠ []) ∧
      (action.2 = .remove → ∃ u ∈ s.heads.nodes action.1, u ≠ t) := by
  obtain ⟨change, hchange, hindex⟩ :=
    List.mem_map.mp (ha.reported.subset _ (List.mem_map_of_mem hmem))
  have hitem : (change.1, change.2.1, change.2.2.1) ∈ changedNodes changes :=
    List.mem_map.mpr ⟨change, hchange, rfl⟩
  have hnode := (hlegal.2 change hchange).1
  obtain ⟨i, type⟩ := action
  obtain rfl : change.1 = i := hindex
  constructor
  · rintro rfl
    have hempty : (s.threads t).nodes change.1 = [] := by
      have hnot := ((ha.reported.add change.1).mp hmem).1
      rw [(h.threads t).mem_chain] at hnot
      exact not_not.mp hnot
    refine (hcovered ht change hchange).1 ?_ hempty
    by_contra htype
    simpa [hempty] using hnode.mpr htype
  · rintro rfl
    have hempty : d.nodes change.1 = [] := by
      have hnot := ((ha.reported.remove change.1).mp hmem).2
      rw [ha.performed.ok.mem_chain] at hnot
      exact not_not.mp hnot
    have htype : change.2.1 = .remove := by
      by_contra htype
      simpa [hempty] using (ha.performed.mem _ hitem).mpr htype
    refine (hcovered ht change hchange).2 htype ?_
    have hsource : change.2.2.1 ∈ (s.threads t).nodes change.1 := hnode.mpr (by simp [htype])
    have honly : ∀ c ∈ (s.threads t).nodes change.1, c = change.2.2.1 := by
      intro c hc
      by_contra hne
      simpa [hempty] using (ha.performed.same _ hitem c hne).mpr hc
    exact List.perm_singleton.mp ((List.perm_ext_iff_of_nodup ((h.threads t).nodup _)
      (List.nodup_singleton _)).mpr fun c =>
        ⟨fun hc => by simp [honly c hc], fun hc => by simpa [List.mem_singleton.mp hc] using hsource⟩)

end

/-- The plain priority operations follow a covered action list. -/
theorem priorityPriorityActions_exact (h : Exact .priority s) (ht : t ∈ s.waiting)
    (ha : Acted s t changes d reported) (hlegal : Legal .priority s (.actions t changes))
    (hcovered : Covered s (.actions t changes)) (given : T → S → Source → Nat) :
    Exact .priority
      (priorityPriorityActions (State.setThread { s with given } t d) t reported) := by
  let key := (State.setThread { s with given } t d).threadKey
  obtain ⟨heads, actions, hloop, hperformed, -⟩ := loop_spec False Prod.fst
    (fun action : S × ActionType => (action.2, t))
    (fun a action => (t ∈ a.contributors ↔ action.2 ≠ .add) ∧
      (action.2 = .add → a.contributors ≠ []) ∧
      (action.2 = .remove → ∃ u ∈ a.contributors, u ≠ t))
    (fun d action => some (d.plainPerform key action.1 action.2 t, none))
    (fun e action he hp => ⟨_, _, rfl, plainPerform_spec he key hp.1 hp.2.1 hp.2.2, False.elim⟩)
    ha.reported.nodup h.heads
    (fun action hmem => ⟨ha.fits h ht hmem, ha.covered h ht hlegal hcovered hmem⟩) []
  rw [loop_eq_foldl, Option.some_inj, Prod.mk.injEq] at hloop
  rw [← hloop.1] at hperformed
  have hexact := h.setHeads h.waiting_nodup hperformed.ok (ha.carries h hlegal)
    (ha.mem_heads h ht hperformed)
  exact { hexact with }

end

/-- The inheritance operations follow every action list. -/
theorem inheritPriorityActions_exact (h : Exact .priorityInherit s) (ht : t ∈ s.waiting)
    {d : Directory Source S} {reported : List (S × ActionType)}
    (ha : Acted s t changes d reported) (hlegal : Legal .priorityInherit s (.actions t changes))
    (given : T → S → Source → Nat) :
    ∃ s', priorityActions .priorityInherit (State.setThread { s with given } t d) t reported =
      some s' ∧ Exact .priorityInherit s' := by
  obtain ⟨o, ho, hnot⟩ := h.owner rfl (List.ne_nil_of_mem ht)
  let key := (State.setThread { s with given } t d).threadKey
  obtain ⟨heads, actions, hloop, hperformed, hreported⟩ := loop_spec True Prod.fst
    (fun action : S × ActionType => (action.2, t))
    (fun a action => t ∈ a.contributors ↔ action.2 ≠ .add)
    (fun d action => d.perform key action.1 action.2 t)
    (fun e action he hp => by
      obtain ⟨e', report, hres, hperformed, hreported⟩ := perform_spec he key hp
      exact ⟨e', report, hres, hperformed, fun _ => hreported⟩)
    ha.reported.nodup h.heads (fun action hmem => ha.fits h ht hmem) []
  rw [List.append_nil] at hloop
  have hreported := hreported trivial
  have hbehind := h.behind h.waiting_nodup hperformed.ok (ha.carries h hlegal)
    (ha.mem_heads h ht hperformed) ho hnot
    fun i hi => h.schedulerNode_of_reported ho hreported hi
  have hgiven : Behind s.heads.chain { State.setThread { s with given } t d with
      heads := heads
      schedulerNode := setSchedulerNodes s o actions } o :=
    { hbehind with }
  obtain ⟨s', hres, hexact⟩ := performOwnerActions_spec hgiven hreported
  have hactions : inheritPriorityActions (State.setThread { s with given } t d) t reported =
      some (_, actions) :=
    Option.bind_eq_some_iff.mpr ⟨o, ho, Option.bind_eq_some_iff.mpr ⟨_, hloop, rfl⟩⟩
  exact ⟨s', Option.bind_eq_some_iff.mpr ⟨_, hactions,
    Option.bind_eq_some_iff.mpr ⟨o, ho, hres⟩⟩, hexact⟩

/-- The changes of a thread that does not wait, or that the thread queue need not see. -/
theorem Acted.exact_of_silent (h : Exact ops s)
    {d : Directory Source S} {reported : List (S × ActionType)} (ha : Acted s t changes d reported)
    (hlegal : Legal ops s (.actions t changes)) (hsilent : ¬ (reported ≠ [] ∧ t ∈ s.waiting))
    (given : T → S → Source → Nat) : Exact ops (State.setThread { s with given } t d) := by
  have hcarries := ha.carries h hlegal
  refine ⟨h.waiting_nodup, h.heads, hcarries.ok, fun u i => ?_, hcarries.real, fun u i => ?_,
    h.owner, h.schedulerNode⟩
  · by_cases hu : u = t
    · subst hu
      rw [State.setThread_threads_self]
      refine (h.mem_heads u i).trans (and_congr_right fun hmem => ?_)
      have hnil : reported = [] := by
        by_contra hne
        exact hsilent ⟨hne, hmem⟩
      exact (ha.mem_chain (by simp [hnil])).symm
    · rw [State.setThread_threads_of_ne _ _ hu]
      exact h.mem_heads u i
  · exact (hcarries.inherited u i).trans (h.inherited u i)

/-- The priority nodes of a thread change. -/
theorem performActions_exact (h : Exact ops s) (hsafe : Safe ops s (.actions t changes)) :
    ∃ s', performActions ops s t changes = some s' ∧ Exact ops s' := by
  obtain ⟨hlegal, hcovered⟩ := hsafe
  obtain ⟨given, hgiven⟩ :
      ∃ given, given = update s.given t (changes.foldl give (s.given t)) := ⟨_, rfl⟩
  obtain ⟨d, reported, hres, ha⟩ := doPerformActions_acted h hlegal given
  have hperform : performActions ops s t changes =
      if reported ≠ [] ∧ t ∈ s.waiting then
        priorityActions ops (State.setThread { s with given } t d) t reported
      else some (State.setThread { s with given } t d) := by
    simp only [performActions, ← hgiven, hres, Option.bind_eq_bind, Option.bind_some]
    rfl
  rw [hperform]
  by_cases htells : reported ≠ [] ∧ t ∈ s.waiting
  · rw [if_pos htells]
    cases ops with
    | priority =>
      exact ⟨_, rfl, priorityPriorityActions_exact h htells.2 ha hlegal (hcovered rfl) given⟩
    | priorityInherit => exact inheritPriorityActions_exact h htells.2 ha hlegal given
  · rw [if_neg htells]
    exact ⟨_, rfl, ha.exact_of_silent h hlegal htells given⟩

/-- Every safe operation returns and keeps the chain exact. -/
theorem step_exact (h : Exact ops s) {op : Op T S} (hsafe : Safe ops s op) :
    ∃ s', step ops s op = some s' ∧ Exact ops s' := by
  cases op with
  | seize t =>
    obtain ⟨⟨hnone, hw⟩, -⟩ := hsafe
    have hnil := (h.heads_nil hw).1
    refine ⟨_, rfl, { h with
      inherited := fun u i => ?_
      owner := fun _ hne => absurd hw hne
      schedulerNode := fun _ i hi => ?_ }⟩
    · rw [h.inherited]
      simp [hnone, hnil]
    · simp [hnil] at hi
  | release =>
    have hw : s.waiting = [] := hsafe.1
    have hnil := (h.heads_nil hw).1
    refine ⟨_, rfl, { h with
      inherited := fun u i => ?_
      owner := fun _ hne => absurd hw hne
      schedulerNode := fun _ i hi => ?_ }⟩
    · rw [h.inherited]
      simp [hnil]
    · simp [hnil] at hi
  | enqueue t =>
    obtain ⟨⟨ht, howner⟩, -⟩ := hsafe
    cases ops with
    | priority => exact priorityEnqueue_exact h ht
    | priorityInherit =>
      obtain ⟨hsome, hne⟩ := howner rfl
      obtain ⟨o, ho⟩ := Option.ne_none_iff_exists'.mp hsome
      exact inheritEnqueue_exact h ht ho fun he => hne (he ▸ ho)
  | extract t => exact extract_exact h hsafe.1
  | surrender =>
    cases ops with
    | priority => exact prioritySurrender_exact h hsafe.1
    | priorityInherit => exact inheritSurrender_exact h hsafe.1
  | actions t changes => exact performActions_exact h hsafe

theorem exact_of_run {start : State T S} {run : List (Op T S)} (hinit : Initialized start)
    (hrun : Run (step ops) (Safe ops) start run s) : Exact ops s := by
  refine hrun.invariant (Exact ops) hinit.exact fun s op s' h hsafe hstep => ?_
  obtain ⟨s'', hres, hexact⟩ := step_exact h hsafe
  rw [hstep, Option.some_inj] at hres
  exact hres ▸ hexact

/-- In every run of safe operations, the chain of a thread queue with waiting threads
lists exactly the non-empty priority queues, each once, its first thread is one that
waits, and every safe operation is defined, so that none unlinks a priority queue that
is not on the chain. -/
theorem fifo_exact_of_safe {start : State T S} {run : List (Op T S)} (hinit : Initialized start)
    (hrun : Run (step ops) (Safe ops) start run s) :
    (s.waiting ≠ [] → s.heads.chain.Nodup ∧
      (∀ i, i ∈ s.heads.chain ↔ (s.heads.queue i).isEmpty = false) ∧
      ∃ t ∈ s.waiting, priorityFirst s = some t) ∧
    ∀ op, Safe ops s op → (step ops s op).isSome := by
  have h := exact_of_run hinit hrun
  refine ⟨fun hw => ⟨h.heads.indexes.nodup, fun i => ?_, h.exists_first hw⟩, fun op hsafe => ?_⟩
  · rw [h.heads.mem_chain]
    simp [nodes, Aggregation.isEmpty]
  · obtain ⟨s', hres, -⟩ := step_exact h hsafe
    simp [hres]

instance (ops : Operations) (s : State T S) : (op : Op T S) → Decidable (Legal ops s op)
  | .seize _ => inferInstanceAs (Decidable (_ ∧ _))
  | .release => inferInstanceAs (Decidable (_ = _))
  | .enqueue _ => inferInstanceAs (Decidable (_ ∧ _))
  | .extract _ => inferInstanceAs (Decidable (_ ∈ _))
  | .surrender => inferInstanceAs (Decidable (_ ≠ _))
  | .actions t changes => inferInstanceAs (Decidable ((changes.map Prod.fst).Nodup ∧
      ∀ change ∈ changes, (change.2.2.1 ∈ (s.threads t).nodes change.1 ↔ change.2.1 ≠ .add) ∧
        change.2.2.1 ≠ .inherited ∧ (change.2.2.1 = .real → change.2.1 = .change)))

instance (s : State T S) : (op : Op T S) → Decidable (Covered s op)
  | .seize _ | .release | .enqueue _ | .extract _ | .surrender => isTrue trivial
  | .actions t changes => inferInstanceAs (Decidable (t ∈ s.waiting → ∀ change ∈ changes,
      (change.2.1 = .add → (s.threads t).nodes change.1 = [] → s.heads.nodes change.1 ≠ []) ∧
        (change.2.1 = .remove → (s.threads t).nodes change.1 = [change.2.2.1] →
          ∃ u ∈ s.heads.nodes change.1, u ≠ t)))

instance (ops : Operations) (s : State T S) (op : Op T S) : Decidable (Safe ops s op) :=
  inferInstanceAs (Decidable (_ ∧ _))

/-- Two schedulers; the even threads belong to the first one, the odd ones to the second. -/
def atRest : State Nat Nat where
  heads := ⟨fun _ => ⟨[], 0⟩, []⟩
  schedulerNode _ := none
  waiting := []
  owner := none
  threads t := ⟨fun i => ⟨if i = t % 2 then [.real] else [], t⟩, [t % 2]⟩
  given t _ _ := t

theorem initialized_atRest : Initialized atRest :=
  ⟨⟨rfl, fun _ => rfl⟩, rfl, rfl, fun t => ⟨t % 2, rfl, fun _ => rfl⟩⟩

/-- The owner inherits from a thread that gains a scheduler node while it waits. -/
theorem fifo_exact_of_safe_gain :
    ∃ s, Run (step .priorityInherit) (Safe .priorityInherit) atRest
        [.seize 0, .enqueue 1, .enqueue 3, .actions 3 [(0, .add, .other 7, 2)]] s ∧
      (s.heads.chain.Nodup ∧ (∀ i, i ∈ s.heads.chain ↔ (s.heads.queue i).isEmpty = false) ∧
        ∃ t ∈ s.waiting, priorityFirst s = some t) ∧
      s.heads.chain = [1, 0] := by
  refine Run.exists_of_map_exec (fun s => (s.waiting, s.heads.chain)) ([3, 1], [1, 0])
    (by decide) ?_
  intro s hrun hstate
  rw [Prod.mk.injEq] at hstate
  exact ⟨(fifo_exact_of_safe initialized_atRest hrun).1 (by simp [hstate.1]), hstate.2⟩

/-- Without inheritance, a waiting thread that gains a scheduler node is in a priority
queue that is not on the chain, and its extraction unlinks that priority queue; one that
loses a scheduler node leaves an empty priority queue at the head of the chain, and
there is no first thread. -/
theorem fifo_not_exact_of_actions :
    (∃ s, Run (step .priority) (Legal .priority) atRest
        [.enqueue 1, .actions 1 [(0, .add, .other 7, 2)]] s ∧
      s.waiting = [1] ∧ s.heads.chain = [1] ∧ (s.heads.queue 0).isEmpty = false ∧
      Legal .priority s (.extract 1) ∧ (step .priority s (.extract 1)).isNone) ∧
    ∃ s, Run (step .priority) (Legal .priority) atRest
        [.actions 1 [(0, .add, .other 7, 2)], .enqueue 2, .enqueue 1, .extract 2,
          .actions 1 [(0, .remove, .other 7, 2)]] s ∧
      s.waiting = [1] ∧ s.heads.chain = [0, 1] ∧ (s.heads.queue 0).isEmpty = true ∧
      priorityFirst s = none := by
  constructor
  · refine Run.exists_of_map_exec (fun s => (s.waiting, s.heads.chain,
      (s.heads.queue 0).isEmpty, (step .priority s (.extract 1)).isNone))
      ([1], [1], false, true) (by decide) ?_
    intro s _ hstate
    simp only [Prod.mk.injEq] at hstate
    obtain ⟨hwaiting, hchain, hqueue, hnone⟩ := hstate
    exact ⟨hwaiting, hchain, hqueue, by simp [Legal, hwaiting], hnone⟩
  · refine Run.exists_of_map_exec (fun s => (s.waiting, s.heads.chain,
      (s.heads.queue 0).isEmpty, priorityFirst s)) ([1], [0, 1], true, none) (by decide) ?_
    intro s _ hstate
    simpa only [Prod.mk.injEq] using hstate

end Rtems.ThreadQueue.Smp
