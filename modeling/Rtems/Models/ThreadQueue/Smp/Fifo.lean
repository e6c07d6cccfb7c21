import Rtems.Models.ThreadQueue.Smp.Directory
import Rtems.Core.Run

/-!
# The chain of the priority queues

The chain `Fifo` lists the priority queues with waiting threads as long as every
change of a waiting thread's scheduler nodes is followed by the thread queue. The
inheritance operations follow every change. The plain priority operations change only
the tree of the priority queue, so they follow the changes that neither give a
priority queue its first thread nor take its last one.
-/

namespace Rtems.ThreadQueue.Smp

variable {T S : Type} [DecidableEq T] [DecidableEq S] {ops : Operations} {s s' : State T S}

open Directory

/-- The thread queue, the owner and the threads agree. -/
structure Exact (ops : Operations) (s : State T S) : Prop where
  waiting_nodup : s.waiting.Nodup
  heads : s.heads.Ok
  threads : ∀ t, (s.threads t).Ok
  mem_heads : ∀ t i, t ∈ s.heads.nodes i ↔ t ∈ s.waiting ∧ i ∈ (s.threads t).chain
  real : ∀ t, ∃ i, Source.real ∈ (s.threads t).nodes i
  inherited : ∀ t i, Source.inherited ∈ (s.threads t).nodes i ↔
    ops = .priorityInherit ∧ s.owner = some t ∧ i ∈ s.heads.chain
  owner : ops = .priorityInherit → s.waiting ≠ [] → ∃ t, s.owner = some t ∧ t ∉ s.waiting
  schedulerNode : ops = .priorityInherit → ∀ i ∈ s.heads.chain, s.schedulerNode i = s.owner

/-- What the callers guarantee. The changed scheduler nodes of one action list are
distinct, and each change fits the priority nodes that the thread has there; the real
priority node stays, and the inherited ones belong to the thread queue. -/
def Legal (ops : Operations) (s : State T S) : Op T S → Prop
  | .seize _ => s.owner = none ∧ s.waiting = []
  | .release => s.waiting = []
  | .enqueue t => t ∉ s.waiting ∧ (ops = .priorityInherit → s.owner ≠ none ∧ s.owner ≠ some t)
  | .extract t => t ∈ s.waiting
  | .surrender => s.waiting ≠ []
  | .actions t changes => (changes.map Prod.fst).Nodup ∧ ∀ change ∈ changes,
      (change.2.2.1 ∈ (s.threads t).nodes change.1 ↔ change.2.1 ≠ .add) ∧
        change.2.2.1 ≠ .inherited ∧ (change.2.2.1 = .real → change.2.1 = .change)

/-- No change of a waiting thread gives a priority queue its first thread or takes its
last one. -/
def Covered (s : State T S) : Op T S → Prop
  | .actions t changes => t ∈ s.waiting → ∀ change ∈ changes,
      (change.2.1 = .add → (s.threads t).nodes change.1 = [] → s.heads.nodes change.1 ≠ []) ∧
        (change.2.1 = .remove → (s.threads t).nodes change.1 = [change.2.2.1] →
          ∃ u ∈ s.heads.nodes change.1, u ≠ t)
  | _ => True

/-- The operations under which the chain stays exact. -/
def Safe (ops : Operations) (s : State T S) (op : Op T S) : Prop :=
  Legal ops s op ∧ (ops = .priority → Covered s op)

/-- Nobody waits or owns, and each thread has its real priority node only. -/
structure Initialized (s : State T S) : Prop where
  heads : s.heads.chain = [] ∧ ∀ i, s.heads.nodes i = []
  waiting : s.waiting = []
  owner : s.owner = none
  threads : ∀ t, ∃ home, (s.threads t).chain = [home] ∧
    ∀ i, (s.threads t).nodes i = if i = home then [.real] else []

omit [DecidableEq T] in
theorem Initialized.exact (h : Initialized s) : Exact ops s where
  waiting_nodup := h.waiting ▸ List.nodup_nil
  heads := ⟨⟨h.heads.1 ▸ List.nodup_nil, by simp [h.heads]⟩, by simp [h.heads]⟩
  threads t := by
    obtain ⟨home, hchain, hnodes⟩ := h.threads t
    refine ⟨⟨hchain ▸ List.nodup_singleton home, fun i => ?_⟩, fun i => ?_⟩
    · rw [hchain, hnodes]
      by_cases hi : i = home <;> simp [hi]
    · rw [hnodes]
      split <;> simp
  mem_heads t i := by simp [h.heads, h.waiting]
  real t := by
    obtain ⟨home, -, hnodes⟩ := h.threads t
    exact ⟨home, by simp [hnodes]⟩
  inherited t i := by
    obtain ⟨home, -, hnodes⟩ := h.threads t
    rw [hnodes]
    split <;> simp [h.owner]
  owner _ hne := absurd h.waiting hne
  schedulerNode _ i hi := by simp [h.heads] at hi

variable {t : T} {actions : List (S × ActionType)} {d : Directory T S} {indices : List S} {o : T}

/-- Actions that fit the priority nodes of a thread. -/
theorem doPerformActions_spec (hok : (s.threads t).Ok)
    (actions : List (S × ActionType × Source)) (hnodup : (actions.map Prod.fst).Nodup)
    (hpre : ∀ action ∈ actions,
      action.2.2 ∈ (s.threads t).nodes action.1 ↔ action.2.1 ≠ .add) :
    ∃ d reported, doPerformActions s t actions = some (s.setThread t d, reported) ∧
      PerformedAll Prod.fst Prod.snd (s.threads t) d actions ∧
      ReportedAll (s.threads t) d (actions.map Prod.fst) reported := by
  obtain ⟨d, reported, hloop, hperformed, hreported⟩ := loop_spec True Prod.fst Prod.snd
    (fun a action => action.2.2 ∈ a.contributors ↔ action.2.1 ≠ .add)
    (fun d action => d.perform (s.sourceKey t) action.1 action.2.1 action.2.2)
    (fun d action hd hp => by
      obtain ⟨d', report, hres, hperformed, hreported⟩ := perform_spec hd (s.sourceKey t) hp
      exact ⟨d', report, hres, hperformed, fun _ => hreported⟩) hnodup hok hpre []
  refine ⟨d, reported, ?_, hperformed, hreported trivial⟩
  rw [List.append_nil] at hloop
  simp only [doPerformActions, hloop, Option.bind_eq_bind, Option.bind_some]

/-- The priority queues have changed; the owner has not yet been told. -/
structure Behind (chain : List S) (s : State T S) (o : T) : Prop where
  waiting_nodup : s.waiting.Nodup
  heads : s.heads.Ok
  threads : ∀ t, (s.threads t).Ok
  mem_heads : ∀ t i, t ∈ s.heads.nodes i ↔ t ∈ s.waiting ∧ i ∈ (s.threads t).chain
  real : ∀ t, ∃ i, Source.real ∈ (s.threads t).nodes i
  inherited : ∀ t i, Source.inherited ∈ (s.threads t).nodes i ↔ s.owner = some t ∧ i ∈ chain
  owner : s.owner = some o
  not_waiting : o ∉ s.waiting
  schedulerNode : ∀ i ∈ s.heads.chain, s.schedulerNode i = s.owner

/-- Telling the owner what the priority queues reported. -/
theorem performOwnerActions_spec (h : Behind d.chain s o)
    (hreported : ReportedAll d s.heads indices actions) :
    ∃ s', performOwnerActions s o actions = some s' ∧ Exact .priorityInherit s' := by
  have hinherited (i : S) : Source.inherited ∈ (s.threads o).nodes i ↔ i ∈ d.chain := by
    simp [h.inherited, h.owner]
  obtain ⟨e, reported, hres, hperformed, -⟩ := doPerformActions_spec (s := s) (h.threads o)
    (actions.map fun a => (a.1, a.2, Source.inherited))
    (by simpa [Function.comp_def] using hreported.nodup) (by
      intro action haction
      obtain ⟨⟨i, type⟩, hmem, rfl⟩ := List.mem_map.mp haction
      rw [hinherited]
      cases type with
      | add => simpa using ((hreported.add i).mp hmem).1
      | change => simpa using (hreported.change i hmem).1
      | remove => simpa using ((hreported.remove i).mp hmem).1)
  refine ⟨s.setThread o e, ?_, ?_⟩
  · rw [performOwnerActions, hres]
    exact if_neg fun hc => h.not_waiting hc.2
  have htell (i : S) : Source.inherited ∈ e.nodes i ↔ i ∈ s.heads.chain := by
    by_cases hi : i ∈ actions.map Prod.fst
    · obtain ⟨⟨j, type⟩, hmem, rfl⟩ := List.mem_map.mp hi
      have hitem := hperformed.mem (j, type, .inherited) (List.mem_map.mpr ⟨(j, type), hmem, rfl⟩)
      rw [hitem]
      cases type with
      | add => simpa using ((hreported.add j).mp hmem).2
      | change => simpa using (hreported.change j hmem).2
      | remove => simpa using ((hreported.remove j).mp hmem).2
    · have hadd : (i, ActionType.add) ∉ actions := fun hm => hi (List.mem_map_of_mem hm)
      have hremove : (i, ActionType.remove) ∉ actions := fun hm => hi (List.mem_map_of_mem hm)
      rw [hreported.add] at hadd
      rw [hreported.remove] at hremove
      rw [nodes, hperformed.other i (by simpa [Function.comp_def] using hi)]
      exact (hinherited i).trans (by tauto)
  refine ⟨h.waiting_nodup, h.heads, fun t => ?_, fun t i => ?_, fun t => ?_, fun t i => ?_,
    fun _ _ => ⟨o, h.owner, h.not_waiting⟩, fun _ => h.schedulerNode⟩
  · by_cases ht : t = o
    · subst ht
      simpa using hperformed.ok
    · simpa [ht] using h.threads t
  · by_cases ht : t = o
    · subst ht
      simp [h.mem_heads, h.not_waiting]
    · simpa [ht] using h.mem_heads t i
  · obtain ⟨i, hi⟩ := h.real t
    by_cases ht : t = o
    · subst ht
      refine ⟨i, ?_⟩
      rw [State.setThread_threads_self]
      by_cases hitem : i ∈ (actions.map fun a => (a.1, a.2, Source.inherited)).map Prod.fst
      · obtain ⟨action, hmem, rfl⟩ := List.mem_map.mp hitem
        refine (hperformed.same action hmem .real ?_).mpr hi
        obtain ⟨_, -, rfl⟩ := List.mem_map.mp hmem
        simp
      · rwa [nodes, hperformed.other i hitem]
    · exact ⟨i, by simpa [ht] using hi⟩
  · by_cases ht : t = o
    · subst ht
      simp [htell, h.owner]
    · have hne : s.owner ≠ some t := by simpa [h.owner] using Ne.symm ht
      simp [ht, h.inherited, hne]

omit [DecidableEq T] [DecidableEq S] in
/-- Every thread has a scheduler node that contributes a priority. -/
theorem Exact.chain_ne_nil (h : Exact ops s) (t : T) : (s.threads t).chain ≠ [] := by
  obtain ⟨i, hi⟩ := h.real t
  exact List.ne_nil_of_mem ((h.threads t).mem_chain.mpr (List.ne_nil_of_mem hi))

omit [DecidableEq T] [DecidableEq S] in
/-- Without waiting threads nothing is linked. -/
theorem Exact.heads_nil (h : Exact ops s) (hw : s.waiting = []) :
    s.heads.chain = [] ∧ ∀ i, s.heads.nodes i = [] := by
  have hnodes (i : S) : s.heads.nodes i = [] := by
    refine List.eq_nil_iff_forall_not_mem.mpr fun t ht => ?_
    simpa [hw] using (h.mem_heads t i).mp ht
  exact ⟨List.eq_nil_iff_forall_not_mem.mpr fun i hi => h.heads.mem_chain.mp hi (hnodes i), hnodes⟩

omit [DecidableEq T] [DecidableEq S] in
/-- The first thread of the first priority queue waits. -/
theorem Exact.exists_first (h : Exact ops s) (hw : s.waiting ≠ []) :
    ∃ t ∈ s.waiting, priorityFirst s = some t := by
  obtain ⟨u, hu⟩ := List.exists_mem_of_ne_nil _ hw
  obtain ⟨j, hj⟩ := List.exists_mem_of_ne_nil _ (h.chain_ne_nil u)
  have hlinked : j ∈ s.heads.chain :=
    h.heads.mem_chain.mpr (List.ne_nil_of_mem ((h.mem_heads u j).mpr ⟨hu, hj⟩))
  obtain ⟨i, rest, hchain⟩ := List.exists_cons_of_ne_nil (List.ne_nil_of_mem hlinked)
  have hne : s.heads.nodes i ≠ [] := h.heads.mem_chain.mp (hchain ▸ List.mem_cons_self)
  obtain ⟨t, others, ht⟩ := List.exists_cons_of_ne_nil hne
  refine ⟨t, ((h.mem_heads t i).mp (ht ▸ List.mem_cons_self)).1, ?_⟩
  have hcontributors : (s.heads.queue i).contributors = t :: others := ht
  simp [priorityFirst, hchain, Aggregation.minimum, hcontributors]

variable {heads : Directory T S}

/-- A thread that did not wait is in the priority queues of its scheduler nodes. -/
theorem Exact.mem_enqueued (h : Exact ops s) (ht : t ∉ s.waiting)
    (hp : PerformedAll id (fun _ => (.add, t)) s.heads heads (s.threads t).chain) (u : T) (i : S) :
    u ∈ heads.nodes i ↔ u ∈ t :: s.waiting ∧ i ∈ (s.threads u).chain := by
  by_cases hu : u = t
  · subst hu
    by_cases hi : i ∈ (s.threads u).chain
    · exact iff_of_true ((hp.mem i hi).mpr (by simp)) ⟨List.mem_cons_self, hi⟩
    · rw [nodes, hp.other i (by simpa using hi)]
      exact iff_of_false (fun hm => ht ((h.mem_heads u i).mp hm).1) fun hm => hi hm.2
  · rw [hp.mem_of_ne hu, h.mem_heads, List.mem_cons]
    simp [hu]

/-- A thread that waited is in no priority queue. -/
theorem Exact.mem_extracted (h : Exact ops s)
    (hp : PerformedAll id (fun _ => (.remove, t)) s.heads heads (s.threads t).chain)
    (u : T) (i : S) :
    u ∈ heads.nodes i ↔ u ∈ s.waiting.erase t ∧ i ∈ (s.threads u).chain := by
  rw [h.waiting_nodup.mem_erase_iff]
  by_cases hu : u = t
  · subst hu
    refine iff_of_false ?_ (by simp)
    by_cases hi : i ∈ (s.threads u).chain
    · exact fun hm => (hp.mem i hi).mp hm rfl
    · rw [nodes, hp.other i (by simpa using hi)]
      exact fun hm => hi ((h.mem_heads u i).mp hm).2
  · rw [hp.mem_of_ne hu, h.mem_heads]
    simp [hu]

omit [DecidableEq T] in
/-- The linked priority queues know the owner. -/
theorem Exact.schedulerNode_of_reported (h : Exact .priorityInherit s)
    (ho : s.owner = some o) (hr : ReportedAll s.heads heads indices actions) {i : S}
    (hi : i ∈ heads.chain) : setSchedulerNodes s o actions i = some o := by
  by_cases hold : i ∈ s.heads.chain
  · simp [setSchedulerNodes, h.schedulerNode rfl i hold, ho]
  · simp [setSchedulerNodes, (hr.add i).mpr ⟨hold, hi⟩]

omit [DecidableEq T] in
/-- Both `do_initialize` functions: the loop over the scheduler nodes of the first
waiting thread. -/
theorem initialize_spec {home : S} {rest : List S}
    (key : S → T → Nat) (hok : d.Ok) (hchain : d.chain = []) (hnodup : (home :: rest).Nodup)
    (report : Option ActionType) :
    ∃ d' reported, Directory.loop id (fun d i => do
        let chain ← link d.chain i
        some ({ d.setQueue i (Aggregation.initializedOne (key i) t) with chain }, report))
        { d.setQueue home (Aggregation.initializedOne (key home) t) with chain := [home] }
        (report.toList.map fun type => (home, type)) rest = some (d', reported) ∧
      PerformedAll id (fun _ => (ActionType.add, t)) d d' (home :: rest) ∧
      (report = some .add → ReportedAll d d' (home :: rest) reported) := by
  have hempty (i : S) : d.nodes i = [] := by
    by_contra hne
    simpa [hchain] using hok.mem_chain.mpr hne
  obtain ⟨-, hfirst⟩ := performed_link hok (key home) t (hempty home)
  have hreported := reported_link hok (a := Aggregation.initializedOne (key home) t) (hempty home)
  rw [hchain, List.nil_append] at hfirst hreported
  obtain ⟨hnew, hnodup⟩ := List.nodup_cons.mp hnodup
  obtain ⟨d', reported, hloop, hrest, htells⟩ := loop_spec (report = some .add) id
    (fun _ => (ActionType.add, t)) (fun a _ => a.contributors = []) (fun d i => do
      let chain ← link d.chain i
      some ({ d.setQueue i (Aggregation.initializedOne (key i) t) with chain }, report))
    (fun d i hd hp => by
      obtain ⟨hlink, hperformed⟩ :=
        performed_link hd (i := i) (key i) t hp
      refine ⟨_, report, by simp only [hlink, Option.bind_eq_bind, Option.bind_some],
        hperformed, fun hr => hr ▸ reported_link hd hp⟩)
    (by simpa using hnodup) hfirst.ok (fun i hi => by
      have hne : i ≠ home := fun he => hnew (he ▸ hi)
      rw [id_eq, hfirst.other i hne]
      exact hempty i) (report.toList.map fun type => (home, type))
  refine ⟨d', _, hloop, .cons hfirst hrest (by simpa using hnew), fun hr => ?_⟩
  subst hr
  rw [List.map_id] at htells
  exact .cons hok hfirst.ok hrest.ok hreported (htells rfl) hfirst.other
    (hrest.other home (by simpa using hnew)) hnew

end Rtems.ThreadQueue.Smp
