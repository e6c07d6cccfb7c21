import Rtems.Models.ThreadQueue.Smp.Fifo

/-!
# Every operation keeps the chain exact

An operation first updates the priority queues of the scheduler nodes it is about, and
with inheritance it then passes the reported changes on to the owner. An enqueue, an
extraction and a surrender need nothing more for the chain to stay exact.
-/

namespace Rtems.ThreadQueue.Smp

variable {T S : Type} [DecidableEq T] [DecidableEq S] {ops : Operations} {s s' : State T S}
  {t o : T} {heads : Directory T S}

open Function Directory

/-- Scheduler nodes that carry the real priorities and the inherited nodes of the state. -/
structure Carries (s : State T S) (threads : T → Directory Source S) : Prop where
  ok : ∀ u, (threads u).Ok
  real : ∀ u, ∃ i, Source.real ∈ (threads u).nodes i
  inherited : ∀ u i,
    Source.inherited ∈ (threads u).nodes i ↔ Source.inherited ∈ (s.threads u).nodes i

omit [DecidableEq T] [DecidableEq S] in
theorem Exact.carries (h : Exact ops s) : Carries s s.threads :=
  ⟨h.threads, h.real, fun _ _ => .rfl⟩

variable {threads : T → Directory Source S} {waiting : List T}

omit [DecidableEq T] [DecidableEq S] in
/-- New heads for the waiting threads, without inheritance. -/
theorem Exact.setHeads (h : Exact .priority s) (hnodup : waiting.Nodup)
    (hok : heads.Ok) (hthreads : Carries s threads)
    (hmem : ∀ u i, u ∈ heads.nodes i ↔ u ∈ waiting ∧ i ∈ (threads u).chain) :
    Exact .priority { s with waiting, heads, threads } where
  waiting_nodup := hnodup
  heads := hok
  threads := hthreads.ok
  mem_heads := hmem
  real := hthreads.real
  inherited u i := (hthreads.inherited u i).trans (by simp [h.inherited])
  owner hops := by simp at hops
  schedulerNode hops := by simp at hops

omit [DecidableEq T] [DecidableEq S] in
/-- New heads for the waiting threads, before the owner is told. -/
theorem Exact.behind (h : Exact .priorityInherit s) (hnodup : waiting.Nodup)
    (hok : heads.Ok) (hthreads : Carries s threads)
    (hmem : ∀ u i, u ∈ heads.nodes i ↔ u ∈ waiting ∧ i ∈ (threads u).chain)
    (howner : s.owner = some o) (ho : o ∉ waiting) {schedulerNode : S → Option T}
    (hnode : ∀ i ∈ heads.chain, schedulerNode i = some o) :
    Behind s.heads.chain { s with waiting, heads, threads, schedulerNode } o where
  waiting_nodup := hnodup
  heads := hok
  threads := hthreads.ok
  mem_heads := hmem
  real := hthreads.real
  inherited u i := (hthreads.inherited u i).trans (by simp [h.inherited])
  owner := howner
  not_waiting := ho
  schedulerNode i hi := (hnode i hi).trans howner.symm

omit [DecidableEq T] in
/-- A loop over the scheduler nodes of a thread that enters or leaves the queue. -/
theorem Exact.threadLoop (h : Exact ops s) (tells : Prop) (type : ActionType)
    {body : Directory T S → S → Option (Directory T S × Option ActionType)}
    (hbody : ∀ d i, d.Ok → (t ∈ d.nodes i ↔ type ≠ .add) → ∃ d' report,
      body d i = some (d', report) ∧ Performed d d' i type t ∧ (tells → Reported d d' i report))
    (ht : t ∈ s.waiting ↔ type ≠ .add) :
    ∃ heads reported, Directory.loop id body s.heads [] (s.threads t).chain =
        some (heads, reported) ∧
      PerformedAll id (fun _ => (type, t)) s.heads heads (s.threads t).chain ∧
      (tells → ReportedAll s.heads heads (s.threads t).chain reported) := by
  obtain ⟨heads, reported, hloop, hperformed, hreported⟩ := loop_spec tells id
    (fun _ => (type, t)) (fun a _ => t ∈ a.contributors ↔ type ≠ .add) body hbody
    (by simpa using (h.threads t).indexes.nodup) h.heads
    (fun i hi => ((h.mem_heads t i).trans (and_iff_left hi)).trans ht) []
  rw [List.append_nil] at hloop
  exact ⟨heads, reported, hloop, hperformed, by simpa using hreported⟩

/-- The loop of `_Thread_queue_Priority_do_extract`. -/
theorem priorityDoExtract_loop (h : Exact .priority s) (ht : t ∈ s.waiting) :
    ∃ heads reported, Directory.loop id (fun d i => d.plainExtract i t)
        s.heads [] (s.threads t).chain = some (heads, reported) ∧
      PerformedAll id (fun _ => (ActionType.remove, t)) s.heads heads (s.threads t).chain := by
  obtain ⟨heads, reported, hloop, hperformed, -⟩ := h.threadLoop False .remove
    (fun d i hd hp => by
      obtain ⟨d', report, hres, hperformed⟩ := plainExtract_spec hd (hp.mpr (by decide))
      exact ⟨d', report, hres, hperformed, False.elim⟩)
    (iff_of_true ht (by decide))
  exact ⟨heads, reported, hloop, hperformed⟩

/-- The loop over the scheduler nodes of a thread that leaves an inheritance queue. -/
theorem inheritDoExtract_loop (h : Exact .priorityInherit s) (key : S → T → Nat)
    (ht : t ∈ s.waiting) :
    ∃ heads reported, Directory.loop id (fun d i => d.extract key i t)
        s.heads [] (s.threads t).chain = some (heads, reported) ∧
      PerformedAll id (fun _ => (ActionType.remove, t)) s.heads heads (s.threads t).chain ∧
      ReportedAll s.heads heads (s.threads t).chain reported := by
  obtain ⟨heads, reported, hloop, hperformed, hreported⟩ := h.threadLoop True .remove
    (fun d i hd hp => by
      obtain ⟨d', report, hres, hperformed, hreported⟩ := extract_spec hd key (hp.mpr (by decide))
      exact ⟨d', report, hres, hperformed, fun _ => hreported⟩)
    (iff_of_true ht (by decide))
  exact ⟨heads, reported, hloop, hperformed, hreported trivial⟩

/-- A thread gets enqueued, without inheritance. -/
theorem priorityEnqueue_exact (h : Exact .priority s) (ht : t ∉ s.waiting) :
    ∃ s', enqueue .priority s t = some s' ∧ Exact .priority s' := by
  have hnodup : (t :: s.waiting).Nodup := List.nodup_cons.mpr ⟨ht, h.waiting_nodup⟩
  cases hw : s.waiting with
  | nil =>
    obtain ⟨home, rest, hchain⟩ := List.exists_cons_of_ne_nil (h.chain_ne_nil t)
    obtain ⟨heads, reported, hloop, hperformed, -⟩ := initialize_spec (t := t) s.threadKey h.heads
      (h.heads_nil hw).1 (hchain ▸ (h.threads t).indexes.nodup) none
    rw [← hchain] at hperformed
    refine ⟨_, ?_, h.setHeads hnodup hperformed.ok h.carries (h.mem_enqueued ht hperformed)⟩
    simp only [enqueue, hw, priorityDoInitialize, hchain]
    exact Option.bind_eq_some_iff.mpr ⟨_, hloop, rfl⟩
  | cons u us =>
    obtain ⟨heads, reported, hloop, hperformed, -⟩ := h.threadLoop False .add
      (fun d i hd hp => by
        obtain ⟨d', report, hres, hperformed⟩ := plainEnqueue_spec hd s.threadKey (by simpa using hp)
        exact ⟨d', report, hres, hperformed, False.elim⟩)
      (iff_of_false ht (by simp))
    refine ⟨_, ?_, h.setHeads hnodup hperformed.ok h.carries (h.mem_enqueued ht hperformed)⟩
    simp only [enqueue, hw]
    exact Option.bind_eq_some_iff.mpr ⟨_, hloop, rfl⟩

/-- A thread gets enqueued behind an owner that inherits. -/
theorem inheritEnqueue_exact (h : Exact .priorityInherit s) (ht : t ∉ s.waiting)
    (ho : s.owner = some o) (hne : o ≠ t) :
    ∃ s', enqueue .priorityInherit s t = some s' ∧ Exact .priorityInherit s' := by
  have hnodup : (t :: s.waiting).Nodup := List.nodup_cons.mpr ⟨ht, h.waiting_nodup⟩
  have hnot : o ∉ t :: s.waiting := by
    rw [List.mem_cons, not_or]
    refine ⟨hne, fun hmem => ?_⟩
    obtain ⟨o', ho', hnot⟩ := h.owner rfl (List.ne_nil_of_mem hmem)
    rw [ho, Option.some_inj] at ho'
    exact hnot (ho' ▸ hmem)
  have hbehind {heads : Directory T S} {reported : List (S × ActionType)}
      (hp : PerformedAll id (fun _ => (ActionType.add, t)) s.heads heads (s.threads t).chain)
      (hr : ReportedAll s.heads heads (s.threads t).chain reported) :
      Behind s.heads.chain { s with
        waiting := t :: s.waiting
        heads := heads
        schedulerNode := setSchedulerNodes s o reported } o :=
    h.behind hnodup hp.ok h.carries (h.mem_enqueued ht hp) ho hnot
      fun i hi => h.schedulerNode_of_reported ho hr hi
  cases hw : s.waiting with
  | nil =>
    obtain ⟨home, rest, hchain⟩ := List.exists_cons_of_ne_nil (h.chain_ne_nil t)
    obtain ⟨heads, reported, hloop, hperformed, hreported⟩ := initialize_spec (t := t) s.threadKey
      h.heads (h.heads_nil hw).1 (hchain ▸ (h.threads t).indexes.nodup) (some .add)
    have hreported := hreported rfl
    rw [← hchain] at hperformed hreported
    obtain ⟨s', hres, hexact⟩ :=
      performOwnerActions_spec (hbehind hperformed hreported) hreported
    refine ⟨s', ?_, hexact⟩
    rw [hw] at hres
    simp only [enqueue, hw, inheritDoInitialize, hchain]
    exact Option.bind_eq_some_iff.mpr ⟨o, ho, Option.bind_eq_some_iff.mpr ⟨_, hloop, hres⟩⟩
  | cons u us =>
    obtain ⟨heads, reported, hloop, hperformed, hreported⟩ := h.threadLoop True .add
      (fun d i hd hp => by
        obtain ⟨d', report, hres, hperformed, hreported⟩ :=
          insert_spec hd s.threadKey (by simpa using hp)
        exact ⟨d', report, hres, hperformed, fun _ => hreported⟩)
      (iff_of_false ht (by simp))
    have hreported := hreported trivial
    obtain ⟨s', hres, hexact⟩ :=
      performOwnerActions_spec (hbehind hperformed hreported) hreported
    refine ⟨s', ?_, hexact⟩
    rw [hw] at hres
    simp only [enqueue, hw]
    exact Option.bind_eq_some_iff.mpr ⟨o, ho, Option.bind_eq_some_iff.mpr ⟨_, hloop, hres⟩⟩

/-- A waiting thread gets extracted. -/
theorem extract_exact (h : Exact ops s) (ht : t ∈ s.waiting) :
    ∃ s', extract ops s t = some s' ∧ Exact ops s' := by
  have hnodup : (s.waiting.erase t).Nodup := h.waiting_nodup.erase t
  cases ops with
  | priority =>
    obtain ⟨heads, reported, hloop, hperformed⟩ := priorityDoExtract_loop h ht
    refine ⟨_, ?_, h.setHeads hnodup hperformed.ok h.carries (h.mem_extracted hperformed)⟩
    exact Option.bind_eq_some_iff.mpr ⟨_, hloop, rfl⟩
  | priorityInherit =>
    obtain ⟨o, ho, hnot⟩ := h.owner rfl (List.ne_nil_of_mem ht)
    obtain ⟨heads, reported, hloop, hperformed, hreported⟩ := inheritDoExtract_loop h s.threadKey ht
    have hbehind : Behind s.heads.chain { s with
        waiting := s.waiting.erase t
        heads := heads
        schedulerNode := s.schedulerNode } o :=
      h.behind hnodup hperformed.ok h.carries (h.mem_extracted hperformed) ho
        (fun hmem => hnot (List.mem_of_mem_erase hmem)) fun i hi =>
          (h.schedulerNode rfl i (hperformed.chain_subset h.heads hi)).trans ho
    obtain ⟨s', hres, hexact⟩ := performOwnerActions_spec hbehind hreported
    refine ⟨s', ?_, hexact⟩
    exact Option.bind_eq_some_iff.mpr ⟨o, ho, Option.bind_eq_some_iff.mpr ⟨_, hloop, hres⟩⟩

omit [DecidableEq T] [DecidableEq S] in
/-- Rotating the chain changes nothing but its order. -/
theorem Exact.rotation (h : Exact ops s) (hw : s.waiting ≠ []) :
    ∃ heads, s.heads.rotation = some heads ∧ Exact ops { s with heads } := by
  obtain ⟨t, -, hfirst⟩ := h.exists_first hw
  cases hchain : s.heads.chain with
  | nil => simp [priorityFirst, hchain] at hfirst
  | cons i rest =>
    have hmem (j : S) : j ∈ rest ++ [i] ↔ j ∈ s.heads.chain := by
      rw [hchain]
      simp [or_comm]
    refine ⟨{ s.heads with chain := rest ++ [i] }, by simp [Directory.rotation, hchain], ?_⟩
    exact {
      __ := h
      heads := ⟨(hchain ▸ h.heads.indexes).rotate, h.heads.nodup⟩
      inherited := fun u j => (h.inherited u j).trans (by rw [hmem])
      schedulerNode := fun hops j hj => h.schedulerNode hops j ((hmem j).mp hj) }

omit [DecidableEq T] [DecidableEq S] in
/-- Without inheritance the owner does not matter. -/
theorem Exact.setOwner (h : Exact .priority s) (owner : Option T) :
    Exact .priority { s with owner } where
  __ := h
  inherited u i := by simpa using h.inherited u i
  owner hops := by simp at hops
  schedulerNode hops := by simp at hops

/-- The first waiting thread becomes the owner, without inheritance. -/
theorem prioritySurrender_exact (h : Exact .priority s) (hw : s.waiting ≠ []) :
    ∃ s', surrender .priority s = some s' ∧ Exact .priority s' := by
  obtain ⟨t, ht, hfirst⟩ := h.exists_first hw
  obtain ⟨rotated, hrotation, hexact⟩ := h.rotation hw
  obtain ⟨heads, reported, hloop, hperformed⟩ := priorityDoExtract_loop hexact ht
  refine ⟨_, ?_, (hexact.setHeads (h.waiting_nodup.erase t) hperformed.ok hexact.carries
    (hexact.mem_extracted hperformed)).setOwner (some t)⟩
  have hextract : priorityDoExtract { s with heads := rotated, waiting := s.waiting.erase t } t =
      some { s with heads, waiting := s.waiting.erase t } :=
    Option.bind_eq_some_iff.mpr ⟨_, hloop, rfl⟩
  simp only [surrender, hfirst, priorityDoSurrender, hrotation, hextract, Option.bind_eq_bind,
    Option.bind_some]

section

variable {l : List S} {e : Directory Source S} {actions reported : List (S × ActionType)}

/-- The first loop of the surrender works on the scheduler nodes of the previous owner. -/
theorem foldlM_surrenderRemove (hnode : ∀ i ∈ l, s.schedulerNode i = some o)
    (hloop : Directory.loop id (fun d i => d.extract (s.sourceKey o) i .inherited) (s.threads o)
      actions l = some (e, reported)) :
    l.foldlM surrenderRemove s = some (s.setThread o e) := by
  induction l generalizing s actions with
  | nil =>
    simp only [Directory.loop, Option.some_inj, Prod.mk.injEq] at hloop
    simp [← hloop.1, State.setThread]
  | cons i l ih =>
    simp only [Directory.loop, Option.bind_eq_bind, Option.bind_eq_some_iff] at hloop
    obtain ⟨⟨d, report⟩, hextract, hloop⟩ := hloop
    have hremove : surrenderRemove s i = some (s.setThread o d) := by
      simp only [surrenderRemove, hnode i List.mem_cons_self, hextract, Option.bind_eq_bind,
        Option.bind_some]
    have hrest := ih (s := s.setThread o d) (fun j hj => hnode j (List.mem_cons_of_mem i hj))
      (by rw [State.setThread_threads_self]; exact hloop)
    rw [List.foldlM_cons, hremove, Option.bind_eq_bind, Option.bind_some, hrest]
    simp [State.setThread]

/-- The last loop of the surrender works on the scheduler nodes of the new owner. -/
theorem foldlM_surrenderAdd
    (hloop : Directory.loop id (fun d i => d.insert (s.sourceKey t) i .inherited) (s.threads t)
      actions l = some (e, reported)) :
    l.foldlM (surrenderAdd t) s = some { s.setThread t e with
      schedulerNode := fun i => if i ∈ l then some t else s.schedulerNode i } := by
  induction l generalizing s actions with
  | nil =>
    simp only [Directory.loop, Option.some_inj, Prod.mk.injEq] at hloop
    simp [← hloop.1, State.setThread]
  | cons i l ih =>
    simp only [Directory.loop, Option.bind_eq_bind, Option.bind_eq_some_iff] at hloop
    obtain ⟨⟨d, report⟩, hinsert, hloop⟩ := hloop
    have hadd : surrenderAdd t s i = some { s.setThread t d with
        schedulerNode := update s.schedulerNode i (some t) } := by
      have hkey : State.sourceKey { s with
          schedulerNode := update s.schedulerNode i (some t) } t = s.sourceKey t := by
        funext j source
        cases source <;> rfl
      simp only [surrenderAdd, hkey, hinsert, Option.bind_eq_bind, Option.bind_some]
      rfl
    have hrest := ih (s := { s.setThread t d with
        schedulerNode := update s.schedulerNode i (some t) })
      (by rw [State.setThread_threads_self]; exact hloop)
    rw [List.foldlM_cons, hadd, Option.bind_eq_bind, Option.bind_some, hrest]
    simp only [State.setThread, update_idem, Option.some_inj, State.mk.injEq, true_and,
      and_true]
    funext j
    by_cases hj : j = i
    · simp [hj]
    · simp [hj]

end

omit [DecidableEq T] in
/-- The inherited nodes leave the scheduler nodes of the previous owner. -/
theorem surrenderRemove_loop (h : Exact .priorityInherit s) (ho : s.owner = some o)
    (key : S → Source → Nat) :
    ∃ e reported, Directory.loop id (fun d i => d.extract key i .inherited) (s.threads o) []
        s.heads.chain.reverse = some (e, reported) ∧ e.Ok ∧
      (∀ i, Source.inherited ∉ e.nodes i) ∧
      ∀ i, Source.real ∈ (s.threads o).nodes i → Source.real ∈ e.nodes i := by
  have hinherited (i : S) : Source.inherited ∈ (s.threads o).nodes i ↔ i ∈ s.heads.chain := by
    simp [h.inherited, ho]
  obtain ⟨e, reported, hloop, hperformed, -⟩ := loop_spec False id
    (fun _ => (ActionType.remove, Source.inherited)) (fun a _ => Source.inherited ∈ a.contributors)
    (fun d i => d.extract key i .inherited)
    (fun d i hd hp => by
      obtain ⟨d', report, hres, hperformed, -⟩ := extract_spec hd key hp
      exact ⟨d', report, hres, hperformed, False.elim⟩)
    (show (s.heads.chain.reverse.map id).Nodup by simpa using h.heads.indexes.nodup) (h.threads o)
    (fun i hi => (hinherited i).mpr (by simpa using hi)) []
  refine ⟨e, _, hloop, hperformed.ok, fun i => ?_, fun i hi => ?_⟩
  · by_cases hi : i ∈ s.heads.chain
    · exact fun hm => (hperformed.mem i (by simpa using hi)).mp hm rfl
    · rw [nodes, hperformed.other i (by simpa using hi)]
      exact fun hm => hi ((hinherited i).mp hm)
  · exact (hperformed.mem_of_ne (by simp) i).mpr hi

/-- The nodes of the remaining priority queues go to the new owner. -/
theorem surrenderAdd_loop {d : Directory Source S} (hok : d.Ok) {chain : List S}
    (hnodup : chain.Nodup) (hnot : ∀ i, Source.inherited ∉ d.nodes i) (key : S → Source → Nat) :
    ∃ e reported, Directory.loop id (fun d i => d.insert key i .inherited) d [] chain =
        some (e, reported) ∧ e.Ok ∧
      (∀ i, Source.inherited ∈ e.nodes i ↔ i ∈ chain) ∧
      ∀ i, Source.real ∈ d.nodes i → Source.real ∈ e.nodes i := by
  obtain ⟨e, reported, hloop, hperformed, -⟩ := loop_spec False id
    (fun _ => (ActionType.add, Source.inherited)) (fun a _ => Source.inherited ∉ a.contributors)
    (fun d i => d.insert key i .inherited)
    (fun d i hd hp => by
      obtain ⟨d', report, hres, hperformed, -⟩ := insert_spec hd key hp
      exact ⟨d', report, hres, hperformed, False.elim⟩)
    (by simpa using hnodup) hok (fun i _ => hnot i) []
  refine ⟨e, _, hloop, hperformed.ok, fun i => ?_, fun i hi => ?_⟩
  · by_cases hi : i ∈ chain
    · exact iff_of_true ((hperformed.mem i hi).mpr (by simp)) hi
    · rw [nodes, hperformed.other i (by simpa using hi)]
      exact iff_of_false (hnot i) hi
  · exact (hperformed.mem_of_ne (by simp) i).mpr hi

/-- The thread queue after the hand-over. -/
theorem Exact.handedOver (h : Exact .priorityInherit s) (ho : s.owner = some o) (hne : t ≠ o)
    (hnot : o ∉ s.waiting)
    (hp : PerformedAll id (fun _ => (ActionType.remove, t)) s.heads heads (s.threads t).chain)
    {e e' : Directory Source S} (he : e.Ok) (he' : e'.Ok)
    (hinherited : ∀ i, Source.inherited ∉ e.nodes i)
    (hinherited' : ∀ i, Source.inherited ∈ e'.nodes i ↔ i ∈ heads.chain)
    (hreal : ∀ i, Source.real ∈ (s.threads o).nodes i → Source.real ∈ e.nodes i)
    (hreal' : ∀ i, Source.real ∈ (s.threads t).nodes i → Source.real ∈ e'.nodes i)
    (schedulerNode : S → Option T) (hnode : ∀ i ∈ heads.chain, schedulerNode i = some t) :
    Exact .priorityInherit { s with
      waiting := s.waiting.erase t
      heads := heads
      threads := update (update s.threads o e) t e'
      schedulerNode := schedulerNode
      owner := some t } := by
  have ht : t ∉ s.waiting.erase t := h.waiting_nodup.not_mem_erase
  have ho' : o ∉ s.waiting.erase t := fun hm => hnot (List.mem_of_mem_erase hm)
  refine ⟨h.waiting_nodup.erase t, hp.ok, fun u => ?_, fun u i => ?_, fun u => ?_, fun u i => ?_,
    fun _ _ => ⟨t, rfl, ht⟩, fun _ i hi => hnode i hi⟩
  · by_cases hut : u = t
    · simpa [hut] using he'
    · by_cases huo : u = o
      · simpa [huo, Ne.symm hne] using he
      · simpa [hut, huo] using h.threads u
  · rw [h.mem_extracted hp]
    by_cases hut : u = t
    · subst hut
      simp [ht]
    · by_cases huo : u = o
      · subst huo
        simp [ho']
      · simp [hut, huo]
  · obtain ⟨i, hi⟩ := h.real u
    refine ⟨i, ?_⟩
    by_cases hut : u = t
    · subst hut
      simpa using hreal' i hi
    · by_cases huo : u = o
      · subst huo
        simpa [hut] using hreal i hi
      · simpa [hut, huo] using hi
  · by_cases hut : u = t
    · subst hut
      simpa using hinherited' i
    · by_cases huo : u = o
      · subst huo
        simp [hut, hinherited, Ne.symm hut]
      · have hold : Source.inherited ∉ (s.threads u).nodes i := by
          rw [h.inherited, ho]
          simp [Ne.symm huo]
        simp [hut, huo, hold, Ne.symm hut]

/-- The first waiting thread becomes the owner and inherits. -/
theorem inheritSurrender_exact (h : Exact .priorityInherit s) (hw : s.waiting ≠ []) :
    ∃ s', surrender .priorityInherit s = some s' ∧ Exact .priorityInherit s' := by
  obtain ⟨t, ht, hfirst⟩ := h.exists_first hw
  obtain ⟨rotated, hrotation, hexact⟩ := h.rotation hw
  obtain ⟨o, ho, hnot⟩ := h.owner rfl hw
  have hne : t ≠ o := fun he => hnot (he ▸ ht)
  let s₁ : State T S := { s with heads := rotated, waiting := s.waiting.erase t }
  obtain ⟨e, reported, hremove, he, hinherited, hreal⟩ :=
    surrenderRemove_loop hexact ho (s₁.sourceKey o)
  have hfold := foldlM_surrenderRemove (s := s₁) (o := o)
    (fun i hi => (hexact.schedulerNode rfl i (List.mem_reverse.mp hi)).trans ho) hremove
  obtain ⟨heads, reported₂, hloop, hperformed, -⟩ :=
    inheritDoExtract_loop hexact (s₁.setThread o e).threadKey ht
  have hnot' (i : S) : Source.inherited ∉ (s.threads t).nodes i := by
    rw [h.inherited, ho]
    simp [Ne.symm hne]
  let s₂ : State T S := { s₁.setThread o e with heads }
  have hthread : s₂.threads t = s.threads t := State.setThread_threads_of_ne s₁ e hne
  obtain ⟨e', reported₃, hadd, he', hinherited', hreal'⟩ := surrenderAdd_loop (h.threads t)
    hperformed.ok.indexes.nodup hnot' (s₂.sourceKey t)
  have hfold' := foldlM_surrenderAdd (s := s₂) (t := t) (hthread ▸ hadd)
  refine ⟨_, ?_, hexact.handedOver ho hne hnot hperformed he he' hinherited hinherited' hreal
    hreal' (fun i => if i ∈ heads.chain then some t else s.schedulerNode i) fun i hi => if_pos hi⟩
  have hsurrender : inheritDoSurrender { s with waiting := s.waiting.erase t } t =
      some { s₂.setThread t e' with
        schedulerNode := fun i => if i ∈ heads.chain then some t else s₂.schedulerNode i } :=
    Option.bind_eq_some_iff.mpr ⟨_, hrotation, Option.bind_eq_some_iff.mpr ⟨_, hfold,
      Option.bind_eq_some_iff.mpr ⟨_, hthread.symm ▸ hloop, hfold'⟩⟩⟩
  simp only [surrender, hfirst, Option.bind_eq_bind, Option.bind_some, hsurrender]
  rfl

end Rtems.ThreadQueue.Smp
